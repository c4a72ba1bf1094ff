import AeroOS.Build.ReadBack
import AeroOS.Fat32.Format
import AeroOS.Fs.Paths

/-!
# Resolution on the mount table of the boot

`find_mount` compares the path as it is written with `/disk` and `/dev`, and
`resolve` walks along the components.

* `under_iff`: a path lies under `/c` when its first component is `c` and it starts
  with one slash only.
* `target_boot` is what a path comes to on the table of `/`, `/disk` and `/dev`.
* `sameResult_iff`: paths with the same components come to the same, except that a
  second slash in front of `disk` or `dev` leads past the mount.
-/

namespace AeroOS.Fs

open Build Labelled Run Separated

/-- The path starts with two slashes or more. -/
def Doubled (path : Path) : Prop := [slash, slash] <+: path

instance (path : Path) : Decidable (Doubled path) := inferInstanceAs (Decidable (_ <+: _))

/-- `disk`. -/
def diskName : Path := [0x64, 0x69, 0x73, 0x6B]

/-- `dev`. -/
def devName : Path := [0x64, 0x65, 0x76]

namespace Vfs

variable {σ : Type}

/-! ## Mount points of one component -/

theorem doubled_cons {l : Path} : Doubled (slash :: l) ↔ l.head? = some slash := by
  rw [Doubled, List.cons_prefix_cons, List.head?_eq_some_iff]
  constructor
  · rintro ⟨-, rest, rfl⟩
    exact ⟨rest, rfl⟩
  · rintro ⟨rest, rfl⟩
    exact ⟨rfl, rest, rfl⟩

section point

variable {c p : Path} (hne : c ≠ []) (hc : slash ∉ c)

include hne hc

theorem Under.exists_rest (h : Under (slash :: c) p) :
    ∃ rest, p = slash :: (c ++ rest) ∧ (rest = [] ∨ rest.head? = some slash) := by
  obtain ⟨rest, rfl, h | h | h⟩ := h
  · exact ⟨rest, rfl, Or.inl h⟩
  · exact ⟨rest, rfl, Or.inr h⟩
  · rw [List.getLast?_cons_of_ne_nil hne] at h
    exact absurd (List.mem_of_getLast? h) hc

theorem under_iff (hp : p.head? = some slash) :
    Under (slash :: c) p ↔ ¬ Doubled p ∧ (parts slash p).head? = some c := by
  obtain ⟨l, rfl⟩ := List.head?_eq_some_iff.1 hp
  rw [doubled_cons, parts_cons_self]
  constructor
  · intro h
    obtain ⟨rest, heq, hrest⟩ := h.exists_rest hne hc
    obtain rfl := (List.cons.inj heq).2
    rw [parts_append slash hne hc hrest]
    refine ⟨fun h => hc ?_, rfl⟩
    rw [List.head?_append_of_ne_nil _ hne] at h
    exact List.mem_of_head? h
  · rintro ⟨hhead, hfirst⟩
    have hl : l ≠ [] := by
      rintro rfl
      cases hfirst
    obtain ⟨a, rest, rfl, ha, hmem, hrest⟩ := exists_first slash hl hhead
    rw [parts_append slash ha hmem hrest] at hfirst
    obtain rfl := Option.some.inj hfirst
    exact ⟨rest, rfl, hrest.imp_right Or.inl⟩

theorem parts_relative (h : Under (slash :: c) p) :
    parts slash (relative (slash :: c) p) = (parts slash p).tail := by
  have happ := append_relative h
  obtain ⟨rest, rfl, hrest⟩ := h.exists_rest hne hc
  have hrel : relative (slash :: c) (slash :: (c ++ rest)) = rest := List.append_cancel_left happ
  rw [hrel, parts_cons_self, parts_append slash hne hc hrest, List.tail_cons]

end point

theorem parts_relative_root {p : Path} (hp : p.head? = some slash) :
    parts slash (relative [slash] p) = parts slash p := by
  obtain ⟨l, rfl⟩ := List.head?_eq_some_iff.1 hp
  have hunder : Under [slash] (slash :: l) := ⟨l, rfl, Or.inr (Or.inr rfl)⟩
  have hrel : relative [slash] (slash :: l) = l := List.append_cancel_left (append_relative hunder)
  rw [hrel, parts_cons_self]

/-! ## The table of the boot -/

/-- Where the components of a path lead on the table of the boot. -/
def bootTarget (doubled : Prop) [Decidable doubled] (cs : List Path) : Nat × List Path :=
  if ¬ doubled ∧ cs.head? = some diskName then (0, cs.tail)
  else if ¬ doubled ∧ cs.head? = some devName then (1, cs.tail)
  else (2, cs)

theorem isMountPoint_disk : IsMountPoint diskPoint := ⟨rfl, by decide⟩

theorem isMountPoint_dev : IsMountPoint devPoint := ⟨rfl, by decide⟩

theorem target_boot (root disk dev : FileOps σ) {p : Path} (hp : p.head? = some slash) :
    (bootVfs root disk dev).target p = some (bootTarget (Doubled p) (parts slash p)) := by
  have hdisk := under_iff (c := diskName) (by decide) (by decide) hp
  have hdev := under_iff (c := devName) (by decide) (by decide) hp
  have hmatched : (matched diskPoint p = true ↔ Under (slash :: diskName) p) ∧
      (matched devPoint p = true ↔ Under (slash :: devName) p) :=
    ⟨matched_iff isMountPoint_disk p, matched_iff isMountPoint_dev p⟩
  rw [bootTarget]
  by_cases h0 : matched diskPoint p = true
  · have hunder := hmatched.1.1 h0
    rw [if_pos (hdisk.1 hunder), ← parts_relative (by decide) (by decide) hunder]
    refine target_of_matched (m := ⟨diskPoint, 1, disk⟩) rfl h0 fun j _ hj => ?_
    exact absurd hj (Nat.not_lt_zero j)
  rw [if_neg fun h => h0 (hmatched.1.2 (hdisk.2 h))]
  by_cases h1 : matched devPoint p = true
  · have hunder := hmatched.2.1 h1
    rw [if_pos (hdev.1 hunder), ← parts_relative (by decide) (by decide) hunder]
    refine target_of_matched (m := ⟨devPoint, 1, dev⟩) rfl h1 fun j m' hj hm' => ?_
    obtain rfl : j = 0 := Nat.lt_one_iff.1 hj
    obtain rfl := Option.some.inj hm'
    exact Bool.not_eq_true _ ▸ h0
  rw [if_neg fun h => h1 (hmatched.2.2 (hdev.2 h)), ← parts_relative_root hp]
  refine target_of_matched (m := ⟨[slash], 1, root⟩) rfl ?_ fun j m' hj hm' => ?_
  · show matched [slash] p = true
    rw [matched, if_pos rfl, hp, beq_self_eq_true]
  · rcases (by omega : j = 0 ∨ j = 1) with rfl | rfl <;> obtain rfl := Option.some.inj hm'
    · exact Bool.not_eq_true _ ▸ h0
    · exact Bool.not_eq_true _ ▸ h1

/-- Two paths with one result: the same mount and inode, or an error each. -/
def SameResult (v : Vfs σ) (p q : Path) (s : σ) : Prop :=
  ∀ r, v.Resolves p s r ↔ v.Resolves q s r

/-- The first component is that of a mount point. -/
def MountFirst (cs : List Path) : Prop := cs.head? = some diskName ∨ cs.head? = some devName

/-- Only a path that starts with one slash comes to a mount behind a name. -/
theorem bootTarget_congr {a b : Prop} [Decidable a] [Decidable b] {cs : List Path}
    (h : MountFirst cs → (a ↔ b)) : bootTarget a cs = bootTarget b cs := by
  rw [bootTarget, bootTarget]
  by_cases hcs : MountFirst cs
  · simp only [h hcs]
  · obtain ⟨hdisk, hdev⟩ := not_or.1 hcs
    simp only [hdisk, hdev, and_false, if_false]

/-- The path with one slash has the mount, that with more is looked up in the root. -/
theorem bootTarget_fst_ne {a b : Prop} [Decidable a] [Decidable b] {cs : List Path}
    (h : MountFirst cs) (ha : a) (hb : ¬ b) :
    bootTarget a cs = (2, cs) ∧ (bootTarget b cs).1 ≠ 2 := by
  refine ⟨?_, ?_⟩
  · rw [bootTarget, if_neg fun h => h.1 ha, if_neg fun h => h.1 ha]
  · rw [bootTarget]
    split
    · exact fun h => by cases h
    · rename_i hdisk
      rw [if_pos ⟨hb, h.resolve_left fun hcs => hdisk ⟨hb, hcs⟩⟩]
      exact fun h => by cases h

variable {ρ : Type} (disk dev : FileOps (Devices × ρ × Tmpfs)) (devices : Devices) (rest : ρ)

/-- In some state a path with two slashes in front of a mount's name has a result of its
own. -/
theorem not_sameResult {p q : Path} (hp : p.head? = some slash) (hq : q.head? = some slash)
    (hparts : parts slash p = parts slash q) (hlen : (parts slash p).length < 2 ^ 63)
    (hfirst : MountFirst (parts slash p)) (hdouble : Doubled p) (hsingle : ¬ Doubled q) :
    ∃ t, Tmpfs.Steps Tmpfs.NoWrap Tmpfs.new t ∧
      ¬ SameResult (bootVfs Tmpfs.rootOps disk dev) p q (devices, rest, t) := by
  obtain ⟨t, d, ht, hd, -⟩ := Tmpfs.exists_follows (parts slash p) (by omega)
  obtain ⟨hroot, hother⟩ := bootTarget_fst_ne hfirst hdouble hsingle
  have htp := target_boot (Tmpfs.rootOps (ρ := ρ)) disk dev hp
  have htq := target_boot (Tmpfs.rootOps (ρ := ρ)) disk dev hq
  rw [hroot] at htp
  rw [← hparts] at htq
  refine ⟨t, ht, fun hsame => ?_⟩
  have hfound : (bootVfs Tmpfs.rootOps disk dev).Resolves p (devices, rest, t) (2, d) :=
    (resolves_iff htp rfl).2 ⟨rfl, Tmpfs.walk_ok_iff.2 hd⟩
  exact hother (Resolves.fst_eq htq ((hsame _).1 hfound)).symm

/-- Two absolute paths with the same components have one result in every state, unless the
first component is `disk` or `dev` and just one of them starts with two slashes. -/
theorem sameResult_iff {p q : Path} (hp : p.head? = some slash) (hq : q.head? = some slash)
    (hparts : parts slash p = parts slash q) (hlen : p.length < 2 ^ 63) :
    (∀ t, Tmpfs.Steps Tmpfs.NoWrap Tmpfs.new t →
        SameResult (bootVfs Tmpfs.rootOps disk dev) p q (devices, rest, t)) ↔
      (MountFirst (parts slash p) → (Doubled p ↔ Doubled q)) := by
  have hcount := (length_parts_le slash p).trans_lt hlen
  constructor
  · intro h hfirst
    constructor
    · intro hdouble
      by_contra hsingle
      obtain ⟨t, ht, hno⟩ := not_sameResult disk dev devices rest hp hq hparts hcount hfirst
        hdouble hsingle
      exact hno (h t ht)
    · intro hdouble
      by_contra hsingle
      obtain ⟨t, ht, hno⟩ := not_sameResult disk dev devices rest hq hp hparts.symm
        (hparts ▸ hcount) (hparts ▸ hfirst) hdouble hsingle
      exact hno fun r => (h t ht r).symm
  · intro h t _ r
    rw [Resolves, Resolves, resolve_eq, resolve_eq, target_boot _ _ _ hp, target_boot _ _ _ hq,
      ← hparts, bootTarget_congr h]

/-! ## The filesystems of the boot -/

/-- The disk under the devices. -/
def diskOf (totalSectors : Nat) : DiskIn (Fat32 × Tmpfs) where
  get s := s.1.disk
  put d s := ({ s.1 with disk := d }, s.2)
  totalSectors _ := totalSectors

/-- The mount table of the boot with its filesystems. -/
def bootTable (upper : List UInt8 → List UInt8) (totalSectors : Nat) :
    Vfs (Devices × Fat32 × Tmpfs) :=
  bootVfs Tmpfs.rootOps (besideOps (fileOps upper)).onRest (Devfs.ops (diskOf totalSectors))

/-- The state after the boot, with a disk that holds an empty volume. -/
def bootState : Devices × Fat32 × Tmpfs := (⟨none, .new, ⟨0, 0, 0⟩⟩, Fat32.emptyMount, Tmpfs.new)

/-- `//disk` and `///disk/`. -/
theorem sameResult_iff_slashes : SameResult (bootTable id 64) (slash :: diskPoint)
    (slash :: slash :: diskPoint ++ [slash]) bootState :=
  (sameResult_iff _ _ _ _ rfl rfl (by decide) (by decide)).2
    (fun _ => ⟨fun _ => by decide, fun _ => by decide⟩) _ (Reaches.refl _)

/-- `/disk` is the root of the disk, and `//disk` is looked up in memory. -/
theorem not_sameResult_disk :
    parts slash diskPoint = parts slash (slash :: diskPoint) ∧
      ¬ SameResult (bootTable id 64) diskPoint (slash :: diskPoint) bootState := by
  refine ⟨by decide, fun h => ?_⟩
  have hdisk : (bootTable id 64).Resolves diskPoint bootState (0, 1) := rfl
  have hmount : 0 = (bootTarget (Doubled (slash :: diskPoint)) [diskName]).1 :=
    Resolves.fst_eq (target_boot _ _ _ rfl) ((h _).1 hdisk)
  exact absurd hmount (by decide)

end Vfs

end AeroOS.Fs
