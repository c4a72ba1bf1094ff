import AeroOS.Lib.Cells

/-!
# File descriptor tables

`syscalls/fd.rs`.  Each process owns a table of `MAX_FDS` entries; the first
three are the standard streams.
-/

namespace AeroOS.Syscalls

open AeroOS.Cells

/-- Maximum number of open FDs in a table (`fd.rs`). -/
def MAX_FDS : Nat := 128

/-- Type of a file descriptor entry. -/
inductive FdKind where
  | stream
  | file (sector offset size : Nat)
  | vfsFile (mountIdx inodeId offset : Nat)
  | framebuffer
  | free
  deriving DecidableEq, Repr

/-- A descriptor table. -/
structure FdTable where
  entries : Fin MAX_FDS → FdKind

namespace FdTable

/-- Only the standard streams are open. -/
def new : FdTable where
  entries i := if i.val < 3 then .stream else .free

/-- The first free entry from 3 on, and the table with `kind` in it. -/
def alloc (t : FdTable) (kind : FdKind) : Option (Nat × FdTable) :=
  let first := (List.finRange MAX_FDS).find? fun i => 3 ≤ i.val ∧ t.entries i = .free
  first.map fun i => (i.val, { entries := Function.update t.entries i kind })

/-- The entry of an open descriptor. -/
def get (t : FdTable) (fd : Nat) : Option FdKind :=
  if h : fd < MAX_FDS then
    if t.entries ⟨fd, h⟩ ≠ .free then some (t.entries ⟨fd, h⟩) else none
  else none

/-- Close an open descriptor that is not a standard stream. -/
def close (t : FdTable) (fd : Nat) : Bool × FdTable :=
  if h : 3 ≤ fd ∧ fd < MAX_FDS then
    if t.entries ⟨fd, h.2⟩ ≠ .free then
      (true, { entries := Function.update t.entries ⟨fd, h.2⟩ .free })
    else (false, t)
  else (false, t)

/-- Close all non-std descriptors. -/
def clear (t : FdTable) : FdTable where
  entries i := if 3 ≤ i.val then .free else t.entries i

/-- Set the offset of a VFS-backed descriptor. -/
def updateVfsOffset (t : FdTable) (fd offset : Nat) : FdTable :=
  if h : fd < MAX_FDS then
    match t.entries ⟨fd, h⟩ with
    | .vfsFile m i _ => { entries := Function.update t.entries ⟨fd, h⟩ (.vfsFile m i offset) }
    | _ => t
  else t

/-! ## Lookups after an edit -/

section lookups

variable {t t' : FdTable} {fd : Nat} {kind : FdKind}

/-- The table with another entry at `i`. -/
theorem get_update (t : FdTable) (i : Fin MAX_FDS) (kind : FdKind) (fd' : Nat) :
    FdTable.get { entries := Function.update t.entries i kind } fd' =
      if fd' = i.val then (if kind ≠ .free then some kind else none) else t.get fd' := by
  unfold get
  by_cases h : fd' < MAX_FDS
  · rw [dif_pos h, dif_pos h]
    by_cases hi : fd' = i.val
    · subst hi
      simp
    · have hne : (⟨fd', h⟩ : Fin MAX_FDS) ≠ i := fun heq => hi (congrArg Fin.val heq)
      simp [Function.update_of_ne hne, hi]
  · have hi : fd' ≠ i.val := fun heq => h (heq ▸ i.isLt)
    rw [dif_neg h, dif_neg h, if_neg hi]

theorem lt_of_get (h : t.get fd = some kind) : fd < MAX_FDS := by
  unfold get at h
  split at h
  · assumption
  · cases h

/-- `alloc` takes an entry that is not in use. -/
theorem alloc_get (h : t.alloc kind = some (fd, t')) (hk : kind ≠ .free) (fd' : Nat) :
    3 ≤ fd ∧ t.get fd = none ∧ t'.get fd' = if fd' = fd then some kind else t.get fd' := by
  obtain ⟨i, hi, heq⟩ := Option.map_eq_some_iff.1 h
  obtain ⟨rfl, rfl⟩ := Prod.mk.inj heq
  have hfree := List.find?_some hi
  simp only [decide_eq_true_eq] at hfree
  refine ⟨hfree.1, ?_, ?_⟩
  · rw [get, dif_pos i.isLt]
    simp [hfree.2]
  · rw [get_update, if_pos hk]

/-- `close` empties the entry when it succeeds. -/
theorem close_get (h : t.close fd = (true, t')) (fd' : Nat) :
    t'.get fd' = if fd' = fd then none else t.get fd' := by
  unfold close at h
  split at h
  · split at h
    · obtain rfl := (Prod.mk.inj h).2
      rw [get_update]
      simp
    · cases h
  · cases h

/-- The offset of a descriptor is replaced, the other entries stay. -/
theorem updateVfsOffset_get {mountIdx inodeId offset : Nat}
    (h : t.get fd = some (.vfsFile mountIdx inodeId offset)) (new fd' : Nat) :
    (t.updateVfsOffset fd new).get fd' =
      if fd' = fd then some (.vfsFile mountIdx inodeId new) else t.get fd' := by
  unfold get at h
  split at h
  · rename_i hfd
    split at h
    · have hentry := Option.some.inj h
      rw [updateVfsOffset, dif_pos hfd, hentry]
      simp only
      rw [get_update]
      simp
    · cases h
  · cases h

/-- `clear` closes descriptors only. -/
theorem clear_get (t : FdTable) (fd : Nat) : t.clear.get fd = t.get fd ∨ t.clear.get fd = none := by
  unfold get clear
  split
  · simp only
    by_cases h3 : 3 ≤ fd
    · simp [h3]
    · simp [h3]
  · exact Or.inl rfl

end lookups

end FdTable

end AeroOS.Syscalls
