import AeroOS.Fs.Contents
import AeroOS.Fs.Paths

/-!
# Whole files

`read_all` calls `read` until its buffer is full.

* `ReadsFiles` is what it relies on: a read before the end of a file returns some of
  what it was asked for.
* `readAllLoop_whole` is the loop, whose buffer starts with the bytes read so far.
* `readAll_whole` is the result for any path to a regular file, and
  `readsFiles_rootOps` says that it holds for the in-memory filesystem.
-/

namespace AeroOS.Fs

open Bytes

/-- Regular files have bytes.  A read before the end of one returns at least one byte, and no
more than the buffer or the rest of the file has; it keeps the file. -/
structure ReadsFiles {σ : Type} (ops : FileOps σ) (bytes : σ → Nat → List UInt8) : Prop where
  size : ∀ s id, ops.fileType s id = .regular → ops.size s id = (bytes s id).length
  read : ∀ s id offset buf, ops.fileType s id = .regular → offset < (bytes s id).length →
    buf ≠ [] → ∃ n out s', ops.read s id offset buf = (.ok (n, out), s') ∧ 0 < n ∧
      n ≤ min buf.length ((bytes s id).length - offset) ∧ out.length = buf.length ∧
      out.take n = ((bytes s id).drop offset).take n ∧
      ops.fileType s' id = .regular ∧ bytes s' id = bytes s id

namespace Vfs

variable {σ : Type} {v : Vfs σ} {m : Mount σ} {bytes : σ → Nat → List UInt8}

/-- The loop fills the buffer with the file.  So far it has read `total` bytes. -/
theorem readAllLoop_whole (h : ReadsFiles m.ops bytes) (file : VfsFile) (buf : List UInt8)
    (total : Nat) (s : σ) (hm : v.mounts[file.mountIdx]? = some m)
    (hk : m.ops.fileType s file.inodeId = .regular)
    (hbuf : buf.length = (bytes s file.inodeId).length) (htotal : total ≤ buf.length)
    (hoffset : file.offset = total)
    (hread : buf.take total = (bytes s file.inodeId).take total) :
    ∃ s', v.readAllLoop buf.length file buf total s = (.ok (bytes s file.inodeId), s') := by
  induction hleft : buf.length - total using Nat.strongRecOn generalizing file buf total s with
  | ind left ih =>
    rw [readAllLoop]
    by_cases hlt : total < buf.length
    · have hne : buf.drop total ≠ [] := by
        rw [ne_eq, List.drop_eq_nil_iff]
        omega
      obtain ⟨n, out, s₁, heq, hpos, hle, hout, htake, hk₁, hbytes⟩ :=
        h.read s file.inodeId total (buf.drop total) hk (by omega) hne
      rw [List.length_drop] at hle hout
      have hlen : (buf.take total ++ out).length = buf.length := by
        rw [List.length_append, List.length_take]
        omega
      have hnext : (buf.take total ++ out).take (total + n) =
          (bytes s file.inodeId).take (total + n) := by
        have htl : (buf.take total).length = total := by
          rw [List.length_take]
          omega
        rw [List.take_append, htl, Nat.add_sub_cancel_left, htake, List.take_of_length_le (by omega),
          hread, List.take_add]
      rw [dif_pos hlt, Vfs.read, hm]
      simp only [hoffset, heq]
      rw [if_neg (by omega)]
      obtain ⟨s', hs'⟩ := ih (buf.length - (total + n)) (by omega)
        { file with offset := total + n } (buf.take total ++ out) (total + n) s₁ hm hk₁
        (by rw [hlen, hbuf, hbytes]) (by omega) rfl (by rw [hnext, hbytes]) (by rw [hlen])
      rw [hlen, hbytes] at hs'
      exact ⟨s', hs'⟩
    · have hfull : total = buf.length := by omega
      rw [dif_neg hlt, hread, hfull, hbuf, List.take_length]
      exact ⟨s, rfl⟩

/-- `read_all` of a path to a regular file returns the bytes of the file, as many as its size
says. -/
theorem readAll_whole (h : ReadsFiles m.ops bytes) {path : Path} {s s₁ : σ} {i inode : Nat}
    (hres : v.resolve path s = (.ok (i, inode), s₁)) (hm : v.mounts[i]? = some m)
    (hk : m.ops.fileType s₁ inode = .regular) :
    (∃ s', v.readAll path s = (.ok (bytes s₁ inode), s')) ∧
      (bytes s₁ inode).length = m.ops.size s₁ inode := by
  have hsize := h.size s₁ inode hk
  refine ⟨?_, hsize.symm⟩
  have hopen : v.openPath path false s = (.ok ⟨inode, i, 0, .regular⟩, s₁) := by
    rw [openPath, hres]
    simp only [fileAt, hm, hk]
  have hlen : v.size ⟨inode, i, 0, .regular⟩ s₁ = (bytes s₁ inode).length := by
    rw [Vfs.size, hm]
    exact hsize
  obtain ⟨s', hs'⟩ := readAllLoop_whole h ⟨inode, i, 0, .regular⟩
    (List.replicate (bytes s₁ inode).length 0) 0 s₁ hm hk List.length_replicate (Nat.zero_le _)
    rfl rfl
  rw [List.length_replicate] at hs'
  refine ⟨s', ?_⟩
  rw [readAll, hopen]
  simp only [hlen]
  exact hs'

end Vfs

namespace Tmpfs

variable {ρ : Type}

/-- The bytes of the files in memory. -/
def rootBytes (s : Devices × ρ × Tmpfs) (id : Nat) : List UInt8 := (s.2.2.contents id).getD []

theorem rootBytes_regular {s : Devices × ρ × Tmpfs} {id : Nat}
    (hk : rootOps.fileType s id = .regular) :
    rootBytes s id = (s.2.2.inodes[id]?).elim [] (·.data) := by
  cases hi : s.2.2.inodes[id]? with
  | none =>
    rw [rootBytes, contents, hi]
    rfl
  | some i =>
    rw [rootBytes, contents_of_regular hi ((fileType_of_getElem? hi).symm.trans hk)]
    rfl

theorem readsFiles_rootOps : ReadsFiles rootOps (rootBytes (ρ := ρ)) where
  size s id hk := by
    rw [rootBytes_regular hk]
    show s.2.2.size id = _
    rw [size]
    cases s.2.2.inodes[id]? <;> rfl
  read s id offset buf hk hlt hne := by
    cases hi : s.2.2.inodes[id]? with
    | none =>
      rw [rootBytes_regular hk, hi] at hlt
      exact absurd hlt (Nat.not_lt_zero _)
    | some i =>
      have hreg : i.fileType = .regular := (fileType_of_getElem? hi).symm.trans hk
      have hbytes : rootBytes s id = i.data := by rw [rootBytes_regular hk, hi, Option.elim_some]
      rw [hbytes] at hlt ⊢
      have hpos : 0 < buf.length := List.length_pos_iff.2 hne
      have hlen : (slice i.data offset buf.length).length =
          min buf.length (i.data.length - offset) := by
        rw [slice, tabulate_length]
      have hread : rootOps.read s id offset buf = (.ok ((slice i.data offset buf.length).length,
          slice i.data offset buf.length ++ buf.drop (slice i.data offset buf.length).length), s) :=
        congrArg (·, s) (read_regular hi hreg offset buf)
      refine ⟨_, _, s, hread, by omega, hlen.le, ?_, ?_, hk, hbytes⟩
      · rw [List.length_append, List.length_drop]
        omega
      · rw [List.take_left, ← slice_eq_take]

/-- The filesystem with the file `/a`. -/
def oneFile (bytes : List UInt8) : Tmpfs :=
  (new.exec (.create rootInode fileName)).exec (.write 2 0 bytes)

theorem oneFile_data (bytes : List UInt8) :
    ∃ i, (oneFile bytes).inodes[2]? = some i ∧ i.data = bytes := by
  refine ⟨_, rfl, ?_⟩
  show patch (if 0 < 0 + bytes.length then resize [] (0 + bytes.length) else []) 0 bytes = bytes
  apply patch_all
  split
  · rw [resize_length, Nat.zero_add]
  · rw [List.length_nil]
    omega

theorem resolve_oneFile (bytes : List UInt8) (devices : Devices) :
    rootOnly.resolve (slash :: fileName) (devices, (), oneFile bytes) =
      (.ok (0, 2), devices, (), oneFile bytes) := by
  have htarget : rootOnly.target (slash :: fileName) = some (0, [fileName]) := by decide
  rw [Vfs.resolve_of_target htarget rfl]
  refine Prod.ext ?_ (walk_state _ _ _)
  have hwalk : Labelled.Follows (oneFile bytes).Enters rootInode [fileName] 2 :=
    ⟨2, ⟨rfl, _, rfl, rfl⟩, rfl⟩
  exact congrArg (Except.map fun inode => (0, inode))
    ((walk_ok_iff (s := (devices, (), oneFile bytes))).2 hwalk)

/-- The filesystem with the file `/a` of two bytes. -/
def twoBytes : Tmpfs :=
  (new.exec (.create rootInode fileName)).exec (.write 2 0 [0x41, 0x42])

theorem readAll_whole_twoBytes :
    ∃ s', rootOnly.readAll (slash :: fileName) (⟨none, .new, ⟨0, 0, 0⟩⟩, (), twoBytes) =
      (.ok [0x41, 0x42], s') := by
  have hbytes : rootBytes (ρ := Unit) (⟨none, .new, ⟨0, 0, 0⟩⟩, (), twoBytes) 2 = [0x41, 0x42] := by
    decide +kernel
  have hregular : twoBytes.fileType 2 = .regular := by decide +kernel
  rw [← hbytes]
  exact (Vfs.readAll_whole readsFiles_rootOps (resolve_oneFile _ _) rfl hregular).1

end Tmpfs

end AeroOS.Fs
