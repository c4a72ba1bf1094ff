import AeroOS.Fs.Tmpfs
import Mathlib.Data.List.GetD

/-!
# Files in memory as byte arrays

* `overlay`, `cutTo` and `slice` are the operations on an array of bytes, each said
  byte by byte, and `onArrays` is what a call does to arrays under numbers.
* `perform_refines` is one call on the in-memory filesystem.
* `contents_of_answers` is the result for any sequence of calls: the answers are
  those of the arrays, and names and the other inodes stay as they were.
-/

namespace AeroOS.Fs

open Bytes Run

/-! ## Byte arrays -/

/-- The `n` bytes that `f` gives. -/
def tabulate (n : Nat) (f : Nat → UInt8) : List UInt8 := (List.range n).map f

/-- The array with `buf` over it from `offset` up.  A gap before `offset` is zero. -/
def overlay (old : List UInt8) (offset : Nat) (buf : List UInt8) : List UInt8 :=
  tabulate (max old.length (offset + buf.length)) fun k =>
    if offset ≤ k ∧ k < offset + buf.length then buf.getD (k - offset) 0 else old.getD k 0

/-- The array at another length.  What is new is zero. -/
def cutTo (old : List UInt8) (n : Nat) : List UInt8 := tabulate n fun k => old.getD k 0

/-- The bytes from `offset` up, `len` of them or what there is. -/
def slice (old : List UInt8) (offset len : Nat) : List UInt8 :=
  tabulate (min len (old.length - offset)) fun k => old.getD (offset + k) 0

/-- A call on the data of an inode.  Offsets and sizes are words, and a range of bytes does
not go past the last word. -/
inductive DataOp where
  | write (id offset : Nat) (buf : List UInt8) (fits : offset + buf.length < 2 ^ 64)
  | truncate (id size : Nat) (fits : size < 2 ^ 64)
  | read (id offset : Nat) (buf : List UInt8) (fits : offset + buf.length < 2 ^ 64)

/-- The inode that the call is for. -/
def DataOp.id : DataOp → Nat
  | write id _ _ _ => id
  | truncate id _ _ => id
  | read id _ _ _ => id

/-- What a call answers: a count, with the buffer of a read. -/
inductive Answer where
  | wrote (n : Nat)
  | truncated
  | got (n : Nat) (buf : List UInt8)
  | failed

/-- The call on arrays of bytes.  Of the buffer that a read was given it fills the first
bytes. -/
def onArrays (files : Nat → Option (List UInt8)) (op : DataOp) :
    Answer × (Nat → Option (List UInt8)) :=
  match files op.id with
  | none => (.failed, files)
  | some old =>
    match op with
    | .write id offset buf _ =>
      (.wrote buf.length, Function.update files id (some (overlay old offset buf)))
    | .truncate id size _ => (.truncated, Function.update files id (some (cutTo old size)))
    | .read _ offset buf _ =>
      let bytes := slice old offset buf.length
      (.got bytes.length (bytes ++ buf.drop bytes.length), files)

/-! ## Lists and arrays -/

@[simp] theorem tabulate_length (n : Nat) (f : Nat → UInt8) : (tabulate n f).length = n := by
  rw [tabulate, List.length_map, List.length_range]

theorem eq_tabulate {l : List UInt8} {n : Nat} {f : Nat → UInt8} (hlen : l.length = n)
    (h : ∀ k < n, l.getD k 0 = f k) : l = tabulate n f := by
  refine List.ext_getElem (by rw [hlen, tabulate_length]) fun k hk _ => ?_
  have hbyte := h k (hlen ▸ hk)
  rw [List.getD_eq_getElem _ _ hk] at hbyte
  simp only [tabulate, List.getElem_map, List.getElem_range]
  exact hbyte

theorem resize_length (data : List UInt8) (n : Nat) : (Tmpfs.resize data n).length = n := by
  rw [Tmpfs.resize, List.length_append, List.length_take, List.length_replicate]
  omega

theorem resize_getD (data : List UInt8) {n k : Nat} (hk : k < n) :
    (Tmpfs.resize data n).getD k 0 = data.getD k 0 := by
  rw [Tmpfs.resize]
  rcases Nat.lt_or_ge k data.length with hlt | hge
  · rw [List.getD_append _ _ _ _ (by rw [List.length_take]; omega), List.getD_eq_getElem?_getD,
      List.getElem?_take_of_lt hk, ← List.getD_eq_getElem?_getD]
  · rw [List.getD_append_right _ _ _ _ (by rw [List.length_take]; omega),
      List.getD_eq_default _ _ hge, List.length_take, List.getD_replicate _ (by omega)]

/-- `Vec::resize` cuts or extends the array. -/
theorem resize_eq (data : List UInt8) (n : Nat) : Tmpfs.resize data n = cutTo data n :=
  eq_tabulate (resize_length data n) fun _ hk => resize_getD data hk

/-- Growing the data to the end of the range and copying into it lays the buffer over it. -/
theorem patch_resize_eq (data : List UInt8) (offset : Nat) (buf : List UInt8) :
    patch (if data.length < offset + buf.length then Tmpfs.resize data (offset + buf.length)
      else data) offset buf = overlay data offset buf := by
  set base := if data.length < offset + buf.length then
    Tmpfs.resize data (offset + buf.length) else data with hbase
  have hlen : base.length = max data.length (offset + buf.length) := by
    rw [hbase]
    split
    · rw [resize_length]
      omega
    · omega
  have hbyte : ∀ k < max data.length (offset + buf.length), base.getD k 0 = data.getD k 0 := by
    intro k hk
    rw [hbase]
    split
    · exact resize_getD data (by omega)
    · rfl
  have hfit : offset + buf.length ≤ base.length := by omega
  refine eq_tabulate ((patch_length hfit).trans hlen) fun k hk => ?_
  split
  · rename_i hin
    obtain ⟨j, rfl⟩ := Nat.exists_eq_add_of_le hin.1
    rw [patch_getD_in (by omega) (by omega), Nat.add_sub_cancel_left]
  · rename_i hout
    rw [patch_getD_out hfit (by omega), hbyte k hk]

/-- What is copied out of the data is the slice. -/
theorem drop_take_eq (data : List UInt8) (offset len : Nat) :
    (data.take (min (offset + len) data.length)).drop offset = slice data offset len := by
  refine eq_tabulate ?_ fun k hk => ?_
  · rw [List.length_drop, List.length_take]
    omega
  · rw [List.getD_eq_getElem?_getD, List.getElem?_drop, List.getElem?_take_of_lt (by omega),
      ← List.getD_eq_getElem?_getD]

theorem slice_eq_take (data : List UInt8) (offset len : Nat) :
    slice data offset len = (data.drop offset).take (slice data offset len).length := by
  rw [← drop_take_eq, List.drop_take, List.length_take, List.take_eq_take_min]

theorem slice_nil {data : List UInt8} {offset : Nat} (h : data.length ≤ offset) (len : Nat) :
    slice data offset len = [] := by
  rw [← List.length_eq_zero_iff, slice, tabulate_length]
  omega

/-! ## Calls on the in-memory filesystem -/

namespace Tmpfs

/-- The bytes of each regular file. -/
def contents (s : Tmpfs) (id : Nat) : Option (List UInt8) :=
  (s.inodes[id]?).bind fun i => if i.fileType = .regular then some i.data else none

/-- A call with its answer. -/
def perform (s : Tmpfs) : DataOp → Answer × Tmpfs
  | .write id offset buf _ =>
    match s.write id offset buf with
    | (.ok n, s) => (.wrote n, s)
    | (.error _, s) => (.failed, s)
  | .truncate id size _ =>
    match s.truncate id size with
    | (.ok (), s) => (.truncated, s)
    | (.error _, s) => (.failed, s)
  | .read id offset buf _ =>
    match s.read id offset buf with
    | .ok (n, buf) => (.got n buf, s)
    | .error _ => (.failed, s)

theorem contents_of_regular {s : Tmpfs} {id : Nat} {i : TmpfsInode} (hi : s.inodes[id]? = some i)
    (hk : i.fileType = .regular) : s.contents id = some i.data := by
  rw [contents, hi, Option.bind_some, if_pos hk]

section regular

variable {s : Tmpfs} {id : Nat} {i : TmpfsInode} (hi : s.inodes[id]? = some i)
  (hk : i.fileType = .regular)

include hi hk

/-- The contents of one file are replaced, the others stay. -/
theorem contents_setData (f : List UInt8 → List UInt8) :
    (s.setData id f).contents = Function.update s.contents id (some (f i.data)) := by
  funext x
  by_cases hx : x = id
  · subst hx
    have hset : (s.setData x f).inodes[x]? = some { i with data := f i.data } := by
      rw [setData_getElem?, hi, Option.map_some, if_pos rfl]
    rw [Function.update_self, contents_of_regular hset hk]
  · rw [Function.update_of_ne hx, contents, contents, setData_getElem?]
    cases s.inodes[x]? with
    | none => rfl
    | some j => rw [Option.map_some, if_neg hx]

theorem write_regular (offset : Nat) (buf : List UInt8) : s.write id offset buf =
    (.ok buf.length, s.setData id fun data => overlay data offset buf) := by
  simp only [write, hi]
  rw [if_neg (not_not.2 hk)]
  simp only [patch_resize_eq]

theorem truncate_regular (size : Nat) : s.truncate id size =
    (.ok (), s.setData id fun data => cutTo data size) := by
  simp only [truncate, hi]
  rw [if_neg (not_not.2 hk)]
  simp only [resize_eq]

theorem read_regular (offset : Nat) (buf : List UInt8) : s.read id offset buf =
    .ok ((slice i.data offset buf.length).length, slice i.data offset buf.length ++
      buf.drop (slice i.data offset buf.length).length) := by
  simp only [read, hi]
  rw [if_neg (not_not.2 hk)]
  split
  · rename_i hend
    rw [slice_nil hend, List.length_nil, List.nil_append, List.drop_zero]
  · rw [drop_take_eq, patch, List.take_zero, List.nil_append, Nat.zero_add, slice, tabulate_length]
    congr 2
    omega

end regular

/-- A call on anything but a regular file fails. -/
theorem perform_failed {s : Tmpfs} {op : DataOp}
    (h : ∀ i, s.inodes[op.id]? = some i → i.fileType ≠ .regular) : s.perform op = (.failed, s) := by
  cases hi : s.inodes[op.id]? with
  | none =>
    cases op <;> simp only [DataOp.id] at hi <;> simp only [perform, write, truncate, read, hi]
  | some i =>
    have hk := h i hi
    cases op <;> simp only [DataOp.id] at hi <;>
      simp only [perform, write, truncate, read, hi, if_pos hk]

/-- A call answers what it answers on arrays, and does to the contents what it does to
arrays. -/
theorem perform_refines (s : Tmpfs) (op : DataOp) :
    onArrays s.contents op = ((s.perform op).1, (s.perform op).2.contents) := by
  by_cases h : ∀ i, s.inodes[op.id]? = some i → i.fileType ≠ .regular
  · have hnone : s.contents op.id = none := by
      rw [contents, Option.bind_eq_none_iff]
      exact fun i hi => if_neg (h i hi)
    rw [onArrays, hnone, perform_failed h]
  · push Not at h
    obtain ⟨i, hi, hk⟩ := h
    rw [onArrays, contents_of_regular hi hk]
    cases op with
    | write id offset buf fits =>
      replace hi : s.inodes[id]? = some i := hi
      rw [perform, write_regular hi hk]
      simp only [contents_setData hi hk]
    | truncate id size fits =>
      replace hi : s.inodes[id]? = some i := hi
      rw [perform, truncate_regular hi hk]
      simp only [contents_setData hi hk]
    | read id offset buf fits =>
      replace hi : s.inodes[id]? = some i := hi
      rw [perform, read_regular hi hk]

/-- A call replaces the data of one inode or nothing. -/
theorem perform_cases (s : Tmpfs) (op : DataOp) :
    (s.perform op).2 = s ∨ ∃ f, (s.perform op).2 = s.setData op.id f := by
  by_cases h : ∀ i, s.inodes[op.id]? = some i → i.fileType ≠ .regular
  · exact Or.inl (by rw [perform_failed h])
  · push Not at h
    obtain ⟨i, hi, hk⟩ := h
    cases op with
    | write id offset buf fits =>
      replace hi : s.inodes[id]? = some i := hi
      rw [perform, write_regular hi hk]
      exact Or.inr ⟨fun data => overlay data offset buf, rfl⟩
    | truncate id size fits =>
      replace hi : s.inodes[id]? = some i := hi
      rw [perform, truncate_regular hi hk]
      exact Or.inr ⟨fun data => cutTo data size, rfl⟩
    | read id offset buf fits =>
      replace hi : s.inodes[id]? = some i := hi
      rw [perform, read_regular hi hk]
      exact Or.inl rfl

/-- All names and types stay, and all inodes but some. -/
structure DataOnly (ids : List Nat) (s s' : Tmpfs) : Prop where
  names : SameNames s s'
  others : ∀ id ∉ ids, s'.inodes[id]? = s.inodes[id]?

theorem DataOnly.refl (ids : List Nat) (s : Tmpfs) : DataOnly ids s s :=
  ⟨.refl s, fun _ _ => rfl⟩

theorem DataOnly.trans {ids : List Nat} {s s' s'' : Tmpfs} (h : DataOnly ids s s')
    (h' : DataOnly ids s' s'') : DataOnly ids s s'' where
  names :=
    ⟨h'.names.child.trans h.names.child, h'.names.mem.trans h.names.mem,
      fun id => (h'.names.fileType id).trans (h.names.fileType id),
      h'.names.nextInode.trans h.names.nextInode⟩
  others id hid := (h'.others id hid).trans (h.others id hid)

theorem perform_dataOnly {ids : List Nat} (s : Tmpfs) {op : DataOp} (hop : op.id ∈ ids) :
    DataOnly ids s (s.perform op).2 := by
  rcases s.perform_cases op with heq | ⟨f, heq⟩
  · rw [heq]
    exact DataOnly.refl ids s
  · rw [heq]
    refine ⟨setData_sameNames s _ f, fun id hid => ?_⟩
    rw [setData_getElem?]
    cases s.inodes[id]? with
    | none => rfl
    | some i =>
      rw [Option.map_some, if_neg]
      rintro rfl
      exact hid hop

/-- Any sequence of calls answers as on arrays of bytes, and leaves the contents that the arrays
have.  Names, directories and the inodes that no call is for stay as they were. -/
theorem contents_of_answers (s : Tmpfs) (ops : List DataOp) :
    answers onArrays s.contents ops =
        ((answers perform s ops).1, (answers perform s ops).2.contents) ∧
      DataOnly (ops.map DataOp.id) s (answers perform s ops).2 :=
  ⟨answers_refines perform_refines s ops,
    answers_keeps (DataOnly.refl _) DataOnly.trans
      (fun s _ hop => perform_dataOnly s (List.mem_map_of_mem hop)) s⟩

end Tmpfs

end AeroOS.Fs
