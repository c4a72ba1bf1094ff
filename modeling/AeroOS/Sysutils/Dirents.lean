import AeroOS.Fs.WholeFiles
import AeroOS.Sysutils.Calls
import AeroOS.Syscalls.MakeDir
import Mathlib.Data.List.TakeWhile

/-!
# Directory records

`sys_getdents` stores a record of 72 bytes for each entry, and leaves what lies between the name
and its end alone.  `ls` reads the records back.

* `record` is what `ls` takes from one record, and `records` what its loop takes from a buffer.
* `afterStores_out` is the frame rule for the stores of a call.
* `record_direntStores`: one record read back; `records_afterStores`: all of them, by induction
  over the entries.
* `getdents_round_trip` puts it together for `sys_getdents`.
-/

namespace AeroOS.Sysutils.Ls

open Bytes Fs
open AeroOS.Syscalls
open Wm (afterStores)

/-! ## Reading records -/

def DENT_ENTRY_SIZE : Nat := 72

/-- The loop that looks for the terminator in the 64 bytes of a name, from `len` on. -/
def nameLenLoop (name : List UInt8) : Nat → Nat → Nat
  | 0, len => len
  | fuel + 1, len =>
    if len < 64 ∧ name.getD len 0 ≠ 0 then nameLenLoop name fuel (len + 1) else len

/-- The length of a name. -/
def nameLen (name : List UInt8) : Nat := nameLenLoop name 64 0

/-- The type and the name in the record at `p`. -/
def record (mem : Store) (p : Nat) : UInt8 × List UInt8 :=
  let name := readBytes mem (p + 1) 64
  (mem p, name.take (nameLen name))

/-- The records that the loop of `ls` finds in the first `n` bytes of the buffer. -/
def records (mem : Store) (buf n i : Nat) : List (UInt8 × List UInt8) :=
  if i + DENT_ENTRY_SIZE ≤ n then
    record mem (buf + i) :: records mem buf n (i + DENT_ENTRY_SIZE)
  else []
termination_by n - i
decreasing_by
  unfold DENT_ENTRY_SIZE at *
  omega

/-- The bytes before the first zero. -/
def beforeNul (name : List UInt8) : List UInt8 := name.takeWhile (· != 0)

theorem nameLenLoop_eq {name : List UInt8} (hname : name.length = 64) {fuel len : Nat}
    (hfuel : len + fuel = 64) :
    nameLenLoop name fuel len = len + (beforeNul (name.drop len)).length := by
  induction fuel generalizing len with
  | zero =>
    rw [nameLenLoop, List.drop_eq_nil_of_le (by omega)]
    rfl
  | succ fuel ih =>
    have hlt : len < name.length := by omega
    rw [nameLenLoop, List.drop_eq_getElem_cons hlt, List.getD_eq_getElem _ _ hlt, beforeNul,
      List.takeWhile_cons]
    by_cases hzero : name[len] = 0
    · rw [if_neg (fun h => h.2 hzero), if_neg (by simpa using hzero)]
      rfl
    · rw [if_pos ⟨by omega, hzero⟩, if_pos (by simpa using hzero), ih (by omega), List.length_cons,
        beforeNul]
      omega

/-- The name in a record ends before the first zero. -/
theorem record_eq (mem : Store) (p : Nat) :
    record mem p = (mem p, beforeNul (readBytes mem (p + 1) 64)) := by
  have hlen : nameLen (readBytes mem (p + 1) 64) =
      (beforeNul (readBytes mem (p + 1) 64)).length := by
    rw [nameLen, nameLenLoop_eq (readBytes_length _ _ _) rfl, Nat.zero_add, List.drop_zero]
  have htake : (readBytes mem (p + 1) 64).take (beforeNul (readBytes mem (p + 1) 64)).length =
      beforeNul (readBytes mem (p + 1) 64) :=
    (List.prefix_iff_eq_take.1 (List.takeWhile_prefix _)).symm
  rw [record]
  simp only [hlen, htake]

theorem record_congr {mem mem' : Store} {p : Nat} (h : ∀ k < 65, mem (p + k) = mem' (p + k)) :
    record mem p = record mem' p := by
  have hname : readBytes mem (p + 1) 64 = readBytes mem' (p + 1) 64 := by
    refine readBytes_congr fun k hk hlt => ?_
    obtain ⟨j, rfl⟩ := Nat.exists_eq_add_of_le hk
    rw [Nat.add_assoc]
    exact h (1 + j) (by omega)
  rw [record_eq, record_eq, hname]
  exact congrArg (·, _) (h 0 (by decide))

/-! ## Stores -/

theorem afterStores_append (mem : Store) (a b : List (Nat × List UInt8)) :
    afterStores mem (a ++ b) = afterStores (afterStores mem a) b := List.foldl_append

/-- The stores lie in the `n` bytes at `p`. -/
def StoresWithin (p n : Nat) (stores : List (Nat × List UInt8)) : Prop :=
  ∀ s ∈ stores, p ≤ s.1 ∧ s.1 + s.2.length ≤ p + n

/-- What lies outside the stores is kept. -/
theorem afterStores_out {p n : Nat} {stores : List (Nat × List UInt8)}
    (h : StoresWithin p n stores) (mem : Store) {a : Nat} (ha : a < p ∨ p + n ≤ a) :
    afterStores mem stores a = mem a := by
  induction stores generalizing mem with
  | nil => rfl
  | cons s stores ih =>
    have hs := h s List.mem_cons_self
    have hrest := ih (fun t ht => h t (List.mem_cons_of_mem _ ht)) (writeBytes mem s.1 s.2)
    have hfirst : writeBytes mem s.1 s.2 a = mem a := writeBytes_out _ (by omega)
    exact hrest.trans hfirst

/-- What `getdents` stores for the entries, from record `k` on. -/
def direntsStores (buf k : Nat) (entries : List DirEntry) : List (Nat × List UInt8) :=
  ((entries.zipIdx k).map fun e => direntStores (buf + 72 * e.2) e.1).flatten

theorem direntsStores_cons (buf k : Nat) (e : DirEntry) (entries : List DirEntry) :
    direntsStores buf k (e :: entries) =
      direntStores (buf + 72 * k) e ++ direntsStores buf (k + 1) entries := rfl

theorem direntStores_within (p : Nat) (e : DirEntry) : StoresWithin p 72 (direntStores p e) := by
  intro s hs
  rw [direntStores, List.mem_cons, List.mem_singleton] at hs
  rcases hs with rfl | rfl
  · simp only [List.length_append, List.length_cons, List.length_take, List.length_nil]
    omega
  · simp only [List.length_replicate]
    omega

theorem direntsStores_within (buf k : Nat) (entries : List DirEntry) :
    StoresWithin (buf + 72 * k) (72 * entries.length) (direntsStores buf k entries) := by
  induction entries generalizing k with
  | nil => exact fun s hs => absurd hs List.not_mem_nil
  | cons e entries ih =>
    intro s hs
    rw [direntsStores_cons, List.mem_append] at hs
    rw [List.length_cons]
    rcases hs with hs | hs
    · have := direntStores_within (buf + 72 * k) e s hs
      omega
    · have := ih (k + 1) s hs
      omega

/-! ## Reading back -/

/-- What `ls` finds for an entry: of the name 63 bytes at most, and those before a zero. -/
def shown (e : DirEntry) : UInt8 × List UInt8 :=
  (typeByte e.fileType, beforeNul (e.name.take 63))

theorem beforeNul_eq_self_iff {name : List UInt8} : beforeNul name = name ↔ (0 : UInt8) ∉ name := by
  rw [beforeNul, List.takeWhile_eq_self_iff]
  constructor
  · intro h h0
    exact absurd (h 0 h0) (by decide)
  · intro h b hb
    rw [bne_iff_ne]
    rintro rfl
    exact h hb

/-- A terminated name, whatever comes behind it. -/
theorem beforeNul_terminated (name rest : List UInt8) :
    beforeNul (name ++ 0 :: rest) = beforeNul name := by
  rw [beforeNul, beforeNul, List.takeWhile_append]
  split
  · rename_i hall
    rw [List.takeWhile_cons_of_neg (by decide), List.append_nil]
    exact ((List.takeWhile_prefix _).eq_of_length hall).symm
  · rfl

/-- One record, over any bytes. -/
theorem record_direntStores (mem : Store) (p : Nat) (e : DirEntry) :
    record (afterStores mem (direntStores p e)) p = shown e := by
  have hlen : (e.name.take 63).length ≤ 63 := by
    rw [List.length_take]
    omega
  set name := e.name.take 63 with hname
  have hmem : afterStores mem (direntStores p e) = writeBytes (writeBytes (writeBytes mem p
      [typeByte e.fileType]) (p + 1) (name ++ [0])) (p + 65) (List.replicate 7 0) := by
    have hsplit := writeBytes_append mem p [typeByte e.fileType] (name ++ [0])
    exact congrArg (writeBytes · (p + 65) (List.replicate 7 0)) hsplit.symm
  have htype : afterStores mem (direntStores p e) p = typeByte e.fileType := by
    rw [hmem, writeBytes_out _ (by omega), writeBytes_out _ (by omega)]
    exact writeBytes_in mem p (show 0 < [typeByte e.fileType].length from Nat.one_pos) 0
  have hbytes : readBytes (afterStores mem (direntStores p e)) (p + 1) (name ++ [0]).length =
      name ++ [0] := by
    rw [hmem, readBytes_writeBytes_disjoint _ (by simp; omega), readBytes_writeBytes]
  have hrest : 64 = (name ++ [0]).length + (63 - name.length) := by
    rw [List.length_append, List.length_singleton]
    omega
  rw [record_eq, shown, ← hname, htype, hrest, readBytes_add, hbytes, List.append_assoc]
  exact congrArg (Prod.mk _) (beforeNul_terminated name _)

/-- The loop of `ls` over the records of the entries from record `k` on. -/
theorem records_afterStores (buf k : Nat) (entries : List DirEntry) (mem : Store) :
    records (afterStores mem (direntsStores buf k entries)) buf (72 * (k + entries.length))
      (72 * k) = entries.map shown := by
  induction entries generalizing k mem with
  | nil =>
    rw [records, if_neg (by unfold DENT_ENTRY_SIZE; rw [List.length_nil]; omega)]
    rfl
  | cons e entries ih =>
    have hlater := direntsStores_within buf (k + 1) entries
    have hrecord : record (afterStores mem (direntsStores buf k (e :: entries))) (buf + 72 * k) =
        shown e := by
      rw [← record_direntStores mem (buf + 72 * k) e, direntsStores_cons, afterStores_append]
      exact record_congr fun j hj => afterStores_out hlater _ (by omega)
    have hrecords := ih (k + 1) (afterStores mem (direntStores (buf + 72 * k) e))
    rw [← afterStores_append, ← direntsStores_cons] at hrecords
    rw [records, if_pos (by unfold DENT_ENTRY_SIZE; rw [List.length_cons]; omega), hrecord,
      List.map_cons, ← hrecords, List.length_cons]
    congr 2
    omega

/-! ## `sys_getdents` -/

section call

variable {τ : Type} {v : Vfs (Devices × τ)} {env : Env} {m : Machine τ} {ptr : Nat} {path : Path}
  {entries : List DirEntry} {st : Devices × τ}

/-- `getdents` of a directory. -/
theorem sysGetdents_eq (hpath : readPath env.mem ptr = .ok path)
    (hdir : v.readdir path m.fsState = (.ok entries, st)) {buf : Nat} (hbuf : buf ≠ 0)
    (count : Nat) :
    sysGetdents v env m ptr buf count =
      (⟨some (asI64 (72 * min entries.length (count / 72))),
        direntsStores buf 0 (entries.take (count / 72))⟩, m.setFsState st) := by
  rw [sysGetdents, hpath]
  simp only
  rw [if_neg hbuf, hdir]
  simp only [List.length_take, Nat.min_comm]
  rfl

/-- `getdents` keeps to the records of the first entries that the buffer has room for, and the
loop of `ls` finds their types and names in it, whatever was in the buffer. -/
theorem getdents_round_trip (hpath : readPath env.mem ptr = .ok path)
    (hdir : v.readdir path m.fsState = (.ok entries, st)) {buf : Nat} (hbuf : buf ≠ 0)
    (count : UInt64) (hnul : ∀ e ∈ entries, (0 : UInt8) ∉ e.name) :
    let r := (sysGetdents v env m ptr buf count.toNat).1
    let k := min entries.length (count.toNat / 72)
    ∃ ret, r.ret = some ret ∧ asUsize ret = 72 * k ∧ StoresWithin buf (72 * k) r.stores ∧
      (∀ a, a < buf ∨ buf + 72 * k ≤ a → afterStores env.mem r.stores a = env.mem a) ∧
      records (afterStores env.mem r.stores) buf (asUsize ret) 0 =
        (entries.take k).map fun e => (typeByte e.fileType, e.name.take 63) := by
  intro r k
  have hr : r = ⟨some (asI64 (72 * k)), direntsStores buf 0 (entries.take k)⟩ := by
    have htake : entries.take (count.toNat / 72) = entries.take k := by
      rw [List.take_eq_take_min, Nat.min_comm]
    rw [show r = (sysGetdents v env m ptr buf count.toNat).1 from rfl,
      sysGetdents_eq hpath hdir hbuf, htake]
  have hcount := count.toNat_lt
  have hlen : (entries.take k).length = k := by
    rw [List.length_take]
    exact Nat.min_eq_left (Nat.min_le_left _ _)
  have hret : asUsize (asI64 (72 * k)) = 72 * k := asUsize_asI64 (by omega)
  have hwithin : StoresWithin buf (72 * k) r.stores := by
    have h := direntsStores_within buf 0 (entries.take k)
    rw [hlen] at h
    rw [hr]
    exact h
  refine ⟨asI64 (72 * k), by rw [hr], hret, hwithin, fun a ha => afterStores_out hwithin _ ha, ?_⟩
  have hrecords := records_afterStores buf 0 (entries.take k) env.mem
  rw [hlen, Nat.zero_add] at hrecords
  rw [hret, hr]
  refine hrecords.trans (List.map_congr_left fun e he => ?_)
  have hname : beforeNul (e.name.take 63) = e.name.take 63 := beforeNul_eq_self_iff.2 fun h0 =>
    hnul e (List.mem_of_mem_take he) (List.mem_of_mem_take h0)
  rw [shown, hname]

/-- The root directory with one file, into a buffer that is not empty. -/
theorem getdents_round_trip_root :
    records (afterStores (pathEnv [slash]).mem (sysGetdents Tmpfs.rootOnly (pathEnv [slash])
      (bootMachine ((), Tmpfs.oneFile [])) 1 0x2000 100).1.stores) 0x2000 72 0 =
        [(1, Tmpfs.fileName)] := by
  have hpath : readPath (pathEnv [slash]).mem 1 = .ok [slash] := rfl
  have hdir : Tmpfs.rootOnly.readdir [slash] (bootMachine ((), Tmpfs.oneFile [])).fsState =
      (.ok [⟨Tmpfs.fileName, 2, .regular⟩], (bootMachine ((), Tmpfs.oneFile [])).fsState) := rfl
  obtain ⟨ret, -, hret, -, -, h⟩ :=
    getdents_round_trip hpath hdir (show 0x2000 ≠ 0 by decide) 100 (by decide)
  rw [hret] at h
  exact h

end call

end AeroOS.Sysutils.Ls
