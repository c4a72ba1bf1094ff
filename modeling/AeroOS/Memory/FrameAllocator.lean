import Mathlib.Algebra.GroupWithZero.Nat
import Mathlib.Data.List.Perm.Basic
import Mathlib.Data.List.Nodup
import AeroOS.Lib.Run

/-!
# The physical frame allocator

`memory/frame_allocator.rs`: a stack of free 4 KiB frames, filled once from the
boot memory map.  The array with its `top` index is the list of the free frames,
the last one pushed first.

* `init_frames`: what `init` pushes lies in the usable regions, and no frame is
  pushed twice.
* `Frames` is the allocator with the frames that are handed out.  In every run
  the free and the allocated frames together are the frames that `init` pushed
  (`perm_of_run`); the results of a run follow from it.
-/

namespace AeroOS.Memory

open AeroOS.Run

/-- Maximum number of physical frames that are tracked. -/
def MAX_FRAMES : Nat := 32768

/-- Size of a frame. -/
def FRAME_SIZE : Nat := 4096

/-- A region of the boot memory map. -/
structure MemoryRegion where
  start : Nat
  finish : Nat
  usable : Bool
  deriving DecidableEq, Repr

/-- The allocator: the free frames, the top of the stack first. -/
structure FrameAllocator where
  freeStack : List Nat
  deriving DecidableEq, Repr

namespace FrameAllocator

/-- The allocator before `init`. -/
def new : FrameAllocator := ⟨[]⟩

/-- Align up to 4 KiB, on `u64`. -/
def alignUp (addr : Nat) : Nat := (addr + 4095) % 2 ^ 64 / 4096 * 4096

/-- The inner loop of `init`: push frames from `addr` on, at most `room` of
them. -/
def pushFrames : (room : Nat) → (addr finish : Nat) → List Nat → List Nat
  | 0, _, _, stack => stack
  | room + 1, addr, finish, stack =>
    if (addr + FRAME_SIZE) % 2 ^ 64 ≤ finish then
      pushFrames room (addr + FRAME_SIZE) finish (addr :: stack)
    else stack

/-- One region of the outer loop of `init`.  When the cap is reached there is no
room, and the region pushes nothing. -/
def pushRegion (stack : List Nat) (r : MemoryRegion) : List Nat :=
  if r.usable then
    pushFrames (MAX_FRAMES - stack.length) (alignUp r.start) r.finish stack
  else stack

/-- `init`, on an empty allocator. -/
def init (regions : List MemoryRegion) : FrameAllocator := ⟨regions.foldl pushRegion []⟩

/-- `allocate_frame`, without the zeroing of the frame. -/
def allocateFrame (a : FrameAllocator) : Option (Nat × FrameAllocator) :=
  match a.freeStack with
  | [] => none
  | frame :: stack => some (frame, ⟨stack⟩)

/-- `deallocate_frame`: a full stack drops the frame. -/
def deallocateFrame (a : FrameAllocator) (frame : Nat) : FrameAllocator :=
  if a.freeStack.length ≥ MAX_FRAMES then a else ⟨frame :: a.freeStack⟩

/-! ## What `init` pushes -/

/-- The frame is aligned and lies wholly in the region. -/
def InRegion (r : MemoryRegion) (frame : Nat) : Prop :=
  frame % FRAME_SIZE = 0 ∧ r.start ≤ frame ∧ frame + FRAME_SIZE ≤ r.finish

/-- The usable regions lie below `2 ^ 52`. -/
def Below (regions : List MemoryRegion) : Prop :=
  ∀ r ∈ regions, r.usable = true → r.start ≤ 2 ^ 52 ∧ r.finish ≤ 2 ^ 52

/-- Two usable regions have no address in common. -/
def Apart (r s : MemoryRegion) : Prop :=
  r.usable = true → s.usable = true →
    ∀ addr, r.start ≤ addr → addr < r.finish → s.start ≤ addr → ¬ addr < s.finish

theorem alignUp_le {addr : Nat} (h : addr ≤ 2 ^ 52) :
    addr ≤ alignUp addr ∧ alignUp addr < 2 ^ 53 ∧ alignUp addr % FRAME_SIZE = 0 := by
  unfold alignUp FRAME_SIZE
  rw [Nat.mod_eq_of_lt (by omega)]
  refine ⟨by omega, by omega, Nat.mul_mod_left _ _⟩

/-- The frames pushed lie from `addr` up to the end of the region, are new, and
are at most `room`. -/
theorem pushFrames_spec (room : Nat) {addr finish : Nat} (stack : List Nat)
    (haddr : addr % FRAME_SIZE = 0) (hlt : addr < 2 ^ 53) (hfin : finish ≤ 2 ^ 52) :
    ∃ pushed, pushFrames room addr finish stack = pushed ++ stack ∧ pushed.length ≤ room ∧
      pushed.Nodup ∧ ∀ f ∈ pushed, f % FRAME_SIZE = 0 ∧ addr ≤ f ∧ f + FRAME_SIZE ≤ finish := by
  induction room generalizing addr stack with
  | zero => exact ⟨[], rfl, Nat.le_refl 0, List.nodup_nil, by simp⟩
  | succ room ih =>
    rw [pushFrames]
    by_cases h : (addr + FRAME_SIZE) % 2 ^ 64 ≤ finish
    · have hle : addr + FRAME_SIZE ≤ finish := by
        rwa [Nat.mod_eq_of_lt (by unfold FRAME_SIZE; omega)] at h
      obtain ⟨pushed, he, hlen, hnd, hmem⟩ := @ih (addr + FRAME_SIZE) (addr :: stack)
        (by rw [Nat.add_mod_right, haddr]) (by omega)
      refine ⟨pushed ++ [addr], ?_, ?_, ?_, ?_⟩
      · rw [if_pos h, he, List.append_assoc]
        rfl
      · simp only [List.length_append, List.length_singleton]
        omega
      · refine List.nodup_append.2 ⟨hnd, List.nodup_singleton _, fun f hf g hg heq => ?_⟩
        have := (hmem f hf).2.1
        rw [heq, List.mem_singleton.1 hg] at this
        unfold FRAME_SIZE at this
        omega
      · intro f hf
        rcases List.mem_append.1 hf with hf | hf
        · obtain ⟨h1, h2, h3⟩ := hmem f hf
          exact ⟨h1, by omega, h3⟩
        · rw [List.mem_singleton.1 hf]
          exact ⟨haddr, Nat.le_refl _, hle⟩
    · exact ⟨[], by rw [if_neg h]; rfl, Nat.zero_le _, List.nodup_nil, by simp⟩

/-- One region: the frames pushed are new frames of the region. -/
theorem pushRegion_spec (stack : List Nat) {r : MemoryRegion}
    (hb : r.usable = true → r.start ≤ 2 ^ 52 ∧ r.finish ≤ 2 ^ 52)
    (hlen : stack.length ≤ MAX_FRAMES) :
    ∃ pushed, pushRegion stack r = pushed ++ stack ∧ (pushRegion stack r).length ≤ MAX_FRAMES ∧
      pushed.Nodup ∧ ∀ f ∈ pushed, r.usable = true ∧ InRegion r f := by
  unfold pushRegion
  by_cases hu : r.usable = true
  · obtain ⟨hs, hf⟩ := hb hu
    obtain ⟨h1, h2, h3⟩ := alignUp_le hs
    obtain ⟨pushed, he, hl, hnd, hmem⟩ :=
      pushFrames_spec (MAX_FRAMES - stack.length) stack h3 h2 hf
    refine ⟨pushed, ?_, ?_, hnd, fun f hf' => ?_⟩
    · rw [if_pos hu, he]
    · rw [if_pos hu, he, List.length_append]
      omega
    · obtain ⟨ha, hlo, hhi⟩ := hmem f hf'
      exact ⟨hu, ha, Nat.le_trans h1 hlo, hhi⟩
  · exact ⟨[], by rw [if_neg hu]; rfl, by rwa [if_neg hu], List.nodup_nil, by simp⟩

/-- The frames that `init` pushes: aligned, in a usable region, pushed once, and
no more than the cap. -/
theorem init_frames {regions : List MemoryRegion} (hb : Below regions)
    (hapart : regions.Pairwise Apart) :
    (init regions).freeStack.Nodup ∧ (init regions).freeStack.length ≤ MAX_FRAMES ∧
      ∀ f ∈ (init regions).freeStack, ∃ r ∈ regions, r.usable = true ∧ InRegion r f := by
  have hgen : ∀ (done rest : List MemoryRegion) (stack : List Nat),
      done ++ rest = regions → stack.Nodup → stack.length ≤ MAX_FRAMES →
      (∀ f ∈ stack, ∃ r ∈ done, r.usable = true ∧ InRegion r f) →
      (rest.foldl pushRegion stack).Nodup ∧ (rest.foldl pushRegion stack).length ≤ MAX_FRAMES ∧
        ∀ f ∈ rest.foldl pushRegion stack, ∃ r ∈ regions, r.usable = true ∧ InRegion r f := by
    intro done rest
    induction rest generalizing done with
    | nil =>
      intro stack hsplit hnd hlen hmem
      rw [List.append_nil] at hsplit
      subst hsplit
      exact ⟨hnd, hlen, hmem⟩
    | cons r rest ih =>
      intro stack hsplit hnd hlen hmem
      have hr : r ∈ regions := by
        rw [← hsplit]
        simp
      obtain ⟨pushed, he, hlen', hnd', hmem'⟩ := pushRegion_spec stack (hb r hr) hlen
      rw [List.foldl_cons]
      refine ih (done ++ [r]) (pushRegion stack r) (by rw [← hsplit]; simp) ?_ hlen' ?_
      · -- a frame of this region is in no region before it
        rw [he]
        refine List.nodup_append.2 ⟨hnd', hnd, fun f hf g hg heq => ?_⟩
        obtain ⟨hu, hin⟩ := hmem' f hf
        obtain ⟨s, hs, hus, hins⟩ := hmem g hg
        have hpair : Apart s r := by
          rw [← hsplit] at hapart
          exact (List.pairwise_append.1 hapart).2.2 s hs r (by simp)
        subst heq
        obtain ⟨-, h1, h2⟩ := hin
        obtain ⟨-, h3, h4⟩ := hins
        unfold FRAME_SIZE at h2 h4
        exact hpair hus hu f h3 (by omega) h1 (by omega)
      · intro f hf
        rw [he] at hf
        rcases List.mem_append.1 hf with hf | hf
        · exact ⟨r, by simp, (hmem' f hf).1, (hmem' f hf).2⟩
        · obtain ⟨s, hs, h⟩ := hmem f hf
          exact ⟨s, List.mem_append_left _ hs, h⟩
  exact hgen [] regions [] rfl List.nodup_nil (Nat.zero_le _) (by simp)

end FrameAllocator

/-! ## Runs -/

/-- The allocator with the frames that are handed out. -/
structure Frames where
  allocator : FrameAllocator
  live : List Nat

/-- The two operations. -/
inductive FrameAction where
  | allocate
  | deallocate (frame : Nat)
  deriving DecidableEq, Repr

namespace Frames

open FrameAllocator

/-- The allocator after `init`. -/
def boot (regions : List MemoryRegion) : Frames := ⟨init regions, []⟩

def exec (s : Frames) : FrameAction → Frames
  | .allocate =>
    match s.allocator.allocateFrame with
    | some (frame, a) => ⟨a, frame :: s.live⟩
    | none => s
  | .deallocate frame => ⟨s.allocator.deallocateFrame frame, s.live.erase frame⟩

def Step (s : Frames) (a : FrameAction) (s' : Frames) : Prop := s' = s.exec a

/-- A frame is deallocated only while it is allocated. -/
def Owned (s : Frames) : FrameAction → Prop
  | .allocate => True
  | .deallocate frame => frame ∈ s.live

/-- Every frame, free or allocated. -/
def all (s : Frames) : List Nat := s.allocator.freeStack ++ s.live

/-- The step lemma: frames change hands only. -/
theorem exec_perm {s : Frames} {a : FrameAction} (hlen : s.all.length ≤ MAX_FRAMES)
    (hok : s.Owned a) : (s.exec a).all.Perm s.all := by
  cases a with
  | allocate =>
    cases h : s.allocator.freeStack with
    | nil => simp [exec, allocateFrame, h]
    | cons frame stack =>
      simp only [exec, allocateFrame, h, all]
      exact List.perm_middle
  | deallocate frame =>
    have hmem : frame ∈ s.live := hok
    have hroom : ¬ s.allocator.freeStack.length ≥ MAX_FRAMES := by
      have hpos : 0 < s.live.length := List.length_pos_of_mem hmem
      simp only [all, List.length_append] at hlen
      omega
    simp only [exec, deallocateFrame, if_neg hroom, all]
    exact List.perm_middle.symm.trans
      ((List.perm_cons_erase hmem).symm.append_left s.allocator.freeStack)

/-- The run lemma. -/
theorem perm_of_run {regions : List MemoryRegion} {s : Frames}
    (hlen : (init regions).freeStack.length ≤ MAX_FRAMES)
    (hrun : Reaches Step Owned (boot regions) s) : s.all.Perm (init regions).freeStack := by
  refine Reaches.invariant (I := fun s => s.all.Perm (init regions).freeStack) ?_ hrun ?_
  · rintro s a s' hi hok rfl
    exact (exec_perm (hi.length_eq ▸ hlen) hok).trans hi
  · simp [boot, all]

/-- In every run that deallocates allocated frames only: every allocated frame
is aligned and in a usable region, no frame is free twice or both free and
allocated, and the free and the allocated frames are as many as `init`
pushed. -/
theorem frames_of_run {regions : List MemoryRegion} (hb : Below regions)
    (hapart : regions.Pairwise Apart) {s : Frames}
    (hrun : Reaches Step Owned (boot regions) s) :
    (∀ f ∈ s.live, ∃ r ∈ regions, r.usable = true ∧ InRegion r f) ∧
      s.allocator.freeStack.Nodup ∧ s.live.Nodup ∧ s.live.Disjoint s.allocator.freeStack ∧
      s.allocator.freeStack.length + s.live.length = (init regions).freeStack.length := by
  obtain ⟨hnd, hlen, hmem⟩ := init_frames hb hapart
  have hperm := perm_of_run hlen hrun
  have hall : s.all.Nodup := hperm.nodup_iff.2 hnd
  obtain ⟨hfree, hlive, hne⟩ := List.nodup_append.1 hall
  refine ⟨fun f hf => ?_, hfree, hlive, fun f hl hf => hne f hf f hl rfl, ?_⟩
  · exact hmem f (hperm.subset (List.mem_append_right _ hf))
  · rw [← List.length_append]
    exact hperm.length_eq

/-- Two frames from an unaligned region; one is allocated. -/
theorem frames_of_run_allocate :
    let s := (boot [⟨0x1800, 0x4800, true⟩]).exec .allocate
    s.live = [0x3000] ∧ s.allocator.freeStack = [0x2000] ∧
      s.allocator.freeStack.length + s.live.length =
        (init [⟨0x1800, 0x4800, true⟩]).freeStack.length := by
  have hb : Below [⟨0x1800, 0x4800, true⟩] := by
    intro r hr _
    rw [List.mem_singleton.1 hr]
    decide
  have hrun : Reaches Step Owned (boot [⟨0x1800, 0x4800, true⟩])
      ((boot [⟨0x1800, 0x4800, true⟩]).exec .allocate) :=
    (Reaches.refl _).snoc (e := .allocate) trivial rfl
  exact ⟨by rfl, by rfl, (frames_of_run hb (List.pairwise_singleton _ _) hrun).2.2.2.2⟩

end Frames

end AeroOS.Memory
