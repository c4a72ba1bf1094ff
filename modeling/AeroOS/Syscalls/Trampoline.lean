import AeroOS.Lib.X86
import AeroOS.Scheduler.Calls

/-!
# The system call entry

The assembly of `syscall_trampoline.rs` and of `switch_context`, the struct
`InterruptContext` that lies over the saved words, and the kernel stack that
`sys_fork` writes for a child.

* `syscallEntry_load`: after the pushes the struct at `rdi` holds the user's
  registers, each under its own name;
* `restore_user`: the pops and `iretq` give the user the registers that the
  struct holds;
* `switchContext_child`: the switch to a child's first stack arrives at
  `syscall_trampoline_after_call` with the struct on top of the stack.
-/

namespace AeroOS.Syscalls

open X86

/-! ## The context -/

/-- `InterruptContext` (`repr(C)`). -/
@[ext]
structure InterruptContext where
  r15 : Word
  r14 : Word
  r13 : Word
  r12 : Word
  r11 : Word
  r10 : Word
  r9 : Word
  r8 : Word
  rbp : Word
  rdi : Word
  rsi : Word
  rdx : Word
  rcx : Word
  rbx : Word
  rax : Word
  rip : Word
  cs : Word
  rflags : Word
  rsp : Word
  ss : Word

namespace InterruptContext

/-- The struct at address `p`. -/
def load (m : Memory) (p : Word) : InterruptContext where
  r15 := read64 m p
  r14 := read64 m (p + 8#64)
  r13 := read64 m (p + 16#64)
  r12 := read64 m (p + 24#64)
  r11 := read64 m (p + 32#64)
  r10 := read64 m (p + 40#64)
  r9 := read64 m (p + 48#64)
  r8 := read64 m (p + 56#64)
  rbp := read64 m (p + 64#64)
  rdi := read64 m (p + 72#64)
  rsi := read64 m (p + 80#64)
  rdx := read64 m (p + 88#64)
  rcx := read64 m (p + 96#64)
  rbx := read64 m (p + 104#64)
  rax := read64 m (p + 112#64)
  rip := read64 m (p + 120#64)
  cs := read64 m (p + 128#64)
  rflags := read64 m (p + 136#64)
  rsp := read64 m (p + 144#64)
  ss := read64 m (p + 152#64)

/-- The registers that user code sees. -/
def ofState (s : State) : InterruptContext where
  r15 := s.gpr .r15
  r14 := s.gpr .r14
  r13 := s.gpr .r13
  r12 := s.gpr .r12
  r11 := s.gpr .r11
  r10 := s.gpr .r10
  r9 := s.gpr .r9
  r8 := s.gpr .r8
  rbp := s.gpr .rbp
  rdi := s.gpr .rdi
  rsi := s.gpr .rsi
  rdx := s.gpr .rdx
  rcx := s.gpr .rcx
  rbx := s.gpr .rbx
  rax := s.gpr .rax
  rip := s.rip
  cs := s.cs
  rflags := s.rflags
  rsp := s.rsp
  ss := s.ss

/-- The general registers, from low to high addresses. -/
def gprs (c : InterruptContext) : List Word :=
  [c.r15, c.r14, c.r13, c.r12, c.r11, c.r10, c.r9, c.r8, c.rbp, c.rdi, c.rsi, c.rdx, c.rcx, c.rbx,
    c.rax]

/-- The words of the interrupt frame, from low to high addresses. -/
def iretFrame (c : InterruptContext) : List Word := [c.rip, c.cs, c.rflags, c.rsp, c.ss]

/-- The struct as the twenty words in memory. -/
theorem readUp_eq_load (m : Memory) (p : Word) :
    readUp m p 20 = (load m p).gprs ++ (load m p).iretFrame := by
  simp only [readUp, BitVec.add_assoc, BitVec.reduceAdd]
  rfl

/-- Two contexts with the same words are equal. -/
theorem eq_of_words {c d : InterruptContext}
    (h : c.gprs ++ c.iretFrame = d.gprs ++ d.iretFrame) : c = d := by
  simp only [gprs, iretFrame, List.cons_append, List.nil_append, List.cons.injEq] at h
  ext <;> simp only [h]

end InterruptContext

/-! ## The assembly -/

/-- Where the linker puts the labels that the code refers to.  The gate of vector
0x80 leads to `syscall_trampoline`. -/
structure Image where
  gate : Gate
  syscallDispatch : Word
  afterCall : Word

/-- The registers in the order in which `syscall_trampoline` pushes them. -/
def savedGprs : List Gpr :=
  [.rax, .rbx, .rcx, .rdx, .rsi, .rdi, .rbp, .r8, .r9, .r10, .r11, .r12, .r13, .r14, .r15]

/-- The registers in the order in which the code after the call pops them. -/
def restoredGprs : List Gpr :=
  [.r15, .r14, .r13, .r12, .r11, .r10, .r9, .r8, .rbp, .rdi, .rsi, .rdx, .rcx, .rbx, .rax]

/-- `syscall_trampoline` up to the call. -/
def syscallTrampoline (image : Image) : List Instr :=
  savedGprs.map .push ++ [.getSp .rdi, .call image.afterCall image.syscallDispatch]

/-- `syscall_trampoline_after_call`. -/
def syscallTrampolineAfterCall : List Instr :=
  restoredGprs.map .pop ++ [.iretq]

/-- `switch_context`: `rdi` is the old stack pointer's place, `rsi` the new stack
pointer, `rdx` the new page table or 0. -/
def switchContext : List Instr :=
  [Gpr.rbp, .rbx, .r12, .r13, .r14, .r15].map .push ++
    [.storeSp .rdi, .setSp .rsi, .mov .rax .rdx, .setCr3NonZero .rax] ++
    [Gpr.r15, .r14, .r13, .r12, .rbx, .rbp].map .pop ++ [.ret]

/-- `int 0x80` in user mode, as far as the call of `syscall_dispatch`. -/
def syscallEntry (image : Image) (rsp0 : Word) (s : State) : State :=
  run (syscallTrampoline image) (interrupt image.gate rsp0 s)

/-- Code that has returned to the label after the call goes on to user mode. -/
def resume (image : Image) (s : State) : Option State :=
  if s.rip = image.afterCall then some (run syscallTrampolineAfterCall s) else none

/-! ## The dispatcher -/

/-- `syscalls::dispatch`: the number, six arguments and the context's address. -/
abbrev Dispatch := Word → Word → Word → Word → Word → Word → Word → Word → Word

/-- What `syscall_dispatch` leaves in the context at `p`. -/
def syscallDispatch (dispatch : Dispatch) (p : Word) (ctx : InterruptContext) : InterruptContext :=
  { ctx with rax := dispatch ctx.rax ctx.rdi ctx.rsi ctx.rdx ctx.r10 ctx.r8 ctx.r9 p }

/-- The compiled `syscall_dispatch`, called in state `s`, returns in state `t`: at
the return address, with the stack pointer restored, and with the context
written as the function says.  All other registers and memory are its own. -/
structure DispatchReturns (dispatch : Dispatch) (s t : State) : Prop where
  rip : t.rip = read64 s.mem s.rsp
  rsp : t.rsp = s.rsp + 8#64
  context : InterruptContext.load t.mem (s.gpr .rdi) =
    syscallDispatch dispatch (s.gpr .rdi) (InterruptContext.load s.mem (s.gpr .rdi))

/-! ## The child's stack -/

/-- The words that `sys_fork` writes, from the top of the stack down. -/
def childWords (image : Image) (ctx : InterruptContext) : List Word :=
  [ctx.ss, ctx.rsp, ctx.rflags, ctx.cs, ctx.rip] ++ { ctx with rax := 0 }.gprs.reverse ++
    [image.afterCall, 0, 0, 0, 0, 0, 0]

/-- The last part of `sys_fork`: the memory, and the child's `saved_rsp`. -/
def buildChildStack (image : Image) (top : Word) (ctx : InterruptContext) (m : Memory) :
    Memory × Word :=
  (writeDown m top (childWords image ctx), below top (childWords image ctx).length)

/-! ## Entry -/

/-- The pop order is the push order reversed. -/
theorem restoredGprs_eq : restoredGprs = savedGprs.reverse := rfl

theorem nodup_restoredGprs : restoredGprs.Nodup := by decide

/-- The struct's general registers are the registers in pop order. -/
theorem gprs_ofState (s : State) :
    (InterruptContext.ofState s).gprs = restoredGprs.map s.gpr := rfl

/-- The struct's last five words are the interrupt frame. -/
theorem iretFrame_ofState (s : State) :
    (InterruptContext.ofState s).iretFrame = (frame s).reverse := rfl

/-- The stack at the call: the interrupt frame, the registers and the return
address. -/
theorem syscallEntry_eq (image : Image) (rsp0 : Word) (s : State) :
    (syscallEntry image rsp0 s).mem =
        writeDown s.mem (rsp0 &&& ~~~15#64)
          (frame s ++ savedGprs.map s.gpr ++ [image.afterCall]) ∧
      (syscallEntry image rsp0 s).rsp = below (rsp0 &&& ~~~15#64) 21 ∧
      (syscallEntry image rsp0 s).gpr .rdi = below (rsp0 &&& ~~~15#64) 20 := by
  unfold syscallEntry syscallTrampoline
  rw [run_append, run_pushes]
  simp only [run, exec, interrupt, below_below]
  refine ⟨?_, ?_, Function.update_self _ _ _⟩
  · rw [writeDown_append, writeDown_append, List.length_append]
    rfl
  · exact below_sub _ 20

/-- At the call, the struct at `rdi` holds the user's registers. -/
theorem syscallEntry_load (image : Image) (rsp0 : Word) (s : State) :
    InterruptContext.load (syscallEntry image rsp0 s).mem ((syscallEntry image rsp0 s).gpr .rdi) =
      InterruptContext.ofState s := by
  obtain ⟨hmem, -, hrdi⟩ := syscallEntry_eq image rsp0 s
  refine InterruptContext.eq_of_words ?_
  rw [← InterruptContext.readUp_eq_load, hmem, hrdi, gprs_ofState, iretFrame_ofState,
    restoredGprs_eq, List.map_reverse, ← List.reverse_append]
  exact readUp_writeDown_append s.mem _ (by simp [frame, savedGprs])

/-! ## Return -/

/-- The pops and `iretq` give the user the registers of the struct on top of the
stack. -/
theorem restore_user (s : State) :
    InterruptContext.ofState (run syscallTrampolineAfterCall s) =
      InterruptContext.load s.mem s.rsp := by
  have hsplit : readUp s.mem s.rsp 20 =
      readUp s.mem s.rsp 15 ++ readUp s.mem (above s.rsp 15) 5 := readUp_append s.mem s.rsp 15 5
  refine InterruptContext.eq_of_words ?_
  rw [← InterruptContext.readUp_eq_load, hsplit, gprs_ofState, syscallTrampolineAfterCall,
    run_append, run_pops]
  refine congrArg₂ _ (map_assign nodup_restoredGprs (length_readUp _ _ _)) ?_
  simp only [run, exec, readUp, BitVec.add_assoc, BitVec.reduceAdd]
  rfl

/-- The store of `ctx.rax` changes that field of the struct only. -/
theorem load_write_rax (m : Memory) (p v : Word) :
    InterruptContext.load (write64 m (p + 112#64) v) p =
      { InterruptContext.load m p with rax := v } := by
  have first : read64 (write64 m (p + 112#64) v) p = read64 m p :=
    read64_write64_of_apart v ⟨by bv_omega, by bv_omega⟩
  have field (k : Word) (hk : 8 ≤ (k - 112#64).toNat ∧ 8 ≤ (112#64 - k).toNat) :
      read64 (write64 m (p + 112#64) v) (p + k) = read64 m (p + k) :=
    read64_write64_of_apart v ⟨by bv_omega, by bv_omega⟩
  simp (disch := decide) only [InterruptContext.load, first, field, read64_write64]

/-! ## The child -/

/-- The child's `saved_rsp` is the one that the scheduler's model keeps for its
slot. -/
theorem buildChildStack_rsp (image : Image) {top : Word} (ctx : InterruptContext) (m : Memory)
    (h : 216 ≤ top.toNat) :
    (buildChildStack image top ctx m).2.toNat = Scheduler.Kernel.forkRsp top.toNat := by
  have hlen : (childWords image ctx).length = 27 := rfl
  rw [buildChildStack, hlen]
  unfold below Scheduler.Kernel.forkRsp
  bv_omega

/-- The child's stack from its `saved_rsp` upwards. -/
theorem reverse_childWords (image : Image) (ctx : InterruptContext) :
    (childWords image ctx).reverse =
      [0, 0, 0, 0, 0, 0] ++ ([image.afterCall] ++
        ({ ctx with rax := 0 }.gprs ++ { ctx with rax := 0 }.iretFrame)) := by
  simp [childWords, InterruptContext.gprs, InterruptContext.iretFrame]

/-- What `switch_context` does to the memory and to the stack pointer, and where it
returns. -/
theorem switchContext_eq (s : State) :
    (run switchContext s).mem =
        write64 (writeDown s.mem s.rsp ([Gpr.rbp, .rbx, .r12, .r13, .r14, .r15].map s.gpr))
          (s.gpr .rdi) (below s.rsp 6) ∧
      (run switchContext s).rsp = above (s.gpr .rsi) 7 ∧
      (run switchContext s).rip = read64 (run switchContext s).mem (above (s.gpr .rsi) 6) := by
  unfold switchContext
  rw [run_append, run_append, run_append, run_pushes, run_pops]
  simp only [run, exec]
  exact ⟨rfl, above_add _ 6, rfl⟩

/-- The switch to a child: the bytes of the stack that `sys_fork` wrote in memory
`m` are in place, `switch_context` is given its `saved_rsp`, and neither the old
stack nor the place of the old stack pointer lies in it. -/
structure SwitchToChild (image : Image) (top : Word) (ctx : InterruptContext) (m : Memory)
    (s : State) : Prop where
  stack : ∀ x, (x - below top 27).toNat < 216 → s.mem x = (buildChildStack image top ctx m).1 x
  newRsp : s.gpr .rsi = (buildChildStack image top ctx m).2
  oldStack : Apart (below s.rsp 6) 48 (below top 27) 216
  oldRsp : Apart (s.gpr .rdi) 8 (below top 27) 216

/-- The first switch to a child arrives after the call, with the parent's
registers on top of the stack and `rax = 0`. -/
theorem switchContext_child {image : Image} {top : Word} {ctx : InterruptContext} {m : Memory}
    {s : State} (hs : SwitchToChild image top ctx m s) :
    (run switchContext s).rip = image.afterCall ∧
      InterruptContext.load (run switchContext s).mem (run switchContext s).rsp =
        { ctx with rax := 0 } := by
  obtain ⟨hmem, hrsp, hrip⟩ := switchContext_eq s
  have hrsi : s.gpr .rsi = below top 27 := hs.newRsp
  have hlen : (childWords image ctx).length = 27 := rfl
  -- the pushes on the old stack and the saved stack pointer leave the new stack alone
  have hkept : ∀ x, (x - below top 27).toNat < 8 * 27 →
      (run switchContext s).mem x = writeDown m top (childWords image ctx) x := by
    intro x hx
    rw [hmem, write64_of_outside (hs.oldRsp.outside hx), writeDown_of_outside (by simp)]
    · exact hs.stack x hx
    · exact hs.oldStack.outside hx
  have hwords : readUp (run switchContext s).mem (below top 27) 27 =
      [0, 0, 0, 0, 0, 0] ++ ([image.afterCall] ++
        ({ ctx with rax := 0 }.gprs ++ { ctx with rax := 0 }.iretFrame)) := by
    rw [readUp_congr (by decide) hkept, ← reverse_childWords, ← hlen]
    exact readUp_writeDown m top (by rw [hlen]; decide)
  obtain ⟨-, hrest⟩ := List.append_inj ((readUp_append _ _ 6 21).symm.trans hwords) rfl
  obtain ⟨hret, hctx⟩ := List.append_inj ((readUp_append _ _ 1 20).symm.trans hrest) rfl
  rw [hrip, hrsp, hrsi]
  refine ⟨List.head_eq_of_cons_eq hret, InterruptContext.eq_of_words ?_⟩
  rw [← InterruptContext.readUp_eq_load, ← hctx, above_above]

/-! ## The registers of user code -/

/-- A system call comes back to user code with every register as it was but `rax`,
which holds the dispatcher's result; and the first switch to a child of `fork`
brings the parent's registers with `rax = 0`. -/
theorem registers_kept (image : Image) (rsp0 : Word) (dispatch : Dispatch) (user : State) :
    let regs := InterruptContext.ofState user
    let entry := syscallEntry image rsp0 user
    let ctx := entry.gpr .rdi
    (∀ t, DispatchReturns dispatch entry t →
      ∃ u, resume image t = some u ∧ InterruptContext.ofState u =
        { regs with
          rax := dispatch regs.rax regs.rdi regs.rsi regs.rdx regs.r10 regs.r8 regs.r9 ctx }) ∧
    ∀ m top s, InterruptContext.load m ctx = InterruptContext.load entry.mem ctx →
      SwitchToChild image top (InterruptContext.load m ctx) m s →
      ∃ u, resume image (run switchContext s) = some u ∧
        InterruptContext.ofState u = { regs with rax := 0 } := by
  intro regs entry ctx
  have hload : InterruptContext.load entry.mem ctx = regs := syscallEntry_load image rsp0 user
  obtain ⟨hmem, hrsp, hrdi⟩ := syscallEntry_eq image rsp0 user
  refine ⟨fun t ht => ?_, fun m top s hm hs => ?_⟩
  · have hrip : t.rip = image.afterCall := by
      rw [ht.rip, hmem, hrsp, writeDown_append, ← below_sub _ 20]
      exact read64_write64 _ _ _
    have hsp : t.rsp = (syscallEntry image rsp0 user).gpr .rdi := by
      rw [ht.rsp, hrsp, hrdi, ← below_sub _ 20, BitVec.sub_add_cancel]
    refine ⟨_, if_pos hrip, ?_⟩
    rw [restore_user, hsp, ht.context, hload]
    rfl
  · obtain ⟨hrip, hctx⟩ := switchContext_child hs
    refine ⟨_, if_pos hrip, ?_⟩
    rw [restore_user, hctx, hm, hload]

/-- A call that returns 7, and a child of a call of `fork` in the same state. -/
theorem registers_kept_seven :
    let image : Image := ⟨⟨0x1000, 8⟩, 0x2000, 0x3000⟩
    let user : State :=
      { gpr := fun _ => 5, rip := 0x400000, cs := 0x1b, rflags := 0x202, rsp := 0x7000, ss := 0x23,
        cr3 := 0x9000, mem := fun _ => 0 }
    let entry := syscallEntry image 0x10000 user
    let m := write64 entry.mem (entry.gpr .rdi + 112#64) 7
    let child := buildChildStack image 0x20000 (InterruptContext.ofState user) entry.mem
    (∃ u, resume image { entry with rip := 0x3000, rsp := entry.gpr .rdi, mem := m } = some u ∧
        InterruptContext.ofState u = { InterruptContext.ofState user with rax := 7 }) ∧
      ∃ u, resume image (run switchContext
          { user with rsp := 0x40000, gpr := fun r => if r = .rsi then child.2 else 0x30000,
                      mem := child.1 }) = some u ∧
        InterruptContext.ofState u = { InterruptContext.ofState user with rax := 0 } := by
  intro image user entry m child
  obtain ⟨hmem, hrsp, hrdi⟩ := syscallEntry_eq image 0x10000 user
  obtain ⟨hcall, hfork⟩ := registers_kept image 0x10000 (fun _ _ _ _ _ _ _ _ => 7) user
  have hload := syscallEntry_load image 0x10000 user
  have hret : read64 entry.mem entry.rsp = 0x3000 := by
    rw [show entry.mem = _ from hmem, show entry.rsp = _ from hrsp, writeDown_append,
      ← below_sub _ 20]
    exact read64_write64 _ _ _
  refine ⟨hcall _ ⟨hret.symm, ?_, load_write_rax _ _ _⟩, ?_⟩
  · rw [show entry.rsp = _ from hrsp, show entry.gpr .rdi = _ from hrdi]
    decide
  · refine hfork entry.mem 0x20000 _ rfl ⟨fun x _ => ?_, ?_, by decide, by decide⟩
    · rw [hload]
    · rw [hload]
      rfl

end AeroOS.Syscalls
