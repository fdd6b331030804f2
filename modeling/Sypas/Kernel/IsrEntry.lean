import Sypas.Kernel.Idt

/-!
# Interrupt entry and return (`kernel/arch/x86_64/isr.S`)

From the interrupted instruction through the gate and the stub of the vector to the call
of `isr_dispatch`, and from its return back to the interrupted instruction.

## Main definitions

- `Sypas.isrStubCode`, `Sypas.isrCommonSave`, `Sypas.isrCommonRestore` — the code
- `Sypas.AtDispatch` — the machine at the call

## Main results

- `Sypas.interrupt_reaches_dispatch` — every interrupt reaches the dispatcher
- `Sypas.interrupt_transparent` — the interrupted code gets its registers back
-/

namespace Sypas

open Ram X86

/-! ## The code -/

/-- The registers that `isr_common` saves, in the order of its pushes. -/
def savedRegs : List Reg :=
  [.rax, .rbx, .rcx, .rdx, .rsi, .rdi, .rbp, .r8, .r9, .r10, .r11, .r12, .r13, .r14, .r15]

/-- The pushes of `ISR_ERR` and `ISR_NOERR`. -/
def isrStubPushes (vec : UInt8) : List UInt64 :=
  if vec ∈ isrErr then [vec.toUInt64] else [0, vec.toUInt64]

/-- The stub of a vector. -/
def isrStubCode (isrCommon : UInt64) (vec : UInt8) : List Instr :=
  ((isrStubPushes vec).map .pushImm).map .op ++ [.jmp isrCommon]

/-- `isr_common` up to its call. -/
def isrCommonSave : List Op := savedRegs.map .push ++ [.movRsp .rdi, .cld]

/-- `isr_common` behind its call, up to its `iretq`. -/
def isrCommonRestore : List Op := savedRegs.reverse.map .pop ++ [.addRsp 16]

/-- `isr.S` is in memory; `ret` is the address behind the call. -/
structure IsrText (code : Code) (isrStubTable : UInt8 → UInt64)
    (isrCommon isrDispatch ret : UInt64) : Prop where
  stubs : ∀ vec, ∃ stop, Listing code (isrStubTable vec) (isrStubCode isrCommon vec) stop
  save : Listing code isrCommon (isrCommonSave.map .op ++ [.call isrDispatch]) ret
  restore : ∃ stop, Listing code ret (isrCommonRestore.map .op ++ [.iretq]) stop

/-! ## The frame -/

/-- The words of a frame, from the lowest address up. -/
def InterruptFrame.words (f : InterruptFrame) : List UInt64 :=
  [f.r15, f.r14, f.r13, f.r12, f.r11, f.r10, f.r9, f.r8, f.rbp, f.rdi, f.rsi, f.rdx, f.rcx, f.rbx,
    f.rax, f.vector, f.errorCode, f.rip, f.cs, f.rflags, f.rsp, f.ss]

/-- The `interrupt_frame_t` at `a`. -/
def InterruptFrame.at (mem : ℕ → UInt8) (a : ℕ) : InterruptFrame where
  r15 := u64At mem a
  r14 := u64At mem (a + 8)
  r13 := u64At mem (a + 16)
  r12 := u64At mem (a + 24)
  r11 := u64At mem (a + 32)
  r10 := u64At mem (a + 40)
  r9 := u64At mem (a + 48)
  r8 := u64At mem (a + 56)
  rbp := u64At mem (a + 64)
  rdi := u64At mem (a + 72)
  rsi := u64At mem (a + 80)
  rdx := u64At mem (a + 88)
  rcx := u64At mem (a + 96)
  rbx := u64At mem (a + 104)
  rax := u64At mem (a + 112)
  vector := u64At mem (a + 120)
  errorCode := u64At mem (a + 128)
  rip := u64At mem (a + 136)
  cs := u64At mem (a + 144)
  rflags := u64At mem (a + 152)
  rsp := u64At mem (a + 160)
  ss := u64At mem (a + 168)

theorem InterruptFrame.words_at (mem : ℕ → UInt8) (a : ℕ) :
    (InterruptFrame.at mem a).words = wordsAt mem a 22 := rfl

theorem InterruptFrame.words_inj {f f' : InterruptFrame} (h : f.words = f'.words) : f = f' := by
  cases f
  cases f'
  simp only [words, List.cons.injEq, and_true] at h
  simpa only [mk.injEq] using h

/-- The interrupted registers; the vector is not known to them. -/
def interruptedFrame (c : Core) (rip : UInt64) (e : Event) : InterruptFrame where
  r15 := c.regs .r15
  r14 := c.regs .r14
  r13 := c.regs .r13
  r12 := c.regs .r12
  r11 := c.regs .r11
  r10 := c.regs .r10
  r9 := c.regs .r9
  r8 := c.regs .r8
  rbp := c.regs .rbp
  rdi := c.regs .rdi
  rsi := c.regs .rsi
  rdx := c.regs .rdx
  rcx := c.regs .rcx
  rbx := c.regs .rbx
  rax := c.regs .rax
  vector := 0
  errorCode := e.error.getD 0
  rip := rip
  cs := c.cs.toUInt64
  rflags := e.savedFlags c.rflags
  rsp := c.rsp
  ss := (c.segs .ss).toUInt64

section Entry

variable {status : Core → UInt64} {code : Code} {isrStubTable : UInt8 → UInt64}
  {isrCommon isrDispatch ret gdt idt rip : UInt64} {c : Core} {e : Event}

/-- What the processor and the stub push together has the same form for every vector. -/
theorem saved_append_stub (herror : e.error.isSome ↔ e.vector ∈ errorVectors) :
    e.saved c rip ++ isrStubPushes e.vector = [(c.segs .ss).toUInt64, c.rsp, e.savedFlags c.rflags,
      c.cs.toUInt64, rip, (isrStub e.vector (interruptedFrame c rip e)).errorCode,
      e.vector.toUInt64] := by
  unfold Event.saved isrStubPushes isrStub
  by_cases hvec : e.vector ∈ isrErr
  · obtain ⟨w, hw⟩ := Option.isSome_iff_exists.1 (herror.2 hvec)
    rw [if_pos hvec, hw]
    simp [hvec, interruptedFrame, hw]
  · have hnone : e.error = none := by
      rw [← Option.not_isSome_iff_eq_none, herror]
      exact hvec
    rw [if_neg hvec, hnone]
    simp [hvec]

theorem words_isrStub : (isrStub e.vector (interruptedFrame c rip e)).words =
    (savedRegs.map c.regs).reverse ++ [(c.segs .ss).toUInt64, c.rsp, e.savedFlags c.rflags,
      c.cs.toUInt64, rip, (isrStub e.vector (interruptedFrame c rip e)).errorCode,
      e.vector.toUInt64].reverse := rfl

/-- The processor on delivery, before it pushes. -/
def entryCore (c : Core) : Core :=
  { c with
    rsp := c.rsp &&& ~~~15
    cs := gdtKcode
    rflags := c.rflags &&& ~~~(interruptFlag ||| trapFlag ||| nestedTask ||| resumeFlag) }

/-- Through the kernel's tables every interrupt is delivered to the stub of its vector. -/
theorem interrupt_eq (hidt : KernelIdt idt isrStubTable c) (hgdt : KernelGdt gdt c.mem)
    (hgdtr : c.gdtr = gdtRegister gdt) : c.interrupt rip e =
      some ⟨(entryCore c).pushAll (e.saved c rip), isrStubTable e.vector⟩ := by
  have hvec := e.vector.toNat_lt
  have hgate : Gate.at c.mem (c.idtr.base.toNat + 16 * e.vector.toNat) =
      ⟨isrStubTable e.vector, gdtKcode, 0, 0x8E⟩ := by
    rw [hidt.idtr]
    exact hidt.gates e.vector
  have hlimit : 16 * e.vector.toNat + 15 ≤ c.idtr.limit.toNat := by
    rw [hidt.idtr]
    change 16 * e.vector.toNat + 15 ≤ 4095
    omega
  have hinterrupt : Gate.IsInterrupt ⟨isrStubTable e.vector, gdtKcode, 0, 0x8E⟩ :=
    ⟨rfl, show (0 : UInt8) &&& 7 = 0 by decide⟩
  unfold Core.interrupt
  rw [hgate]
  dsimp only
  rw [if_pos ⟨hlimit, hinterrupt, hgdt.canEnter hgdtr⟩, Core.pushAll_with]
  rfl

/-- The core at the call of `isr_dispatch`, when the stack is that of `c`. -/
def callCore (c : Core) (ret : UInt64) : Core :=
  Core.push { c with
    regs := Function.update c.regs .rdi c.rsp
    rflags := c.rflags &&& ~~~directionFlag } ret

theorem rdi_callCore : (callCore c ret).regs .rdi = c.rsp := by
  change Function.update c.regs .rdi c.rsp .rdi = c.rsp
  rw [Function.update_self]

theorem toNat_callCore (h : 8 ≤ c.rsp.toNat) : (callCore c ret).rsp.toNat = c.rsp.toNat - 8 :=
  Core.toNat_push (c := { c with
    regs := Function.update c.regs .rdi c.rsp
    rflags := c.rflags &&& ~~~directionFlag }) ret h

theorem callCore_outside (h : 8 ≤ c.rsp.toNat) {a : ℕ}
    (ha : a < c.rsp.toNat - 8 ∨ c.rsp.toNat ≤ a) : (callCore c ret).mem a = c.mem a :=
  Core.push_outside (c := { c with
    regs := Function.update c.regs .rdi c.rsp
    rflags := c.rflags &&& ~~~directionFlag }) h ha

/-- The stub and the saving part of `isr_common`. -/
theorem stub_reaches (htext : IsrText code isrStubTable isrCommon isrDispatch ret) (vec : UInt8)
    (c : Core) : Reaches status code ⟨c, isrStubTable vec⟩
      ⟨callCore (c.pushAll (isrStubPushes vec ++ savedRegs.map c.regs)) ret, isrDispatch⟩ := by
  obtain ⟨stop, hstub⟩ := htext.stubs vec
  obtain ⟨jump, hpushes, hjump⟩ := hstub.append
  obtain ⟨call, hsave, hcall⟩ := htext.save.append
  cases hjump with
  | cons hfetch _ =>
  cases hcall with
  | cons hfetch' hend =>
  cases hend
  have hsaved : execAll status isrCommonSave (c.pushAll (isrStubPushes vec)) =
      some { c.pushAll (isrStubPushes vec ++ savedRegs.map c.regs) with
        regs := Function.update c.regs .rdi
          (c.pushAll (isrStubPushes vec ++ savedRegs.map c.regs)).rsp
        rflags := c.rflags &&& ~~~directionFlag } := by
    rw [isrCommonSave, execAll_append, Core.execAll_push, Core.regs_pushAll, Core.pushAll_append]
    change some _ = some _
    simp [Core.set]
  refine (((hpushes.reaches (Core.execAll_pushImm _ _ _)).trans (reaches_of_exec hfetch rfl)).trans
    (hsave.reaches hsaved)).trans (reaches_of_exec hfetch' ?_)
  rw [callCore, Core.regs_pushAll, Core.rflags_pushAll]
  rfl

/-- The machine at the call of `isr_dispatch`, when `c` has been interrupted before `rip`. -/
structure AtDispatch (c : Core) (rip : UInt64) (e : Event) (ret : UInt64) (d : Core) : Prop where
  frame : InterruptFrame.at d.mem (d.regs .rdi).toNat =
    isrStub e.vector (interruptedFrame c rip e)
  return_address : d.top = ret ∧ d.rsp + 8 = d.regs .rdi
  aligned : (d.regs .rdi).toNat % 16 = 0
  flags : d.rflags &&& directionFlag = 0 ∧ d.rflags &&& interruptFlag = 0
  segments : d.cs = gdtKcode ∧ d.segs = c.segs ∧ d.gdtr = c.gdtr ∧ d.idtr = c.idtr
  below : (d.regs .rdi).toNat + 176 ≤ c.rsp.toNat
  outside : ∀ a, a < d.rsp.toNat ∨ c.rsp.toNat ≤ a → d.mem a = c.mem a

/-- Every interrupt reaches the dispatcher. -/
theorem interrupt_reaches_dispatch (htext : IsrText code isrStubTable isrCommon isrDispatch ret)
    (hidt : KernelIdt idt isrStubTable c) (hgdt : KernelGdt gdt c.mem)
    (hgdtr : c.gdtr = gdtRegister gdt) (herror : e.error.isSome ↔ e.vector ∈ errorVectors)
    (hroom : 200 ≤ c.rsp.toNat) :
    ∃ s d, c.interrupt rip e = some s ∧ Reaches status code s ⟨d, isrDispatch⟩ ∧
      AtDispatch c rip e ret d := by
  refine ⟨_, _, interrupt_eq hidt hgdt hgdtr, stub_reaches htext e.vector _, ?_⟩
  set ws := e.saved c rip ++ isrStubPushes e.vector ++ savedRegs.map c.regs with hws
  have hstack : ((entryCore c).pushAll (e.saved c rip)).pushAll (isrStubPushes e.vector ++
      savedRegs.map ((entryCore c).pushAll (e.saved c rip)).regs) = (entryCore c).pushAll ws := by
    rw [Core.regs_pushAll, Core.pushAll_append, hws, List.append_assoc]
    rfl
  rw [hstack]
  have hlen : ws.length = 22 := by
    rw [hws, saved_append_stub herror]
    rfl
  have hwords : ws.reverse = (isrStub e.vector (interruptedFrame c rip e)).words := by
    rw [hws, saved_append_stub herror, words_isrStub, List.reverse_append]
  have hbase : (entryCore c).rsp.toNat = c.rsp.toNat / 16 * 16 :=
    Word.toNat_and_not_mask (k := 4) c.rsp rfl
  have hrsp : ((entryCore c).pushAll ws).rsp.toNat = (entryCore c).rsp.toNat - 8 * ws.length :=
    Core.toNat_pushAll (by omega)
  have htop : ((entryCore c).pushAll ws).Top (ws.reverse ++ []) :=
    (Core.Top.nil (entryCore c)).pushAll (by omega)
  have hframe : ∀ a, a < (entryCore c).rsp.toNat - 176 ∨ (entryCore c).rsp.toNat ≤ a →
      ((entryCore c).pushAll ws).mem a = c.mem a := fun a ha =>
    Core.pushAll_outside (by omega) (by omega)
  have hflags : ((entryCore c).pushAll ws).rflags = (entryCore c).rflags := Core.rflags_pushAll _ _
  have hsegments : ((entryCore c).pushAll ws).cs = gdtKcode ∧
      ((entryCore c).pushAll ws).segs = c.segs ∧ ((entryCore c).pushAll ws).gdtr = c.gdtr ∧
      ((entryCore c).pushAll ws).idtr = c.idtr := by
    rw [Core.pushAll_eq]
    exact ⟨rfl, rfl, rfl, rfl⟩
  rw [List.append_nil, hwords] at htop
  generalize (entryCore c).pushAll ws = b at hrsp htop hframe hflags hsegments ⊢
  have hroom' : 8 ≤ b.rsp.toNat := by omega
  have hrdi : (callCore b ret).regs .rdi = b.rsp := rdi_callCore
  have hcall : (callCore b ret).rsp.toNat = b.rsp.toNat - 8 := toNat_callCore hroom'
  have hmem := fun a => @callCore_outside ret b hroom' a
  refine ⟨?_, ⟨?_, ?_⟩, ?_, ⟨?_, ?_⟩, hsegments, ?_, fun a ha => ?_⟩
  · rw [hrdi]
    refine InterruptFrame.words_inj ?_
    rw [InterruptFrame.words_at, wordsAt_congr fun a hlo _ => hmem a (Or.inr hlo)]
    exact htop.words
  · exact u64At_storeLe _ _ ret
  · rw [hrdi]
    exact UInt64.sub_add_cancel _ _
  · rw [hrdi]
    omega
  · exact flag_cleared (by decide)
  · change b.rflags &&& ~~~directionFlag &&& interruptFlag = 0
    rw [hflags, UInt64.and_assoc, show ~~~directionFlag &&& interruptFlag = interruptFlag by decide]
    exact flag_cleared (by decide)
  · rw [hrdi]
    omega
  · rw [hmem a (by omega), hframe a (by omega)]

/-! ## The return -/

/-- The general registers of a frame. -/
def InterruptFrame.regs (f : InterruptFrame) : Reg → UInt64
  | .rax => f.rax
  | .rbx => f.rbx
  | .rcx => f.rcx
  | .rdx => f.rdx
  | .rsi => f.rsi
  | .rdi => f.rdi
  | .rbp => f.rbp
  | .r8 => f.r8
  | .r9 => f.r9
  | .r10 => f.r10
  | .r11 => f.r11
  | .r12 => f.r12
  | .r13 => f.r13
  | .r14 => f.r14
  | .r15 => f.r15

theorem InterruptFrame.words_eq (f : InterruptFrame) : f.words =
    savedRegs.reverse.map f.regs ++
      ([f.vector, f.errorCode] ++ [f.rip, f.cs, f.rflags, f.rsp, f.ss]) := rfl

theorem mem_savedRegs (r : Reg) : r ∈ savedRegs.reverse := by
  cases r <;> decide

/-- The processor as a frame describes it. -/
def resumed (k : Core) (f : InterruptFrame) : State where
  core := { k with
    regs := f.regs
    rsp := f.rsp
    rflags := f.rflags
    cs := f.cs.toUInt16
    segs := Function.update k.segs .ss f.ss.toUInt16 }
  rip := f.rip

/-- The restoring part of `isr_common` gives the processor what the frame holds. -/
theorem restore_reaches (htext : IsrText code isrStubTable isrCommon isrDispatch ret)
    {k : Core} {f : InterruptFrame} (htop : k.Top f.words) (hcs : k.CanEnter f.cs.toUInt16)
    (hss : f.ss.toUInt16 = 0 ∨ k.CanLoad .ss f.ss.toUInt16) :
    Reaches status code ⟨k, ret⟩ (resumed k f) := by
  obtain ⟨stop, hrestore⟩ := htext.restore
  obtain ⟨iretq, hops, hiret⟩ := hrestore.append
  cases hiret with
  | cons hfetch _ =>
  rw [InterruptFrame.words_eq] at htop
  obtain ⟨d, hd, hdtop, hregs, hdeq⟩ := htop.popRegs status
  have hall : d.regs = f.regs := by
    rw [hregs]
    exact funext fun r => if_pos (mem_savedRegs r)
  have hdropped : (Core.drop d 16).Top [f.rip, f.cs, f.rflags, f.rsp, f.ss] := hdtop.drop rfl
  have hexec : execAll status isrCommonRestore k =
      some { d.drop 16 with rflags := withStatus d.rflags (status d) } := by
    rw [isrCommonRestore, execAll_append, hd]
    rfl
  set r : Core := { d.drop 16 with rflags := withStatus d.rflags (status d) } with hr
  have hrtop : r.Top [f.rip, f.cs, f.rflags, f.rsp, f.ss] := hdropped.congr rfl fun _ _ _ => rfl
  have hrmem : r.gdtr = k.gdtr ∧ r.mem = k.mem ∧ r.idtr = k.idtr ∧ r.segs = k.segs := by
    rw [hr, hdeq]
    exact ⟨rfl, rfl, rfl, rfl⟩
  have hcs' : r.CanEnter f.cs.toUInt16 := by
    unfold Core.CanEnter
    rw [hrmem.1, hrmem.2.1]
    exact hcs
  have hss' : f.ss.toUInt16 = 0 ∨ r.CanLoad .ss f.ss.toUInt16 := by
    unfold Core.CanLoad
    rw [hrmem.1, hrmem.2.1]
    exact hss
  refine (hops.reaches hexec).trans (reaches_of_exec hfetch ?_)
  change r.iret = some (resumed k f)
  rw [hrtop.iret hcs' hss', resumed, ← hall]
  have hrregs : r.regs = d.regs := rfl
  rw [← hrregs]
  obtain ⟨hgdtr, hmem, hidtr, hsegs⟩ := hrmem
  rw [← hsegs]
  congr 3

/-- The code that is interrupted by anything that leaves the frame and the table alone goes on
    with the registers that it had. -/
theorem interrupt_transparent (htext : IsrText code isrStubTable isrCommon isrDispatch ret)
    (hidt : KernelIdt idt isrStubTable c) (hsegs : KernelSegments gdt c)
    (herror : e.error.isSome ↔ e.vector ∈ errorVectors) (hroom : 200 ≤ c.rsp.toNat) :
    ∃ s d, c.interrupt rip e = some s ∧ Reaches status code s ⟨d, isrDispatch⟩ ∧
      AtDispatch c rip e ret d ∧
      ∀ k : Core, k.rsp = d.regs .rdi → k.gdtr = c.gdtr → KernelGdt gdt k.mem →
        (∀ a, k.rsp.toNat ≤ a → a < k.rsp.toNat + 176 → k.mem a = d.mem a) →
        Reaches status code ⟨k, ret⟩ ⟨{ k with
          regs := c.regs
          rsp := c.rsp
          rflags := e.savedFlags c.rflags
          cs := c.cs
          segs := Function.update k.segs .ss (c.segs .ss) }, rip⟩ := by
  obtain ⟨s, d, hs, hd, hat⟩ := interrupt_reaches_dispatch htext hidt hsegs.table hsegs.gdtr herror
    hroom
  refine ⟨s, d, hs, hd, hat, fun k hrsp hgdtr hgdt hframe => ?_⟩
  set f := isrStub e.vector (interruptedFrame c rip e) with hf
  have htop : k.Top f.words := by
    have hbelow := hat.below
    have hlt := c.rsp.toNat_lt
    rw [← hrsp] at hbelow
    refine ⟨?_, by change k.rsp.toNat + 8 * 22 ≤ 2 ^ 64; omega⟩
    change wordsAt k.mem k.rsp.toNat 22 = f.words
    rw [wordsAt_congr hframe, hrsp, ← InterruptFrame.words_at, hat.frame]
  have hcs : f.cs.toUInt16 = gdtKcode := hsegs.cs ▸ UInt16.toUInt16_toUInt64 c.cs
  have hss : f.ss.toUInt16 = gdtKdata :=
    hsegs.data .ss (by simp) ▸ UInt16.toUInt16_toUInt64 (c.segs .ss)
  have hkgdtr := hgdtr.trans hsegs.gdtr
  have hreach : Reaches status code ⟨k, ret⟩ (resumed k f) :=
    restore_reaches htext htop (hcs ▸ hgdt.canEnter hkgdtr) (.inr (hss ▸ hgdt.canLoad hkgdtr .ss))
  have hregs : f.regs = c.regs := funext fun r => by cases r <;> rfl
  rw [resumed, hregs, hcs, hss, ← hsegs.cs, ← hsegs.data .ss (by simp)] at hreach
  exact hreach

end Entry

/-- `isr.S` with the stub of a vector at 16 times its number, and `isr_common` at 0x2000. -/
def isrTextAt : Code := fun a =>
  if a.toNat < 0x1000 then
    ((isrStubCode 0x2000 (UInt8.ofNat (a.toNat / 16)))[a.toNat % 16]?).map fun i => (i, a + 1)
  else ((isrCommonSave.map .op ++ [.call 0x4000] ++ (isrCommonRestore.map .op ++ [.iretq]))[
    a.toNat - 0x2000]?).map fun i => (i, a + 1)

def isrStubAt (vec : UInt8) : UInt64 := UInt64.ofNat (16 * vec.toNat)

theorem isrText_isrTextAt : IsrText isrTextAt isrStubAt 0x2000 0x4000 0x2012 where
  stubs := by
    have hall : ∀ n : Fin 256, ∃ k : Fin 4, follow isrTextAt (UInt64.ofNat (16 * n))
        (isrStubCode 0x2000 (UInt8.ofNat n)) = some (UInt64.ofNat (16 * n + k)) := by decide +kernel
    intro vec
    obtain ⟨k, hk⟩ := hall ⟨vec.toNat, vec.toNat_lt⟩
    rw [UInt8.ofNat_toNat] at hk
    exact ⟨_, .of_follow hk⟩
  save := .of_follow (by decide +kernel)
  restore := ⟨0x2023, .of_follow (by decide +kernel)⟩

/-- The memory after `gdt_init` and `idt_init`. -/
def tablesMem : ℕ → UInt8 :=
  (idtInit 0x6000 0x8200 isrStubAt ⟨(gdtTables 0x8000 0x8100 ⟨fun _ => 0, []⟩).2.mem, []⟩).2.mem

def runningCore : Core where
  regs := fun _ => 7
  rsp := 0x5008
  rflags := 0x202
  cs := gdtKcode
  segs := fun s => if s ∈ [Seg.fs, .gs] then 0 else gdtKdata
  gdtr := gdtRegister 0x8000
  idtr := ⟨0x6000, 4095⟩
  mem := tablesMem

/-- Both tables in memory, and the registers that name them. -/
theorem installed_of_mem {gdt gp idt idtp : UInt64} {isrStubTable : UInt8 → UInt64} {c : Core}
    {s : Ram} (hapart : TablesApart gdt gp idt idtp c.rsp)
    (hmem : c.mem = (idtInit idt idtp isrStubTable ⟨(gdtTables gdt gp s).2.mem, []⟩).2.mem)
    (hidtr : c.idtr = ⟨idt, 4095⟩) (hgdtr : c.gdtr = gdtRegister gdt) (hcs : c.cs = gdtKcode)
    (hdata : ∀ s ∈ [Seg.ss, .ds, .es], c.segs s = gdtKdata)
    (hnull : ∀ s ∈ [Seg.fs, .gs], c.segs s = 0) :
    KernelIdt idt isrStubTable c ∧ KernelSegments gdt c := by
  obtain ⟨hgdt, -⟩ := gdtTables_spec s hapart.gp_gdt
  obtain ⟨hidt, hframe⟩ := idtInit_gates _ hapart.idtp_idt hmem
  exact ⟨⟨hidt.gates, hidtr⟩, hapart.keeps_gdt hgdt hframe, hgdtr, hcs, hdata, hnull⟩

theorem runningCore_installed :
    KernelIdt 0x6000 isrStubAt runningCore ∧ KernelSegments 0x8000 runningCore := by
  have hapart : TablesApart 0x8000 0x8100 0x6000 0x8200 0x5008 :=
    ⟨by decide, by decide, by decide, by decide, by decide, by decide⟩
  have hmem : runningCore.mem = (idtInit 0x6000 0x8200 isrStubAt
      ⟨(gdtTables 0x8000 0x8100 ⟨fun _ => 0, []⟩).2.mem, []⟩).2.mem := by
    dsimp only [runningCore, tablesMem]
  exact installed_of_mem hapart hmem rfl rfl rfl (by decide) (by decide)

/-- The timer interrupts code at 0x5000; the dispatcher returns with nothing in the other
    registers, and the code goes on. -/
theorem interrupt_transparent_timer :
    ∃ s d r, runningCore.interrupt 0x5000 ⟨32, none, false⟩ = some s ∧
      Reaches (fun _ => 0) isrTextAt s ⟨d, 0x4000⟩ ∧
      AtDispatch runningCore 0x5000 ⟨32, none, false⟩ 0x2012 d ∧
      Reaches (fun _ => 0) isrTextAt ⟨{ d with regs := fun _ => 0, rsp := d.regs .rdi }, 0x2012⟩
        ⟨r, 0x5000⟩ ∧ r.regs = runningCore.regs ∧ r.rsp = runningCore.rsp := by
  obtain ⟨hidt, hsegs⟩ := runningCore_installed
  have herror : (⟨32, none, false⟩ : Event).error.isSome ↔
      (⟨32, none, false⟩ : Event).vector ∈ errorVectors := by decide
  have hroom : 200 ≤ runningCore.rsp.toNat := by
    change 200 ≤ 0x5008
    decide
  obtain ⟨s, d, hs, hd, hat, hreturn⟩ :=
    interrupt_transparent isrText_isrTextAt hidt hsegs herror hroom
  refine ⟨s, d, _, hs, hd, hat, hreturn { d with regs := fun _ => 0, rsp := d.regs .rdi } rfl
    hat.segments.2.2.1 ?_ fun _ _ _ => rfl, rfl, rfl⟩
  exact hsegs.table.congr fun a hlo _ =>
    hat.outside a (.inr (le_trans (by change 0x5008 ≤ 0x8000; decide) hlo))

end Sypas
