import Sypas.Boot
import Sypas.Lib.X86Stack

/-!
# The entry point of the kernel (`kernel/arch/x86_64/entry.S`)

From the loader's jump to the call of `kmain`, and what happens should that return.

## Main definitions

- `Sypas.KstartText` — the code of `_kstart`
- `Sypas.AtKmain` — the machine at the call

## Main results

- `Sypas.kstart_reaches` — every jump of the loader ends in `kmain`, on the loader's stack
- `Sypas.kstart_halts` — behind the call the processor stays, with interrupts off
-/

namespace Sypas

open X86 Interaction Ram

/-- `_kstart` up to its call. -/
def kstartSetup : List Op := [.cli, .cld, .andRsp (-16), .clear .rbp]

/-- `_kstart` stands at `kstart`, its label `1` at `halt`. -/
structure KstartText (code : Code) (kstart kmain halt : UInt64) : Prop where
  setup : Listing code kstart (kstartSetup.map .op ++ [.call kmain]) halt
  loop : ∃ b c d, code halt = some (.op .cli, b) ∧ code b = some (.hlt, c) ∧
    code c = some (.jmp halt, d)

/-- The machine at the call of `kmain`, with what the SysV ABI asks for. -/
structure AtKmain (rdi ret : UInt64) (d : Core) : Prop where
  argument : d.regs .rdi = rdi
  frame_pointer : d.regs .rbp = 0
  return_address : d.top = ret
  aligned : d.rsp.toNat % 16 = 8
  flags : d.rflags &&& directionFlag = 0 ∧ d.rflags &&& interruptFlag = 0

section Entry

variable {file : List UInt8} {st : UInt64} {plan : ElfLoadPlan} {stack smap : UInt64}
  {out : List MemmapEntry} {rsp rdi rip : UInt64} {mem after : ℕ → UInt8} {g : Ledger}

/-- What the loader has prepared does not depend on the contents of the stack. -/
theorem KernelEntry.keep (h : KernelEntry file st plan stack smap out rsp rdi rip mem g)
    (hframe : ∀ a, ¬(Block.pages stack 16).Has a → after a = mem a) :
    KernelEntry file st plan stack smap out rsp rdi rip after g := by
  obtain ⟨efimap, pages, hlive, hle, hstop⟩ := h.blocks
  have happ := h.consistent.apart
  rw [hlive] at happ
  obtain ⟨hmap, hrest⟩ := List.pairwise_cons.1 happ
  have hothers := (List.pairwise_cons.1 hrest).1
  have hstack : Block.pages stack 16 ∈ g.live := by simp [hlive]
  have hkeep : Keeps (.pages rdi 1 :: (plan.segs.map ElfSegment.block).reverse) mem after := by
    rintro a ⟨b, hb, ha⟩
    exact hframe a fun hin => hothers b hb a hin ha
  refine
    { consistent := h.consistent.write fun a ha => hframe a fun hin => ha ⟨_, hstack, hin⟩
      blocks := h.blocks
      image := h.image.keep hkeep.of_cons
      entry := h.entry
      stack_top := h.stack_top
      info := ?_
      array := ?_
      map := h.map }
  · obtain ⟨located, mid, hlocated, hmid, hinfo⟩ := h.info
    exact ⟨located, mid, hlocated, hmid, hkeep.hasInfo List.mem_cons_self hinfo⟩
  · refine (entriesAt_congr fun a hlo hhi => hframe a fun hin => ?_).trans h.array
    refine hmap _ List.mem_cons_self a ⟨?_, ?_⟩ hin
    · change efimap.toNat ≤ a
      omega
    · change a < efimap.toNat + 4096 * pages.toNat
      omega

/-- The stack pointer that `_kstart` aligns stays in the loader's stack. -/
theorem KernelEntry.aligned_rsp (h : KernelEntry file st plan stack smap out rsp rdi rip mem g) :
    (rsp &&& -16).toNat % 16 = 0 ∧ stack.toNat + 8 ≤ (rsp &&& -16).toNat ∧
      (rsp &&& -16).toNat ≤ stack.toNat + 65536 := by
  have hand : (rsp &&& -16).toNat = rsp.toNat / 16 * 16 :=
    Word.toNat_and_not_mask (k := 4) (m := 15) rsp rfl
  have htop := h.stack_top
  omega

end Entry

section Runs

variable {status : Core → UInt64} {code : Code} {kmain halt rip : UInt64}

/-- The core at the call, when arithmetic has left `rflags`. -/
def kmainCore (c : Core) (rflags ret : UInt64) : Core :=
  Core.push { c with
    rsp := c.rsp &&& -16
    regs := Function.update c.regs .rbp 0
    rflags := rflags } ret

/-- Arithmetic leaves the direction and the interrupt flag alone. -/
theorem withStatus_and {flag : UInt64} (hflag : ~~~statusFlags &&& flag = flag) (x s : UInt64) :
    withStatus x s &&& flag = x &&& flag := by
  have hno : statusFlags &&& flag = 0 := by
    rw [← hflag, ← UInt64.and_assoc, UInt64.and_not_self, UInt64.zero_and]
  have hdistrib (a b : UInt64) : (a ||| b) &&& flag = (a &&& flag) ||| (b &&& flag) :=
    UInt64.toBitVec_inj.1 BitVec.and_or_distrib_right
  rw [withStatus, hdistrib, UInt64.and_assoc, UInt64.and_assoc, hflag, hno, UInt64.and_zero,
    UInt64.or_zero]

variable (status) in
theorem kstart_reaches_call (htext : KstartText code rip kmain halt) (c : Core) :
    ∃ rflags, rflags &&& directionFlag = 0 ∧ rflags &&& interruptFlag = 0 ∧
      Reaches status code ⟨c, rip⟩ ⟨kmainCore c rflags halt, kmain⟩ := by
  obtain ⟨call, hsetup, hcall⟩ := htext.setup.append
  cases hcall with
  | cons hfetch hend =>
  cases hend
  refine ⟨_, ?_, ?_, (hsetup.reaches rfl).trans (reaches_of_exec hfetch rfl)⟩
  · dsimp only [Core.set]
    rw [withStatus_and (by decide), withStatus_and (by decide)]
    exact flag_cleared (by decide)
  · dsimp only [Core.set]
    rw [withStatus_and (by decide), withStatus_and (by decide), UInt64.and_assoc,
      show ~~~directionFlag &&& interruptFlag = interruptFlag by decide]
    exact flag_cleared (by decide)

/-- Should `kmain` return, the processor stays in the loop and changes nothing but its own
    interrupt flag, which is clear from the first step on. -/
theorem kstart_halts (htext : KstartText code rip kmain halt) {k : Core} {s : State}
    (hreach : Reaches status code ⟨k, halt⟩ s) :
    s = ⟨k, halt⟩ ∨ s.core = { k with rflags := k.rflags &&& ~~~interruptFlag } := by
  obtain ⟨b, c, d, hcli, hhlt, hjmp⟩ := htext.loop
  have hall : s = ⟨k, halt⟩ ∨ (s.core = { k with rflags := k.rflags &&& ~~~interruptFlag } ∧
      s.rip ∈ [b, c, halt]) := by
    induction hreach with
    | refl => exact .inl rfl
    | @tail s t _ hstep ih =>
      obtain ⟨core, rip⟩ := s
      right
      obtain heq | ⟨hcore, hrip⟩ := ih
      · cases heq
        rw [step, hcli] at hstep
        cases hstep
        exact ⟨rfl, by simp⟩
      · cases hcore
        simp only [List.mem_cons, List.not_mem_nil, or_false] at hrip
        obtain hrip | hrip | hrip := hrip <;> cases hrip
        · rw [step, hhlt] at hstep
          cases hstep
          exact ⟨rfl, by simp⟩
        · rw [step, hjmp] at hstep
          cases hstep
          exact ⟨rfl, by simp⟩
        · rw [step, hcli] at hstep
          cases hstep
          refine ⟨?_, by simp⟩
          change ({ k with rflags := _ } : Core) = _
          rw [UInt64.and_assoc, UInt64.and_self]
  exact hall.imp_right And.left

/-- In every run of the loader that ends in the jump, the kernel's entry point calls `kmain` with
    the boot information on the loader's stack, and all that the loader has prepared is
    still there. -/
theorem kstart_reaches {file : List UInt8} {version : String} {img st : UInt64}
    {mem after : ℕ → UInt8}
    {trace : List (Interaction.Event (ℕ → UInt8) FirmwareCall FirmwareCall.Answer)}
    {g : Ledger} {rsp rdi : UInt64}
    (hrun : Run (services file) (.start mem) (efiMain version img st mem) trace g
      (.done (.error (.jumped rsp rdi rip)) after)) (htext : KstartText code rip kmain halt)
    {c : Core} (hrsp : c.rsp = rsp) (hrdi : c.regs .rdi = rdi) (hmem : c.mem = after) :
    ∃ d, Reaches status code ⟨c, rip⟩ ⟨d, kmain⟩ ∧ AtKmain rdi halt d ∧
      EntersKernel file st rsp rdi rip d.mem g := by
  obtain ⟨plan, stack, smap, out, h⟩ :
    EntersKernel file st rsp rdi rip after g := hrun.result efiMain_wp
  obtain ⟨rflags, hdirection, hinterrupt, hreach⟩ :=
    kstart_reaches_call status htext c
  obtain ⟨haligned, hlo, hhi⟩ := h.aligned_rsp
  have hpush := Core.toNat_push (c := { c with
    rsp := c.rsp &&& -16
    regs := Function.update c.regs .rbp 0
    rflags := rflags }) halt (by change 8 ≤ (c.rsp &&& -16).toNat; rw [hrsp]; omega)
  change (kmainCore c rflags halt).rsp.toNat = (c.rsp &&& -16).toNat - 8 at hpush
  rw [hrsp] at hpush
  refine ⟨_, hreach, ⟨?_, ?_, u64At_storeLe _ _ halt, by omega, hdirection, hinterrupt⟩, plan,
    stack, smap, out, h.keep fun a ha => ?_⟩
  · change Function.update c.regs .rbp 0 .rdi = rdi
    rw [Function.update_of_ne (by decide), hrdi]
  · change Function.update c.regs .rbp 0 .rbp = 0
    rw [Function.update_self]
  · rw [← hmem]
    refine Core.push_outside (c := { c with
      rsp := c.rsp &&& -16
      regs := Function.update c.regs .rbp 0
      rflags := rflags }) ?_ ?_
    · change 8 ≤ (c.rsp &&& -16).toNat
      rw [hrsp]
      omega
    · change a < (c.rsp &&& -16).toNat - 8 ∨ (c.rsp &&& -16).toNat ≤ a
      rw [hrsp]
      by_contra hin
      refine ha ⟨?_, ?_⟩
      · change stack.toNat ≤ a
        omega
      · change a < stack.toNat + 65536
        omega

end Runs

/-- `_kstart` at 4 MiB and `kmain` one page behind it. -/
def kstartAt : Code := fun a =>
  ((kstartSetup.map .op ++ [.call 0x401000, .op .cli, .hlt, .jmp 0x400005])[
    a.toNat - 0x400000]?).map fun i => (i, a + 1)

theorem kstartText_kstartAt : KstartText kstartAt 0x400000 0x401000 0x400005 where
  setup := .of_follow (by decide)
  loop := ⟨0x400006, 0x400007, 0x400008, by decide, by decide, by decide⟩

/-- The run of the loader above goes on into `kmain`. -/
theorem kstart_reaches_run : ∃ rsp after g d,
    Reaches (fun _ => 0) kstartAt
      ⟨⟨fun _ => 0x8000, rsp, 0x246, 0x38, fun _ => 0x30, ⟨0, 0⟩, ⟨0, 0⟩, after⟩, 0x400000⟩
      ⟨d, 0x401000⟩ ∧
    AtKmain 0x8000 0x400005 d ∧ EntersKernel bootFile 0 rsp 0x8000 0x400000 d.mem g := by
  obtain ⟨trace, g, e, after, hrun, -, rsp, rfl, -⟩ := efiMain_run
  obtain ⟨d, hreach, hcall, henter⟩ := kstart_reaches hrun kstartText_kstartAt
    (c := ⟨fun _ => 0x8000, rsp, 0x246, 0x38, fun _ => 0x30, ⟨0, 0⟩, ⟨0, 0⟩, after⟩) rfl rfl rfl
  exact ⟨rsp, after, g, d, hreach, hcall, henter⟩

end Sypas
