import Sypas.Lib.Memory
import Sypas.Lib.Word

/-!
# A fragment of x86-64 in ring 0

The stack, the control transfers and the descriptor tables of the processor in 64-bit
mode with identity paging. An instruction that would fault has no successor state. The
accessed bits of descriptors and the check that addresses are canonical are left out, and
the status flags that an arithmetic instruction leaves are a parameter, since nothing here
reads them.

## Main definitions

- `X86.Core` — the registers and memory
- `X86.Op`, `X86.Instr` — straight-line code and control transfers
- `X86.Core.interrupt` — the delivery of an interrupt through its gate
- `X86.Listing` — code that stands at an address

## Main results

- `X86.Listing.reaches` — straight-line code runs to its end
-/

namespace X86

open Ram

/-- The general registers without `rsp`. -/
inductive Reg where
  | rax | rbx | rcx | rdx | rsi | rdi | rbp | r8 | r9 | r10 | r11 | r12 | r13 | r14 | r15
deriving DecidableEq

/-- The data segment registers. -/
inductive Seg where
  | ss | ds | es | fs | gs
deriving DecidableEq

/-- `gdtr` and `idtr`. -/
structure TableRegister where
  base : UInt64
  limit : UInt16
deriving DecidableEq

/-- The processor without `rip`, and memory. -/
structure Core where
  regs : Reg → UInt64
  rsp : UInt64
  rflags : UInt64
  cs : UInt16
  segs : Seg → UInt16
  gdtr : TableRegister
  idtr : TableRegister
  mem : ℕ → UInt8

structure State where
  core : Core
  rip : UInt64

/-! ## Flags -/

def trapFlag : UInt64 := 0x100
def interruptFlag : UInt64 := 0x200
def directionFlag : UInt64 := 0x400
def nestedTask : UInt64 := 0x4000
def resumeFlag : UInt64 := 0x10000

/-- CF, PF, AF, ZF, SF and OF. -/
def statusFlags : UInt64 := 0x8D5

/-- The flags after an arithmetic instruction that leaves `status`. -/
def withStatus (rflags status : UInt64) : UInt64 :=
  (rflags &&& ~~~statusFlags) ||| (status &&& statusFlags)

/-- A flag that has been cleared stays clear when others are cleared too. -/
theorem flag_cleared {x cleared flag : UInt64} (h : ~~~cleared &&& flag = 0) :
    x &&& ~~~cleared &&& flag = 0 := by
  rw [UInt64.and_assoc, h, UInt64.and_zero]

/-! ## Descriptors -/

/-- The address of the descriptor that a selector of the GDT with privilege 0 names. -/
def TableRegister.descriptor (t : TableRegister) (selector : UInt16) : Option ℕ :=
  if selector ≠ 0 ∧ selector &&& 7 = 0 ∧ selector.toNat + 7 ≤ t.limit.toNat then
    some (t.base.toNat + selector.toNat)
  else none

/-- A present, non-conforming 64-bit code descriptor of ring 0. -/
def IsCode (mem : ℕ → UInt8) (a : ℕ) : Prop :=
  mem (a + 5) &&& 0xFC = 0x98 ∧ mem (a + 6) &&& 0x60 = 0x20

/-- A present, writable data descriptor of ring 0. -/
def IsData (mem : ℕ → UInt8) (a : ℕ) : Prop := mem (a + 5) &&& 0xFA = 0x92

instance (mem : ℕ → UInt8) (a : ℕ) : Decidable (IsCode mem a) := instDecidableAnd

instance (mem : ℕ → UInt8) (a : ℕ) : Decidable (IsData mem a) :=
  inferInstanceAs (Decidable (_ = _))

/-- An entry of the IDT. -/
structure Gate where
  offset : UInt64
  selector : UInt16
  ist : UInt8
  typeAttr : UInt8
deriving DecidableEq

def Gate.at (mem : ℕ → UInt8) (a : ℕ) : Gate where
  offset := UInt64.ofNat
    (leNat mem a 2 + 2 ^ 16 * leNat mem (a + 6) 2 + 2 ^ 32 * leNat mem (a + 8) 4)
  selector := u16At mem (a + 2)
  ist := mem (a + 4)
  typeAttr := mem (a + 5)

/-- A present interrupt gate of ring 0 that keeps the stack. -/
def Gate.IsInterrupt (g : Gate) : Prop := g.typeAttr = 0x8E ∧ g.ist &&& 7 = 0

instance (g : Gate) : Decidable g.IsInterrupt := instDecidableAnd

namespace Core

variable (c : Core)

def push (w : UInt64) : Core :=
  { c with rsp := c.rsp - 8, mem := storeLe c.mem (c.rsp - 8).toNat 8 w.toNat }

/-- The word on top of the stack. -/
def top : UInt64 := u64At c.mem c.rsp.toNat

/-- Push the words of a list, the first one first. -/
def pushAll (ws : List UInt64) : Core := ws.foldl push c

/-- The word at offset `8 * i` from the top of the stack. -/
def word (i : UInt64) : UInt64 := u64At c.mem (c.rsp + 8 * i).toNat

def drop (n : UInt64) : Core := { c with rsp := c.rsp + n }

def set (r : Reg) (v : UInt64) : Core := { c with regs := Function.update c.regs r v }

/-- The code descriptor of `selector` can be loaded. -/
def CanEnter (selector : UInt16) : Prop := ∃ a ∈ c.gdtr.descriptor selector, IsCode c.mem a

/-- A data segment register can be loaded with `selector`; only `ss` must not be null. -/
def CanLoad (s : Seg) (selector : UInt16) : Prop :=
  (s ≠ .ss ∧ selector = 0) ∨ ∃ a ∈ c.gdtr.descriptor selector, IsData c.mem a

instance (selector : UInt16) : Decidable (c.CanEnter selector) :=
  match h : c.gdtr.descriptor selector with
  | none => isFalse fun ⟨_, ha, _⟩ => by rw [h] at ha; cases ha
  | some a => decidable_of_iff (IsCode c.mem a) ⟨fun hcode => ⟨a, h, hcode⟩,
      fun ⟨_, ha, hcode⟩ => Option.some.inj (h.symm.trans ha) ▸ hcode⟩

instance (s : Seg) (selector : UInt16) : Decidable (c.CanLoad s selector) :=
  match h : c.gdtr.descriptor selector with
  | none => decidable_of_iff (s ≠ .ss ∧ selector = 0) ⟨Or.inl, fun hload => hload.resolve_right
      fun ⟨_, ha, _⟩ => by rw [h] at ha; cases ha⟩
  | some a => decidable_of_iff ((s ≠ .ss ∧ selector = 0) ∨ IsData c.mem a)
      (or_congr_right ⟨fun hdata => ⟨a, h, hdata⟩,
        fun ⟨_, ha, hdata⟩ => Option.some.inj (h.symm.trans ha) ▸ hdata⟩)

/-- The pseudo-descriptor at `a`. -/
def tableAt (a : UInt64) : TableRegister where
  limit := u16At c.mem a.toNat
  base := u64At c.mem (a.toNat + 2)

end Core

/-! ## Interrupts -/

/-- What interrupts the processor: a vector, the error code that is pushed, if any, and whether
    the resume flag is set in the flags that are saved. -/
structure Event where
  vector : UInt8
  error : Option UInt64
  resume : Bool

/-- The exceptions for which the processor pushes an error code. -/
def errorVectors : List UInt8 := [8, 10, 11, 12, 13, 14, 17, 21, 29, 30]

/-- The flags that are saved. -/
def Event.savedFlags (e : Event) (rflags : UInt64) : UInt64 :=
  if e.resume then rflags ||| resumeFlag else rflags

/-- The words that are pushed on delivery, with the address to return to. -/
def Event.saved (e : Event) (c : Core) (rip : UInt64) : List UInt64 :=
  [(c.segs .ss).toUInt64, c.rsp, e.savedFlags c.rflags, c.cs.toUInt64, rip] ++ e.error.toList

/-- Delivery through an interrupt gate, on the stack of the interrupted code. -/
def Core.interrupt (c : Core) (rip : UInt64) (e : Event) : Option State :=
  let gate := Gate.at c.mem (c.idtr.base.toNat + 16 * e.vector.toNat)
  if 16 * e.vector.toNat + 15 ≤ c.idtr.limit.toNat ∧ gate.IsInterrupt ∧
      c.CanEnter gate.selector then
    some ⟨{ Core.pushAll { c with rsp := c.rsp &&& ~~~15 } (e.saved c rip) with
      cs := gate.selector
      rflags := c.rflags &&& ~~~(interruptFlag ||| trapFlag ||| nestedTask ||| resumeFlag) },
      gate.offset⟩
  else none

/-! ## Instructions -/

/-- Straight-line instructions. -/
inductive Op where
  | push (r : Reg)
  | pushImm (v : UInt64)
  | pop (r : Reg)
  | movRsp (r : Reg)
  | movImm (r : Reg) (v : UInt64)
  | clear (r : Reg)
  | addRsp (n : UInt64)
  | andRsp (n : UInt64)
  | cli
  | cld
  | lgdt (a : UInt64)
  | lidt (a : UInt64)
  | movSeg (s : Seg) (r : Reg)
deriving DecidableEq

/-- Straight-line instructions and control transfers. -/
inductive Instr where
  | op (o : Op)
  | jmp (target : UInt64)
  | call (target : UInt64)
  | iretq
  | lretq
  | hlt
deriving DecidableEq

section Semantics

variable (status : Core → UInt64)

/-- What a straight-line instruction does. -/
def Op.exec (c : Core) : Op → Option Core
  | push r => some (c.push (c.regs r))
  | pushImm v => some (c.push v)
  | pop r => some ((c.drop 8).set r c.top)
  | movRsp r => some (c.set r c.rsp)
  | movImm r v => some (c.set r v)
  | clear r => some { c.set r 0 with rflags := withStatus c.rflags (status c) }
  | addRsp n => some { c.drop n with rflags := withStatus c.rflags (status c) }
  | andRsp n => some { c with rsp := c.rsp &&& n, rflags := withStatus c.rflags (status c) }
  | cli => some { c with rflags := c.rflags &&& ~~~interruptFlag }
  | cld => some { c with rflags := c.rflags &&& ~~~directionFlag }
  | lgdt a => some { c with gdtr := c.tableAt a }
  | lidt a => some { c with idtr := c.tableAt a }
  | movSeg s r =>
    if c.CanLoad s (c.regs r).toUInt16 then
      some { c with segs := Function.update c.segs s (c.regs r).toUInt16 }
    else none

def execAll : List Op → Core → Option Core
  | [], c => some c
  | o :: os, c => (o.exec status c).bind (execAll os)

/-- `iretq`: rip, cs, rflags, rsp and ss come from the stack. -/
def Core.iret (c : Core) : Option State :=
  if c.CanEnter (c.word 1).toUInt16 ∧
      ((c.word 4).toUInt16 = 0 ∨ c.CanLoad .ss (c.word 4).toUInt16) then
    some ⟨{ c with
      cs := (c.word 1).toUInt16
      rflags := c.word 2
      rsp := c.word 3
      segs := Function.update c.segs .ss (c.word 4).toUInt16 }, c.top⟩
  else none

/-- `lretq`: rip and cs come from the stack. -/
def Core.lret (c : Core) : Option State :=
  if c.CanEnter (c.word 1).toUInt16 then
    some ⟨{ c.drop 16 with cs := (c.word 1).toUInt16 }, c.top⟩
  else none

/-- What an instruction does that `next` follows. -/
def Instr.exec (next : UInt64) (c : Core) : Instr → Option State
  | op o => (o.exec status c).map fun c' => ⟨c', next⟩
  | jmp target => some ⟨c, target⟩
  | call target => some ⟨c.push next, target⟩
  | iretq => c.iret
  | lretq => c.lret
  | hlt => some ⟨c, next⟩ -- an interrupt has come

/-- Code: the instruction at an address, and the address behind it. -/
abbrev Code : Type := UInt64 → Option (Instr × UInt64)

def step (code : Code) (s : State) : Option State :=
  (code s.rip).bind fun i => i.1.exec status i.2 s.core

/-- Some number of steps leads from one state to the other. -/
def Reaches (code : Code) : State → State → Prop :=
  Relation.ReflTransGen fun s t => step status code s = some t

end Semantics

/-- The instructions stand in memory one behind the other, from the first address to the
    second. -/
inductive Listing (code : Code) : UInt64 → List Instr → UInt64 → Prop where
  | nil (a : UInt64) : Listing code a [] a
  | cons {a b stop : UInt64} {i : Instr} {is : List Instr} (h : code a = some (i, b))
      (rest : Listing code b is stop) : Listing code a (i :: is) stop

/-- Where the instructions end, if they stand from `a` on. -/
def follow (code : Code) (a : UInt64) : List Instr → Option UInt64
  | [] => some a
  | i :: is => (code a).bind fun p => if p.1 = i then follow code p.2 is else none

theorem Listing.of_follow {code : Code} {a stop : UInt64} {is : List Instr}
    (h : follow code a is = some stop) : Listing code a is stop := by
  induction is generalizing a with
  | nil =>
    cases h
    exact .nil _
  | cons i is ih =>
    obtain ⟨⟨j, b⟩, hfetch, hrest⟩ := Option.bind_eq_some_iff.1 h
    by_cases hij : j = i
    · subst hij
      exact .cons hfetch (ih (by rwa [if_pos rfl] at hrest))
    · rw [if_neg hij] at hrest
      cases hrest

section Runs

variable {status : Core → UInt64} {code : Code}

/-- One instruction. -/
theorem reaches_of_exec {a next : UInt64} {i : Instr} {c : Core} {t : State}
    (h : code a = some (i, next)) (hexec : i.exec status next c = some t) :
    Reaches status code ⟨c, a⟩ t := by
  refine .single ?_
  rw [step, h]
  exact hexec

/-- Straight-line code runs to its end. -/
theorem Listing.reaches {a stop : UInt64} {os : List Op} {c d : Core}
    (h : Listing code a (os.map .op) stop) (hexec : execAll status os c = some d) :
    Reaches status code ⟨c, a⟩ ⟨d, stop⟩ := by
  induction os generalizing a c with
  | nil =>
    cases h
    cases hexec
    exact .refl
  | cons o os ih =>
    cases h with
    | @cons _ b _ _ _ hfetch hrest =>
      obtain ⟨e, he, hrun⟩ := Option.bind_eq_some_iff.1 hexec
      refine (reaches_of_exec hfetch ?_).trans (ih hrest hrun)
      rw [Instr.exec, he]
      rfl

theorem Listing.append {a stop : UInt64} {is js : List Instr}
    (h : Listing code a (is ++ js) stop) :
    ∃ b, Listing code a is b ∧ Listing code b js stop := by
  induction is generalizing a with
  | nil => exact ⟨a, .nil a, h⟩
  | cons i is ih =>
    cases h with
    | cons hfetch hrest =>
      obtain ⟨b, hleft, hright⟩ := ih hrest
      exact ⟨b, .cons hfetch hleft, hright⟩

theorem execAll_append (os os' : List Op) (c : Core) :
    execAll status (os ++ os') c = (execAll status os c).bind (execAll status os') := by
  induction os generalizing c with
  | nil => rfl
  | cons o os ih =>
    rw [List.cons_append, execAll, execAll, Option.bind_assoc]
    exact congrArg _ (funext ih)

end Runs

end X86
