import Sypas.Lib.X86

/-!
# The stack of the processor

What stands on top of the stack as a list of words, and how pushing and popping change
the list. Registers that are pushed one by one and popped in the reverse order come back.

## Main definitions

- `X86.Core.Top` — the words on top of the stack

## Main results

- `X86.Core.Top.push`, `X86.Core.Top.drop` — one word
- `X86.Core.Top.pushAll`, `X86.Core.Top.popRegs` — many words
- `X86.Core.Top.iret` — the return from an interrupt
-/

namespace X86

open Ram

/-- The `n` words from `a` on. -/
def wordsAt (mem : ℕ → UInt8) (a n : ℕ) : List UInt64 :=
  (List.range n).map fun i => u64At mem (a + 8 * i)

@[simp] theorem length_wordsAt (mem : ℕ → UInt8) (a n : ℕ) : (wordsAt mem a n).length = n := by
  rw [wordsAt, List.length_map, List.length_range]

theorem wordsAt_succ (mem : ℕ → UInt8) (a n : ℕ) :
    wordsAt mem a (n + 1) = u64At mem a :: wordsAt mem (a + 8) n := by
  rw [wordsAt, List.range_succ_eq_map, List.map_cons, List.map_map, Nat.mul_zero, Nat.add_zero,
    wordsAt]
  refine congrArg _ (List.map_congr_left fun i _ => ?_)
  rw [Function.comp_apply, Nat.mul_succ, Nat.add_comm (8 * i), Nat.add_assoc]

theorem wordsAt_add (mem : ℕ → UInt8) (a m n : ℕ) :
    wordsAt mem a (m + n) = wordsAt mem a m ++ wordsAt mem (a + 8 * m) n := by
  induction m generalizing a with
  | zero => rw [Nat.zero_add, Nat.mul_zero, Nat.add_zero]; rfl
  | succ m ih =>
    rw [Nat.succ_add, wordsAt_succ, wordsAt_succ, ih, List.cons_append, Nat.mul_succ,
      Nat.add_comm (8 * m), Nat.add_assoc]

theorem wordsAt_congr {mem mem' : ℕ → UInt8} {a n : ℕ}
    (h : ∀ b, a ≤ b → b < a + 8 * n → mem' b = mem b) : wordsAt mem' a n = wordsAt mem a n := by
  refine List.map_congr_left fun i hi => congrArg UInt64.ofNat (leNat_congr fun b hlo hhi => ?_)
  have hi' := List.mem_range.1 hi
  exact h b (by omega) (by omega)

namespace Core

/-- The words `ws` are on top of the stack. -/
structure Top (c : Core) (ws : List UInt64) : Prop where
  words : wordsAt c.mem c.rsp.toNat ws.length = ws
  room : c.rsp.toNat + 8 * ws.length ≤ 2 ^ 64

theorem Top.nil (c : Core) : c.Top [] := ⟨rfl, c.rsp.toNat_lt.le⟩

variable {c d : Core} {w : UInt64} {ws vs : List UInt64}

/-- The list depends only on the stack pointer and on its own bytes. -/
theorem Top.congr (h : c.Top ws) (hrsp : d.rsp = c.rsp)
    (hmem : ∀ a, c.rsp.toNat ≤ a → a < c.rsp.toNat + 8 * ws.length → d.mem a = c.mem a) :
    d.Top ws where
  words := by rw [hrsp, wordsAt_congr hmem, h.words]
  room := by
    rw [hrsp]
    exact h.room

/-! ## One word -/

theorem toNat_push (w : UInt64) (h : 8 ≤ c.rsp.toNat) : (c.push w).rsp.toNat = c.rsp.toNat - 8 := by
  change (c.rsp - 8).toNat = _
  exact UInt64.toNat_sub_of_le _ _ (UInt64.le_iff_toNat_le.2 h)

theorem push_outside (h : 8 ≤ c.rsp.toNat) {a : ℕ} (ha : a < c.rsp.toNat - 8 ∨ c.rsp.toNat ≤ a) :
    (c.push w).mem a = c.mem a := by
  have hrsp := toNat_push w h
  change (c.rsp - 8).toNat = _ at hrsp
  exact storeLe_outside (by omega)

theorem Top.push (h : c.Top ws) (hroom : 8 ≤ c.rsp.toNat) : (c.push w).Top (w :: ws) where
  words := by
    have hrsp := toNat_push w hroom
    have hword : u64At (c.push w).mem (c.push w).rsp.toNat = w := u64At_storeLe _ _ w
    rw [List.length_cons, wordsAt_succ, hword, hrsp, Nat.sub_add_cancel hroom]
    have hbelow : ∀ b, c.rsp.toNat ≤ b → b < c.rsp.toNat + 8 * ws.length →
        (c.push w).mem b = c.mem b := fun b hlo _ => push_outside hroom (Or.inr hlo)
    rw [wordsAt_congr hbelow, h.words]
  room := by
    have hroom' := h.room
    rw [toNat_push w hroom, List.length_cons]
    omega

/-- The first word is on top. -/
theorem Top.top (h : c.Top (w :: ws)) : c.top = w := by
  have hwords := h.words
  rw [List.length_cons, wordsAt_succ] at hwords
  exact (List.cons.inj hwords).1

/-- The words below the first ones. -/
theorem Top.drop (h : c.Top (vs ++ ws)) {n : UInt64} (hn : n.toNat = 8 * vs.length) :
    (c.drop n).Top ws := by
  cases ws with
  | nil => exact Top.nil _
  | cons w ws =>
    have hroom := h.room
    have hwords := h.words
    rw [List.length_append] at hroom
    rw [List.length_append, wordsAt_add] at hwords
    have hrsp : (c.drop n).rsp.toNat = c.rsp.toNat + 8 * vs.length := by
      rw [← hn]
      refine Word.toNat_add_of_lt ?_
      rw [List.length_cons] at hroom
      omega
    refine ⟨?_, by omega⟩
    rw [hrsp]
    exact (List.append_inj hwords (length_wordsAt _ _ _)).2

theorem Top.word (h : c.Top ws) {i : UInt64} (hi : ws[i.toNat]? = some w) : c.word i = w := by
  have hlt := (List.getElem?_eq_some_iff.1 hi).1
  have hroom := h.room
  have hmul : (8 * i).toNat = 8 * i.toNat := by
    refine Word.toNat_mul_of_lt ?_
    change 8 * i.toNat < 2 ^ 64
    omega
  have hrsp : (c.rsp + 8 * i).toNat = c.rsp.toNat + 8 * i.toNat := by
    rw [Word.toNat_add_of_lt, hmul]
    rw [hmul]
    omega
  rw [← h.words] at hi
  rw [Core.word, hrsp]
  simpa [wordsAt, hlt] using hi

/-! ## Many words -/

@[simp] theorem pushAll_nil (c : Core) : c.pushAll [] = c := rfl

@[simp] theorem pushAll_cons (c : Core) (v : UInt64) (vs : List UInt64) :
    c.pushAll (v :: vs) = (c.push v).pushAll vs := rfl

theorem toNat_pushAll (h : 8 * vs.length ≤ c.rsp.toNat) :
    (c.pushAll vs).rsp.toNat = c.rsp.toNat - 8 * vs.length := by
  induction vs generalizing c with
  | nil => rfl
  | cons v vs ih =>
    rw [List.length_cons] at h ⊢
    have hpush := toNat_push (c := c) v (by omega)
    rw [pushAll_cons, ih (by omega), hpush]
    omega

theorem pushAll_outside (h : 8 * vs.length ≤ c.rsp.toNat) {a : ℕ}
    (ha : a < c.rsp.toNat - 8 * vs.length ∨ c.rsp.toNat ≤ a) : (c.pushAll vs).mem a = c.mem a := by
  induction vs generalizing c with
  | nil => rfl
  | cons v vs ih =>
    rw [List.length_cons] at h ha
    have hpush := toNat_push (c := c) v (by omega)
    rw [pushAll_cons, ih (by omega) (by omega), push_outside (by omega) (by omega)]

/-- Pushing changes only the stack pointer and memory. -/
theorem pushAll_eq (c : Core) (vs : List UInt64) :
    c.pushAll vs = { c with rsp := (c.pushAll vs).rsp, mem := (c.pushAll vs).mem } := by
  induction vs generalizing c with
  | nil => rfl
  | cons v vs ih => exact ih (c.push v)

/-- The code segment and the flags do not matter to pushing. -/
theorem pushAll_with (c : Core) (vs : List UInt64) (cs : UInt16) (rflags : UInt64) :
    { c.pushAll vs with cs := cs, rflags := rflags } =
      Core.pushAll { c with cs := cs, rflags := rflags } vs := by
  induction vs generalizing c with
  | nil => rfl
  | cons v vs ih => exact ih (c.push v)

theorem pushAll_append (c : Core) (vs vs' : List UInt64) :
    (c.pushAll vs).pushAll vs' = c.pushAll (vs ++ vs') := (List.foldl_append ..).symm

theorem Top.pushAll (h : c.Top ws) (hroom : 8 * vs.length ≤ c.rsp.toNat) :
    (c.pushAll vs).Top (vs.reverse ++ ws) := by
  induction vs generalizing c ws with
  | nil => exact h
  | cons v vs ih =>
    rw [List.length_cons] at hroom
    have hpush := toNat_push (c := c) v (by omega)
    rw [List.reverse_cons, List.append_assoc]
    exact ih (h.push (by omega)) (by omega)

/-! ## Registers -/

@[simp] theorem regs_pushAll (c : Core) (vs : List UInt64) : (c.pushAll vs).regs = c.regs := by
  rw [pushAll_eq]

@[simp] theorem rflags_pushAll (c : Core) (vs : List UInt64) :
    (c.pushAll vs).rflags = c.rflags := by
  rw [pushAll_eq]

/-- The words of a list are pushed, the first one first. -/
theorem execAll_pushImm (status : Core → UInt64) (vs : List UInt64) (c : Core) :
    execAll status (vs.map .pushImm) c = some (c.pushAll vs) := by
  induction vs generalizing c with
  | nil => rfl
  | cons v vs ih => exact ih (c.push v)

/-- The registers of a list are pushed, the first one first. -/
theorem execAll_push (status : Core → UInt64) (rs : List Reg) (c : Core) :
    execAll status (rs.map .push) c = some (c.pushAll (rs.map c.regs)) := by
  induction rs generalizing c with
  | nil => rfl
  | cons r rs ih => exact ih (c.push (c.regs r))

/-- The registers of a list are popped, the first one first. -/
theorem Top.popRegs (status : Core → UInt64) {rs : List Reg} {saved : Reg → UInt64}
    (h : c.Top (rs.map saved ++ ws)) :
    ∃ d, execAll status (rs.map .pop) c = some d ∧ d.Top ws ∧
      d.regs = (fun r => if r ∈ rs then saved r else c.regs r) ∧
      d = { c with regs := d.regs, rsp := d.rsp } := by
  induction rs generalizing c with
  | nil => exact ⟨c, rfl, h, by simp, rfl⟩
  | cons r rs ih =>
    have hpopped : ((c.drop 8).set r c.top).Top (rs.map saved ++ ws) :=
      ((show c.Top ([saved r] ++ (rs.map saved ++ ws)) from h).drop rfl).congr rfl fun _ _ _ => rfl
    obtain ⟨d, hexec, htop, hregs, hd⟩ := ih hpopped
    refine ⟨d, hexec, htop, ?_, hd⟩
    rw [hregs]
    funext q
    have hvalue : c.top = saved r := h.top
    by_cases hq : q ∈ rs
    · simp [hq]
    · by_cases hqr : q = r
      · simp [hqr, Core.set, hvalue]
      · simp [hq, hqr, Core.set, Core.drop]

/-- The words of an interrupt go back to where they came from. -/
theorem Top.iret {rip cs rflags rsp ss : UInt64}
    (h : c.Top (rip :: cs :: rflags :: rsp :: ss :: ws)) (hcs : c.CanEnter cs.toUInt16)
    (hss : ss.toUInt16 = 0 ∨ c.CanLoad .ss ss.toUInt16) :
    c.iret = some ⟨{ c with
      cs := cs.toUInt16
      rflags := rflags
      rsp := rsp
      segs := Function.update c.segs .ss ss.toUInt16 }, rip⟩ := by
  rw [Core.iret, h.top, h.word (i := 1) rfl, h.word (i := 2) rfl, h.word (i := 3) rfl,
    h.word (i := 4) rfl]
  exact if_pos ⟨hcs, hss⟩

end Core

end X86
