import Sypas.Kernel.Kprintf
import Sypas.Lib.Positional

/-!
# The numbers that `emit_uint` prints

## Main definitions

- `Sypas.digitText` — digits as characters
- `Sypas.digitValue` — the digit that a character stands for
- `Sypas.padding` — the number of fill characters

## Main results

- `Sypas.fillDigits_eq` — the digit buffer holds the digits, least significant first
- `Sypas.emitUint_eq` — padding, then the digits most significant first
- `Sypas.emitUint_exact` — the digits read back as the number
-/

namespace Sypas

open Positional

/-- The digit characters of `emit_uint`. -/
def digitTable (upper : Bool) : List Char := if upper then upperDigits else lowerDigits

/-- The text of digits, most significant first. -/
def digitText (upper : Bool) (ds : List ℕ) : List Char :=
  ds.map fun d => (digitTable upper).getD d '\x00'

/-- The digit that a character stands for. -/
def digitValue (c : Char) : ℕ :=
  if '0' ≤ c ∧ c ≤ '9' then c.toNat - '0'.toNat
  else if 'a' ≤ c ∧ c ≤ 'f' then c.toNat - 'a'.toNat + 10
  else c.toNat - 'A'.toNat + 10

/-- The number of fill characters in front of `n` characters. -/
def padding (width : Int32) (n : ℕ) : ℕ := (width - Int32.ofNat n).toInt.toNat

@[simp] theorem length_digitText (upper : Bool) (ds : List ℕ) :
    (digitText upper ds).length = ds.length :=
  List.length_map _

/-- The division loop stops within the room it has, with the digits in reverse. -/
theorem fillDigits_eq (dig : List Char) {base : UInt64} (hb : 1 < base.toNat) {room : ℕ}
    {v : UInt64} (buf : List Char) (hroom : (digits base.toNat v.toNat).length ≤ room) :
    fillDigits dig base room v buf =
      .ok (buf ++ ((digits base.toNat v.toNat).map fun d => dig.getD d '\x00').reverse) := by
  induction room generalizing v buf with
  | zero => exact absurd (length_digits_pos.trans_le hroom) (lt_irrefl 0)
  | succ room ih =>
    have hdigits := digits_step (v := v.toNat) hb
    have hquot : (v / base).toNat = v.toNat / base.toNat := UInt64.toNat_div _ _
    have hrem : (v % base).toNat = v.toNat % base.toNat := UInt64.toNat_mod _ _
    have hzero : v / base = 0 ↔ v.toNat / base.toNat = 0 := by
      rw [← UInt64.toNat_inj, hquot]
      rfl
    unfold fillDigits
    by_cases hlast : v / base = 0
    · rw [if_neg (not_not.2 hlast), hdigits, if_pos (hzero.1 hlast), hrem]
      rfl
    · rw [if_neg (mt hzero.2 hlast)] at hdigits
      rw [hdigits, List.length_append, List.length_singleton] at hroom
      rw [if_pos hlast, ih _ (by rw [hquot]; omega), hdigits, hquot, hrem]
      simp

theorem length_digits_uint64 {b : ℕ} (hb : b = 10 ∨ b = 16) (v : UInt64) :
    (digits b v.toNat).length ≤ 20 := by
  have hv := v.toNat_lt
  obtain rfl | rfl := hb
  · exact length_digits_le (by decide) (by decide) (hv.trans_le (by decide))
  · exact length_digits_le (by decide) (by decide) (hv.trans_le (by decide))

/-- `emit_uint` pads and prints the digits. The buffer holds them all. -/
theorem emitUint_eq {base : UInt64} (hb : base.toNat = 10 ∨ base.toNat = 16) (v : UInt64)
    (upper : Bool) (width : Int32) (zero : Bool) :
    emitUint v base upper width zero =
      .ok (List.replicate (padding width (digits base.toNat v.toNat).length)
          (if zero then '0' else ' ') ++ digitText upper (digits base.toNat v.toNat)) := by
  have hfill := fillDigits_eq (digitTable upper) (by omega : 1 < base.toNat) (v := v) []
    ((length_digits_uint64 hb v).trans (by decide : 20 ≤ 24))
  unfold emitUint
  dsimp only
  rw [← digitTable, hfill]
  simp only [List.nil_append]
  change Except.ok _ = _
  rw [List.length_reverse, List.length_map, List.reverse_reverse]
  rfl

/-! ## Reading the number back -/

theorem digitValue_digitTable (upper : Bool) {d : ℕ} (hd : d < 16) :
    digitValue ((digitTable upper).getD d '\x00') = d := by
  have hall : ∀ upper : Bool, ∀ d < 16, digitValue ((digitTable upper).getD d '\x00') = d := by
    decide
  exact hall upper d hd

theorem length_digitTable (upper : Bool) : (digitTable upper).length = 16 := by
  cases upper <;> rfl

section Digits

variable {b : ℕ} (hb : b = 10 ∨ b = 16)

include hb

/-- Digits are printed by the characters of their base. -/
theorem mem_digitText {upper : Bool} {v : ℕ} {c : Char} (hc : c ∈ digitText upper (digits b v)) :
    c ∈ (digitTable upper).take b := by
  obtain ⟨d, hd, rfl⟩ := List.mem_map.1 hc
  have hlt := lt_of_mem_digits (by omega) hd
  have hin : d < ((digitTable upper).take b).length := by
    rw [List.length_take, length_digitTable]
    omega
  have hget := List.getElem_mem hin
  rw [List.getElem_take] at hget
  rwa [List.getD_eq_getElem _ _ (by rw [length_digitTable]; omega)]

theorem value_digitText (upper : Bool) (v : ℕ) :
    value b ((digitText upper (digits b v)).map digitValue) = v := by
  have hread : (digitText upper (digits b v)).map digitValue = digits b v := by
    rw [digitText, List.map_map]
    conv_rhs => rw [← List.map_id (digits b v)]
    refine List.map_congr_left fun d hd => ?_
    have hlt := lt_of_mem_digits (by omega) hd
    exact digitValue_digitTable upper (by omega)
  rw [hread, value_digits (by omega)]

/-- Only zero is printed with a zero in front. -/
theorem head_digitText {upper : Bool} {v : ℕ}
    (h : (digitText upper (digits b v)).head? = some '0') :
    v = 0 ∧ digitText upper (digits b v) = ['0'] := by
  have hv : v = 0 := by
    by_contra hne
    rw [digitText, List.head?_map] at h
    obtain ⟨d, hhead, hd⟩ := Option.map_eq_some_iff.1 h
    have hlt := lt_of_mem_digits (by omega) (List.mem_of_mem_head? hhead)
    have hzero : d = 0 := by
      rw [← digitValue_digitTable upper (show d < 16 by omega), hd]
      rfl
    exact head_digits_ne_zero hne (hzero ▸ hhead)
  subst hv
  refine ⟨rfl, ?_⟩
  rw [digits_of_lt (by omega)]
  cases upper <;> rfl

end Digits

/-! ## The field -/

theorem toInt_bmod {x : ℤ} (h : -2 ^ 31 ≤ x) (h' : x < 2 ^ 31) : x.bmod (2 ^ 32) = x :=
  Int.bmod_eq_of_le (by omega) (by omega)

/-- Where the subtraction does not overflow, the field is filled up to its width. -/
theorem toInt_padding {width : Int32} {n : ℕ} (hn : n ≤ 20) (hwidth : -2 ^ 31 ≤ width.toInt - n) :
    (padding width n : ℤ) = max 0 (width.toInt - n) := by
  have hn' : (Int32.ofNat n).toInt = n := Int32.toInt_ofNat_of_lt (by omega)
  have hlt := width.toInt_lt
  rw [padding, Int32.toInt_sub, hn', toInt_bmod hwidth (by omega)]
  omega

/-- `emit_uint` fills up to the width and prints the number: at most 20 digits of its base, which
    read back as the number, without a leading zero unless the number is zero. The fill is
    `width - n` in C's `int`, where it is positive; this is the difference of the integers
    unless it overflows. -/
theorem emitUint_exact {base : UInt64} (hbase : base = 10 ∨ base = 16) (v : UInt64) (upper : Bool)
    (width : Int32) (zero : Bool) :
    ∃ (fill : ℕ) (ds : List Char),
      emitUint v base upper width zero =
        .ok (List.replicate fill (if zero then '0' else ' ') ++ ds) ∧
      0 < ds.length ∧ ds.length ≤ 20 ∧
      (fill : ℤ) = max 0 (width - Int32.ofNat ds.length).toInt ∧
      (-2 ^ 31 ≤ width.toInt - ds.length → (fill : ℤ) = max 0 (width.toInt - ds.length)) ∧
      (∀ c ∈ ds, c ∈ (digitTable upper).take base.toNat) ∧
      (ds.head? = some '0' → v = 0 ∧ ds = ['0']) ∧
      value base.toNat (ds.map digitValue) = v.toNat := by
  have hb : base.toNat = 10 ∨ base.toNat = 16 := by
    obtain rfl | rfl := hbase
    · exact .inl rfl
    · exact .inr rfl
  have hlen := length_digits_uint64 hb v
  refine ⟨_, _, emitUint_eq hb v upper width zero, ?_, ?_, ?_, ?_, fun c => mem_digitText hb, ?_,
    value_digitText hb upper v.toNat⟩
  · rw [length_digitText]
    exact length_digits_pos
  · rwa [length_digitText]
  · rw [length_digitText, padding]
    omega
  · rw [length_digitText]
    exact toInt_padding hlen
  · intro hhead
    obtain ⟨hv, hds⟩ := head_digitText hb hhead
    exact ⟨UInt64.toNat_inj.1 hv, hds⟩

theorem beef_exact :
    ∃ (fill : ℕ) (ds : List Char),
      emitUint 48879 16 false 8 true = .ok (List.replicate fill '0' ++ ds) ∧
      0 < ds.length ∧ ds.length ≤ 20 ∧
      (fill : ℤ) = max 0 ((8 : Int32) - Int32.ofNat ds.length).toInt ∧
      (-2 ^ 31 ≤ (8 : Int32).toInt - ds.length →
        (fill : ℤ) = max 0 ((8 : Int32).toInt - ds.length)) ∧
      (∀ c ∈ ds, c ∈ (digitTable false).take 16) ∧
      (ds.head? = some '0' → (48879 : UInt64) = 0 ∧ ds = ['0']) ∧
      value 16 (ds.map digitValue) = 48879 :=
  emitUint_exact (.inr rfl) 48879 false 8 true

end Sypas
