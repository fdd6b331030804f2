import Sypas.Kernel.KprintfFormat

/-!
# Numeric conversions and C's `printf`

`kvprintf` emits the sign of a number before it pads, and pads without counting the sign. C pads
the number with its sign.

## Main definitions

- `Sypas.printfField`, `Sypas.printfText` — what C prescribes for `%d`, `%i`, `%u`, `%x`, `%X`

## Main results

- `Sypas.printfText_iff` — the formatter agrees with C unless a negative number is to be padded
-/

namespace Sypas

open Positional

/-! ## C's conversions -/

/-- A number in its field: blanks stand in front of the sign, zeros behind it. -/
def printfField (zero : Bool) (width : ℕ) (sign digits : List Char) : List Char :=
  let fill := width - (sign.length + digits.length)
  if zero then sign ++ List.replicate fill '0' ++ digits
  else List.replicate fill ' ' ++ sign ++ digits

theorem length_printfField (zero : Bool) (width : ℕ) (sign digits : List Char) :
    (printfField zero width sign digits).length = max width (sign.length + digits.length) := by
  cases zero
  all_goals
    simp [printfField]
    omega

/-- The signed value of an integer argument. -/
def Arg.toInt : Arg → ℤ
  | .int v => v.toBitVec.toInt
  | .long v => v.toBitVec.toInt
  | _ => 0

/-- The unsigned value of an integer argument. -/
def Arg.toNat : Arg → ℕ
  | .int v => v.toNat
  | .long v => v.toNat
  | _ => 0

def Conversion.IsSigned (c : Conversion) : Prop := c.letter = 'd' ∨ c.letter = 'i'

def Conversion.IsNumeric (c : Conversion) : Prop :=
  c.IsSigned ∨ c.letter = 'u' ∨ c.letter = 'x' ∨ c.letter = 'X'

/-- The field width, without a bound. -/
def SpecText.fieldWidth (s : SpecText) : ℕ := value 10 (s.width.map Fin.val)

/-- What C prints for a numeric conversion. -/
def printfText (c : Conversion) (a : Arg) : List Char :=
  match c.letter with
  | 'u' => printfField c.zero c.fieldWidth [] (digitText false (digits 10 a.toNat))
  | 'x' => printfField c.zero c.fieldWidth [] (digitText false (digits 16 a.toNat))
  | 'X' => printfField c.zero c.fieldWidth [] (digitText true (digits 16 a.toNat))
  | _ => printfField c.zero c.fieldWidth (if a.toInt < 0 then ['-'] else [])
      (digitText false (digits 10 a.toInt.natAbs))

/-! ## Widths -/

theorem toInt_foldl_width (ds : List (Fin 10)) (h : value 10 (ds.map Fin.val) < 2 ^ 31) :
    (ds.foldl (fun width (d : Fin 10) => width * 10 + Int32.ofNat d.val) 0).toInt =
      value 10 (ds.map Fin.val) := by
  induction ds using List.reverseRecOn with
  | nil => rfl
  | append_singleton ds d ih =>
    have hten : (10 : Int32).toInt = 10 := rfl
    have hd : (Int32.ofNat d.val).toInt = d.val := by
      fin_cases d <;> rfl
    rw [List.map_append, List.map_singleton, value_append_singleton] at h ⊢
    have hmul : ((value 10 (ds.map Fin.val) : ℤ) * 10).bmod (2 ^ 32) =
        value 10 (ds.map Fin.val) * 10 := toInt_bmod (by omega) (by omega)
    rw [List.foldl_append, List.foldl_cons, List.foldl_nil, Int32.toInt_add, Int32.toInt_mul,
      ih (by omega), hten, hd, hmul, toInt_bmod (by omega) (by omega)]
    push_cast
    rfl

/-- The width loop does not overflow below `2 ^ 31`. -/
theorem SpecText.toInt_widthValue (s : SpecText) (h : s.fieldWidth < 2 ^ 31) :
    s.widthValue.toInt = s.fieldWidth :=
  toInt_foldl_width s.width h

theorem padding_eq {width : Int32} {w n : ℕ} (h : width.toInt = w) (hn : n ≤ 20) :
    padding width n = w - n := by
  have hfill := toInt_padding hn (show -2 ^ 31 ≤ width.toInt - n by omega)
  omega

/-! ## Arguments -/

theorem toInt_signed (a : Arg) : a.signed.toInt = a.toInt := by
  cases a with
  | int v => exact Int32.toInt_toInt64 _
  | long v => rfl
  | str s => rfl
  | ptr v => rfl

theorem toNat_unsigned (a : Arg) : a.unsigned.toNat = a.toNat := by
  cases a with
  | int v => exact UInt32.toNat_toUInt64 v
  | long v => rfl
  | str s => rfl
  | ptr v => rfl

/-- The negation in `u64` is the magnitude, for the least value too. -/
theorem toNat_magnitude (v : Int64) : (magnitude v).toNat = v.toInt.natAbs := by
  have hlow := v.le_toInt
  have hint : v.toInt = if 2 * v.toUInt64.toNat < 2 ^ 64 then (v.toUInt64.toNat : ℤ)
      else v.toUInt64.toNat - 2 ^ 64 := BitVec.toInt_eq_toNat_cond _
  have hlt := v.toUInt64.toNat_lt
  have hzero : (0 : Int64).toInt = 0 := rfl
  have hzero' : (0 : UInt64).toNat = 0 := rfl
  unfold magnitude
  split
  · rename_i hneg
    rw [Int64.lt_iff_toInt_lt, hzero] at hneg
    rw [UInt64.toNat_sub, hzero']
    split at hint <;> omega
  · rename_i hneg
    rw [Int64.lt_iff_toInt_lt, hzero] at hneg
    split at hint <;> omega

/-! ## The comparison -/

theorem prints_conversion_iff {c : Conversion} {args : List Arg} {out out' : List Char}
    (h : ∀ ap, convert c.spec c.letter (args ++ ap) = .ok (out', ap)) :
    Prints [.conversion c] args out ↔ out = out' := by
  have hrun : ∀ rest ap, kvprintfFrom (formatOf [.conversion c] ++ rest) (args ++ ap) =
      (kvprintfFrom rest ap).map (out' ++ ·) := by
    intro rest ap
    rw [formatOf, List.flatMap_singleton, kvprintfFrom_conversion, h]
    rfl
  constructor
  · intro hprints
    have hout := (hprints [] []).symm.trans (hrun [] [])
    rw [kvprintfFrom] at hout
    simpa [Except.map] using hout
  · rintro rfl
    exact hrun

/-- Without a sign the two fields are the same. -/
theorem printfField_nil (zero : Bool) (width : ℕ) (ds : List Char) :
    printfField zero width [] ds =
      List.replicate (width - ds.length) (if zero then '0' else ' ') ++ ds := by
  cases zero <;> simp [printfField]

/-- Behind a minus sign that is not counted the field is one character too long, if it is padded
    at all. -/
theorem printfField_minus_iff (zero : Bool) (width : ℕ) (ds : List Char) :
    printfField zero width ['-'] ds =
        '-' :: (List.replicate (width - ds.length) (if zero then '0' else ' ') ++ ds) ↔
      width ≤ ds.length := by
  constructor
  · intro h
    have hlength := congrArg List.length h
    cases zero
    all_goals
      simp [printfField] at hlength
      omega
  · intro h
    have hfill : width - (1 + ds.length) = 0 := by omega
    cases zero <;> simp [printfField, Nat.sub_eq_zero_of_le h, hfill]

/-- An unsigned field is C's. -/
theorem fieldText_eq {c : Conversion} (hwidth : c.fieldWidth < 2 ^ 31) {b : ℕ}
    (hb : b = 10 ∨ b = 16) (upper : Bool) (v : UInt64) :
    fieldText c.spec b upper v =
      printfField c.zero c.fieldWidth [] (digitText upper (digits b v.toNat)) := by
  rw [printfField_nil, length_digitText, fieldText]
  change List.replicate (padding c.widthValue _) _ ++ _ = _
  rw [padding_eq (c.toInt_widthValue hwidth) (length_digits_uint64 hb v)]
  rfl

theorem printfText_signed {c : Conversion} (hc : c.IsSigned) (a : Arg) :
    printfText c a = printfField c.zero c.fieldWidth (if a.toInt < 0 then ['-'] else [])
      (digitText false (digits 10 a.toInt.natAbs)) := by
  obtain hd | hi := hc
  · rw [printfText, hd]
    rfl
  · rw [printfText, hi]
    rfl

/-- For every numeric conversion, width below `2 ^ 31` and argument: what is printed is what C
    prescribes, unless the number is negative and the field is wider than its digits. -/
theorem printfText_iff (c : Conversion) (hc : c.IsNumeric) (hwidth : c.fieldWidth < 2 ^ 31)
    (a : Arg) (ha : a.kind = intKind c.longs) :
    Prints [.conversion c] [a] (printfText c a) ↔
      ¬(c.IsSigned ∧ a.toInt < 0 ∧ (digits 10 a.toInt.natAbs).length < c.fieldWidth) := by
  obtain hsigned | hletter := hc
  · have hfield : fieldText c.spec 10 false (magnitude a.signed) = printfField c.zero c.fieldWidth
        [] (digitText false (digits 10 a.toInt.natAbs)) := by
      rw [fieldText_eq hwidth (.inl rfl), toNat_magnitude, toInt_signed]
    have hneg : a.signed < 0 ↔ a.toInt < 0 := by
      rw [Int64.lt_iff_toInt_lt, toInt_signed]
      rfl
    rw [prints_conversion_iff fun ap => convert_signed hsigned ha ap, printfText_signed hsigned,
      hfield, printfField_nil]
    -- only here do the orders differ: the sign, then the padding behind it
    by_cases hminus : a.toInt < 0
    · rw [if_pos hminus, if_pos (hneg.2 hminus)]
      have hiff := printfField_minus_iff c.zero c.fieldWidth
        (digitText false (digits 10 a.toInt.natAbs))
      rw [length_digitText] at hiff ⊢
      rw [List.singleton_append, hiff]
      exact ⟨fun hle h => absurd h.2.2 (not_lt.2 hle), fun h => not_lt.1 fun hlt =>
        h ⟨hsigned, hminus, hlt⟩⟩
    · rw [if_neg hminus, if_neg (mt hneg.1 hminus), printfField_nil]
      exact ⟨fun _ h => hminus h.2.1, fun _ => rfl⟩
  · have hnot : ¬(c.IsSigned ∧ a.toInt < 0 ∧
        (digits 10 a.toInt.natAbs).length < c.fieldWidth) := by
      rintro ⟨hd | hi, -⟩
      · simp [hd] at hletter
      · simp [hi] at hletter
    refine ⟨fun _ => hnot, fun _ => ?_⟩
    -- no sign, so the padding is where C has it
    obtain hu | hx | hX := hletter
    · have hconvert : ∀ ap, convert c.spec c.letter (a :: ap) =
          .ok (fieldText c.spec 10 false a.unsigned, ap) := by
        rw [hu]
        exact convert_unsigned ha
      rw [prints_conversion_iff hconvert, printfText, hu, fieldText_eq hwidth (.inl rfl),
        toNat_unsigned]
      rfl
    · rw [prints_conversion_iff fun ap => convert_hex (.inl hx) ha ap, printfText, hx,
        fieldText_eq hwidth (.inr rfl), toNat_unsigned]
      rfl
    · rw [prints_conversion_iff fun ap => convert_hex (.inr hX) ha ap, printfText, hX,
        fieldText_eq hwidth (.inr rfl), toNat_unsigned]
      rfl

/-- `%05d`. -/
def zeroFive : Conversion :=
  ⟨⟨true, [5], 0, by decide⟩, 'd', by decide, by decide, by decide⟩

theorem zeroFive_printfText :
    Prints [.conversion zeroFive] [.int 42] (printfText zeroFive (.int 42)) ↔
      ¬(zeroFive.IsSigned ∧ (Arg.int 42).toInt < 0 ∧
        (digits 10 (Arg.int 42).toInt.natAbs).length < zeroFive.fieldWidth) :=
  printfText_iff zeroFive (.inl (.inl rfl)) (by decide) (.int 42) rfl

/-- `-5` printed with `%05d`: six characters for a field of five. -/
theorem zeroFive_minus :
    Prints [.conversion zeroFive] [.int 0xfffffffb] "-00005".toList ∧
      printfText zeroFive (.int 0xfffffffb) = "-0005".toList ∧
      ¬Prints [.conversion zeroFive] [.int 0xfffffffb] (printfText zeroFive (.int 0xfffffffb)) := by
  have hiff : ∀ out, Prints [.conversion zeroFive] [.int 0xfffffffb] out ↔ out = "-00005".toList :=
    fun out => prints_conversion_iff fun ap => convert_signed (.inl rfl) rfl ap
  rw [hiff, hiff]
  decide +kernel

end Sypas
