import Sypas.Kernel.KprintfNumber

/-!
# Formats as sequences of directives

A format string is a sequence of ordinary characters and conversion specifications. The last
specification may be cut short by the terminator.

## Main definitions

- `Sypas.Directive`, `Sypas.formatOf` — the grammar of complete formats
- `Sypas.Supplies` — an argument list with a value of the right type for each conversion
- `Sypas.Prints` — what a sequence of directives prints wherever it stands in a format

## Main results

- `Sypas.exists_splits` — every format is a complete one, up to one cut specification at its end
- `Sypas.exists_prints` — complete formats with their arguments print without a fault
- `Sypas.kvprintf_reads_inside_iff` — the formatter stays inside exactly the complete formats
-/

namespace Sypas

open Positional

/-! ## The grammar -/

abbrev IsDigit (c : Char) : Prop := '0' ≤ c ∧ c ≤ '9'

def digitChar (d : Fin 10) : Char := Char.ofNat (48 + d)

/-- A specification behind its `%` and in front of its conversion character. Only behind the flag
    may the field width begin with a zero. -/
structure SpecText where
  zero : Bool
  width : List (Fin 10)
  longs : ℕ
  width_head : zero = false → width.head? ≠ some 0

def SpecText.chars (s : SpecText) : List Char :=
  (if s.zero then ['0'] else []) ++ s.width.map digitChar ++ List.replicate s.longs 'l'

/-- A whole specification. -/
structure Conversion extends SpecText where
  letter : Char
  letter_ne_nul : letter ≠ '\x00'
  letter_ne_l : letter ≠ 'l'
  letter_not_digit : longs = 0 → ¬IsDigit letter

inductive Directive where
  | literal (c : Char) (h : c ≠ '%')
  | conversion (c : Conversion)

def Directive.chars : Directive → List Char
  | .literal c _ => [c]
  | .conversion c => '%' :: (c.toSpecText.chars ++ [c.letter])

def formatOf (ds : List Directive) : List Char := ds.flatMap Directive.chars

/-- The end of a format: nothing, or a specification without its conversion character. -/
def cutChars : Option SpecText → List Char
  | none => []
  | some s => '%' :: s.chars

/-- `fmt` is a sequence of directives with a possibly cut one behind it. -/
def Splits (fmt : List Char) (ds : List Directive) (cut : Option SpecText) : Prop :=
  fmt = formatOf ds ++ cutChars cut

/-- No specification of the format is cut short by the terminator. -/
def Complete (fmt : CString) : Prop := ∃ ds, Splits fmt.chars ds none

/-! ## Arguments -/

/-- The type of an integer argument. -/
def intKind (longs : ℕ) : ArgKind := if longs = 0 then .int else .long

/-- The arguments that a conversion takes. -/
def kindsOf (longs : ℕ) (letter : Char) : List ArgKind :=
  match letter with
  | 's' => [.str]
  | 'c' => [.int]
  | 'd' | 'i' | 'u' | 'x' | 'X' => [intKind longs]
  | 'p' => [.ptr]
  | _ => []

def Directive.kinds : Directive → List ArgKind
  | .literal _ _ => []
  | .conversion c => kindsOf c.longs c.letter

/-- The argument list begins with a value of the right type for each conversion. -/
def Supplies (fmt : CString) (ap : List Arg) : Prop :=
  ∀ ds cut, Splits fmt.chars ds cut → ds.flatMap Directive.kinds <+: ap.map Arg.kind

/-! ## Scanning a specification -/

/-- The value that the width loop computes, with the wrap of `int`. -/
def SpecText.widthValue (s : SpecText) : Int32 :=
  s.width.foldl (fun width (d : Fin 10) => width * 10 + Int32.ofNat d.val) 0

def SpecText.spec (s : SpecText) : Spec := ⟨s.zero, s.widthValue, s.longs⟩

/-- The scan of the specification stops in front of `rest`. Behind an `l` also a digit stops it. -/
def SpecText.Stops (s : SpecText) (rest : List Char) : Prop :=
  ∀ c ∈ rest.head?, c ≠ 'l' ∧ (s.longs = 0 → ¬IsDigit c)

theorem digitChar_toNat (d : Fin 10) : (digitChar d).toNat = 48 + d := by
  fin_cases d <;> rfl

theorem isDigit_iff (c : Char) : IsDigit c ↔ 48 ≤ c.toNat ∧ c.toNat ≤ 57 := Iff.rfl

theorem isDigit_digitChar (d : Fin 10) : IsDigit (digitChar d) := by
  rw [isDigit_iff, digitChar_toNat]
  omega

theorem exists_digitChar {c : Char} (h : IsDigit c) : ∃ d, c = digitChar d := by
  rw [isDigit_iff] at h
  refine ⟨⟨c.toNat - 48, by omega⟩, Char.toNat_inj.1 ?_⟩
  rw [digitChar_toNat]
  exact (Nat.add_sub_cancel' h.1).symm

theorem scanWidth_digits (width : Int32) (ds : List (Fin 10)) (rest : List Char) :
    scanWidth width (ds.map digitChar ++ rest) =
      scanWidth (ds.foldl (fun width (d : Fin 10) => width * 10 + Int32.ofNat d.val) width)
        rest := by
  induction ds generalizing width with
  | nil => rfl
  | cons d ds ih =>
    have hvalue : (digitChar d).toNat - 48 = d := by rw [digitChar_toNat, Nat.add_sub_cancel_left]
    rw [List.map_cons, List.cons_append, scanWidth, if_pos (isDigit_digitChar d), ih, hvalue]
    rfl

theorem scanWidth_of_not_digit {width : Int32} {rest : List Char}
    (h : ∀ c ∈ rest.head?, ¬IsDigit c) : scanWidth width rest = (width, rest) := by
  cases rest with
  | nil => rfl
  | cons c rest => rw [scanWidth, if_neg (h c rfl)]

theorem scanLongs_replicate (n k : ℕ) (rest : List Char) (h : ∀ c ∈ rest.head?, c ≠ 'l') :
    scanLongs k (List.replicate n 'l' ++ rest) = (k + n, rest) := by
  induction n generalizing k with
  | zero =>
    cases rest with
    | nil => rfl
    | cons c rest =>
      rw [List.replicate_zero, List.nil_append, scanLongs, if_neg (h c rfl)]
      rfl
  | succ n ih =>
    rw [List.replicate_succ, List.cons_append, scanLongs, if_pos rfl, ih]
    congr 1
    omega

/-- Without the flag the scan does not mistake the first digit of the width for it. -/
theorem scanZero_chars (s : SpecText) {rest : List Char} (h : s.Stops rest) :
    scanZero (s.chars ++ rest) =
      (s.zero, s.width.map digitChar ++ (List.replicate s.longs 'l' ++ rest)) := by
  obtain ⟨zero, width, longs, hwidth⟩ := s
  cases zero with
  | true => simp [SpecText.chars, scanZero]
  | false =>
    have hscan : ∀ fmt : List Char, (∀ c ∈ fmt.head?, c ≠ '0') → scanZero fmt = (false, fmt) := by
      intro fmt hfmt
      cases fmt with
      | nil => rfl
      | cons c fmt => rw [scanZero, if_neg (hfmt c rfl)]
    simp only [SpecText.chars, Bool.false_eq_true, if_false, List.nil_append, List.append_assoc]
    apply hscan
    intro c hc
    cases width with
    | cons d width =>
      rw [List.map_cons, List.cons_append, List.head?_cons, Option.mem_some_iff] at hc
      subst hc
      intro hzero
      have hd : (d : ℕ) = 0 := by
        have hnat := congrArg Char.toNat hzero
        rw [digitChar_toNat] at hnat
        change 48 + (d : ℕ) = 48 at hnat
        omega
      exact hwidth rfl (congrArg some (Fin.ext hd))
    | nil =>
      cases longs with
      | zero =>
        intro hzero
        exact (h c hc).2 rfl (hzero ▸ by decide)
      | succ longs =>
        rw [List.map_nil, List.nil_append, List.replicate_succ, List.cons_append, List.head?_cons,
          Option.mem_some_iff] at hc
        subst hc
        decide

theorem scanSpec_chars (s : SpecText) {rest : List Char} (h : s.Stops rest) :
    scanSpec (s.chars ++ rest) = (s.spec, rest) := by
  have hdigits : ∀ c ∈ (List.replicate s.longs 'l' ++ rest).head?, ¬IsDigit c := by
    intro c hc
    cases hlongs : s.longs with
    | zero =>
      rw [hlongs] at hc
      exact (h c hc).2 hlongs
    | succ longs =>
      rw [hlongs, List.replicate_succ, List.cons_append, List.head?_cons,
        Option.mem_some_iff] at hc
      subst hc
      decide
  unfold scanSpec
  rw [scanZero_chars s h]
  dsimp only
  rw [scanWidth_digits, scanWidth_of_not_digit hdigits]
  dsimp only
  rw [scanLongs_replicate _ _ _ fun c hc => (h c hc).1, Nat.zero_add]
  rfl

/-! ## Every format splits -/

theorem exists_digits (fmt : List Char) :
    ∃ ds rest, fmt = List.map digitChar ds ++ rest ∧ ∀ c ∈ rest.head?, ¬IsDigit c := by
  induction fmt with
  | nil => exact ⟨[], [], rfl, fun c hc => nomatch hc⟩
  | cons c fmt ih =>
    by_cases hc : IsDigit c
    · obtain ⟨d, rfl⟩ := exists_digitChar hc
      obtain ⟨ds, rest, rfl, hrest⟩ := ih
      exact ⟨d :: ds, rest, rfl, hrest⟩
    · refine ⟨[], c :: fmt, rfl, fun c' hc' => ?_⟩
      rw [List.head?_cons, Option.mem_some_iff] at hc'
      exact hc' ▸ hc

theorem exists_longs (fmt : List Char) :
    ∃ n rest, fmt = List.replicate n 'l' ++ rest ∧ ∀ c ∈ rest.head?, c ≠ 'l' := by
  induction fmt with
  | nil => exact ⟨0, [], rfl, fun c hc => nomatch hc⟩
  | cons c fmt ih =>
    by_cases hc : c = 'l'
    · obtain ⟨n, rest, rfl, hrest⟩ := ih
      exact ⟨n + 1, rest, by rw [hc, List.replicate_succ, List.cons_append], hrest⟩
    · refine ⟨0, c :: fmt, rfl, fun c' hc' => ?_⟩
      rw [List.head?_cons, Option.mem_some_iff] at hc'
      exact hc' ▸ hc

theorem exists_specText (fmt : List Char) :
    ∃ (s : SpecText) (rest : List Char), fmt = s.chars ++ rest ∧ s.Stops rest := by
  obtain ⟨ds, rest, rfl, hrest⟩ := exists_digits fmt
  obtain ⟨n, rest, rfl, hlongs⟩ := exists_longs rest
  have hstops : ∀ c ∈ rest.head?, c ≠ 'l' ∧ (n = 0 → ¬IsDigit c) := by
    refine fun c hc => ⟨hlongs c hc, fun hn => hrest c ?_⟩
    rw [hn]
    exact hc
  cases ds with
  | nil => exact ⟨⟨false, [], n, fun _ h => nomatch h⟩, rest, rfl, hstops⟩
  | cons d ds =>
    by_cases hd : d = 0
    · subst hd
      refine ⟨⟨true, ds, n, fun h => nomatch h⟩, rest, ?_, hstops⟩
      simp only [SpecText.chars, if_true, List.append_assoc]
      rfl
    · refine ⟨⟨false, d :: ds, n, fun _ h => hd (Option.some.inj h)⟩, rest, ?_, hstops⟩
      simp [SpecText.chars]

theorem exists_splits_of_not_mem (fmt : List Char) (hnul : '\x00' ∉ fmt) :
    ∃ ds cut, Splits fmt ds cut := by
  induction hn : fmt.length using Nat.strong_induction_on generalizing fmt with
  | _ n ih =>
    cases fmt with
    | nil => exact ⟨[], none, rfl⟩
    | cons c fmt =>
      rw [List.length_cons] at hn
      by_cases hc : c = '%'
      · subst hc
        obtain ⟨s, rest, rfl, hstops⟩ := exists_specText fmt
        cases rest with
        | nil =>
          -- the terminator cuts the specification short
          refine ⟨[], some s, ?_⟩
          simp [Splits, formatOf, cutChars]
        | cons letter rest =>
          have hletter : letter ≠ '\x00' := by
            intro h
            apply hnul
            simp [h]
          obtain ⟨ds, cut, hsplit⟩ := ih rest.length
            (by rw [List.length_append, List.length_cons] at hn; omega) rest
            (fun h => hnul (by simp [h])) rfl
          let conv : Conversion :=
            ⟨s, letter, hletter, (hstops letter rfl).1, (hstops letter rfl).2⟩
          refine ⟨.conversion conv :: ds, cut, ?_⟩
          rw [Splits] at hsplit
          rw [hsplit]
          simp [Splits, formatOf, Directive.chars, conv]
      · obtain ⟨ds, cut, hsplit⟩ := ih fmt.length (by omega) fmt
          (fun h => hnul (List.mem_cons_of_mem _ h)) rfl
        refine ⟨.literal c hc :: ds, cut, ?_⟩
        rw [Splits] at hsplit
        rw [hsplit]
        simp [Splits, formatOf, Directive.chars]

/-- Every format is a sequence of directives, up to one that the terminator cuts short. -/
theorem exists_splits (fmt : CString) : ∃ ds cut, Splits fmt.chars ds cut :=
  exists_splits_of_not_mem fmt.chars fmt.nul_not_mem

/-! ## What directives print -/

/-- Wherever `ds` stands in a format, it takes `args` and prints `out`. -/
def Prints (ds : List Directive) (args : List Arg) (out : List Char) : Prop :=
  ∀ rest ap, kvprintfFrom (formatOf ds ++ rest) (args ++ ap) =
    (kvprintfFrom rest ap).map (out ++ ·)

theorem Except.map_map {ε α β γ : Type} (f : α → β) (g : β → γ) (x : Except ε α) :
    (x.map f).map g = x.map (g ∘ f) := by
  cases x <;> rfl

theorem Prints.nil : Prints [] [] [] := by
  intro rest ap
  change kvprintfFrom rest ap = (kvprintfFrom rest ap).map id
  cases kvprintfFrom rest ap <;> rfl

theorem Prints.append {ds ds' : List Directive} {args args' : List Arg} {out out' : List Char}
    (h : Prints ds args out) (h' : Prints ds' args' out') :
    Prints (ds ++ ds') (args ++ args') (out ++ out') := by
  intro rest ap
  have hformat : formatOf (ds ++ ds') ++ rest = formatOf ds ++ (formatOf ds' ++ rest) := by
    simp [formatOf]
  rw [hformat, List.append_assoc, h, h', Except.map_map]
  congr 1
  funext x
  simp

theorem Prints.literal {c : Char} (hc : c ≠ '%') : Prints [.literal c hc] [] [c] := by
  intro rest ap
  change kvprintfFrom (c :: rest) ap = _
  rw [kvprintfFrom, if_pos hc]
  cases kvprintfFrom rest ap <;> rfl

theorem Conversion.stops (c : Conversion) (rest : List Char) :
    c.toSpecText.Stops (c.letter :: rest) := by
  intro letter hletter
  rw [List.head?_cons, Option.mem_some_iff] at hletter
  subst hletter
  exact ⟨c.letter_ne_l, c.letter_not_digit⟩

theorem Directive.conversion_chars_append (c : Conversion) (rest : List Char) :
    Directive.chars (.conversion c) ++ rest = '%' :: (c.toSpecText.chars ++ c.letter :: rest) := by
  simp [Directive.chars]

/-- One run of the loop over a conversion: the scan finds the specification, and the pointer
    stops behind the conversion character. -/
theorem kvprintfFrom_conversion (c : Conversion) (rest : List Char) (ap : List Arg) :
    kvprintfFrom (Directive.chars (.conversion c) ++ rest) ap =
      (convert c.spec c.letter ap).bind fun converted =>
        (kvprintfFrom rest converted.2).map (converted.1 ++ ·) := by
  rw [Directive.conversion_chars_append, kvprintfFrom, if_neg (not_not.2 rfl),
    scanSpec_chars _ (c.stops rest)]
  simp only [deref, advance, List.headD_cons]
  cases convert c.spec c.letter ap with
  | error fault => rfl
  | ok converted => rfl

theorem scanSpec_cut (s : SpecText) : scanSpec s.chars = (s.spec, []) := by
  have h := scanSpec_chars s (fun c hc => nomatch hc : s.Stops [])
  rwa [List.append_nil] at h

/-- A specification that the terminator cuts short sends the pointer behind it. -/
theorem kvprintfFrom_cut (s : SpecText) (ap : List Arg) :
    kvprintfFrom ('%' :: s.chars) ap = .error .pastTerminator := by
  rw [kvprintfFrom, if_neg (not_not.2 rfl), scanSpec_cut]
  rfl

/-- The value that `%d` takes from an integer argument. -/
def Arg.signed : Arg → Int64
  | .int v => v.toInt32.toInt64
  | .long v => v.toInt64
  | _ => 0

/-- The value that `%u` takes from an integer argument. -/
def Arg.unsigned : Arg → UInt64
  | .int v => v.toUInt64
  | .long v => v
  | _ => 0

theorem vaSigned_eq {longs : ℕ} {a : Arg} (h : a.kind = intKind longs) (ap : List Arg) :
    vaSigned longs (a :: ap) = .ok (a.signed, ap) := by
  by_cases hlongs : longs = 0
  · rw [intKind, if_pos hlongs] at h
    cases a <;> simp_all [Arg.kind, vaSigned, Arg.signed]
  · rw [intKind, if_neg hlongs] at h
    cases a <;> simp_all [Arg.kind, vaSigned, Arg.signed]

theorem vaUnsigned_eq {longs : ℕ} {a : Arg} (h : a.kind = intKind longs) (ap : List Arg) :
    vaUnsigned longs (a :: ap) = .ok (a.unsigned, ap) := by
  by_cases hlongs : longs = 0
  · rw [intKind, if_pos hlongs] at h
    cases a <;> simp_all [Arg.kind, vaUnsigned, Arg.unsigned]
  · rw [intKind, if_neg hlongs] at h
    cases a <;> simp_all [Arg.kind, vaUnsigned, Arg.unsigned]

/-- What `emit_uint` prints for the fields of a specification. -/
def fieldText (spec : Spec) (base : ℕ) (upper : Bool) (v : UInt64) : List Char :=
  List.replicate (padding spec.width (digits base v.toNat).length)
    (if spec.zero then '0' else ' ') ++ digitText upper (digits base v.toNat)

/-- The magnitude that `%d` prints. -/
def magnitude (v : Int64) : UInt64 := if v < 0 then 0 - v.toUInt64 else v.toUInt64

theorem convert_signed {spec : Spec} {letter : Char} (hletter : letter = 'd' ∨ letter = 'i')
    {a : Arg} (h : a.kind = intKind spec.longs) (ap : List Arg) :
    convert spec letter (a :: ap) = .ok ((if a.signed < 0 then ['-'] else []) ++
      fieldText spec 10 false (magnitude a.signed), ap) := by
  have hemit := @emitUint_eq 10 (.inl rfl) (magnitude a.signed) false spec.width spec.zero
  obtain rfl | rfl := hletter
  all_goals
    simp only [convert, vaSigned_eq h ap]
    change Except.bind (emitUint (magnitude a.signed) 10 false spec.width spec.zero) _ = _
    rw [hemit]
    rfl

theorem convert_unsigned {spec : Spec} {a : Arg} (h : a.kind = intKind spec.longs)
    (ap : List Arg) :
    convert spec 'u' (a :: ap) = .ok (fieldText spec 10 false a.unsigned, ap) := by
  simp only [convert, vaUnsigned_eq h ap]
  change Except.bind (emitUint a.unsigned 10 false spec.width spec.zero) _ = _
  rw [emitUint_eq (.inl rfl)]
  rfl

theorem convert_hex {spec : Spec} {letter : Char} (hletter : letter = 'x' ∨ letter = 'X')
    {a : Arg} (h : a.kind = intKind spec.longs) (ap : List Arg) :
    convert spec letter (a :: ap) =
      .ok (fieldText spec 16 (letter = 'X') a.unsigned, ap) := by
  obtain rfl | rfl := hletter
  all_goals
    simp only [convert, vaUnsigned_eq h ap]
    change Except.bind (emitUint a.unsigned 16 _ spec.width spec.zero) _ = _
    rw [emitUint_eq (.inr rfl)]
    rfl

/-- A conversion with an argument of its type takes it and has no fault. -/
theorem convert_of_kinds (spec : Spec) (letter : Char) {args : List Arg}
    (h : args.map Arg.kind = kindsOf spec.longs letter) :
    ∃ out, ∀ ap, convert spec letter (args ++ ap) = .ok (out, ap) := by
  have hone : ∀ {k}, args.map Arg.kind = [k] → ∃ a, args = [a] ∧ a.kind = k :=
    fun hk => List.map_eq_singleton_iff.1 hk
  unfold kindsOf at h
  split at h
  · obtain ⟨a, rfl, ha⟩ := hone h
    cases a with
    | str s => exact ⟨_, fun ap => rfl⟩
    | int v | long v | ptr v => nomatch ha
  · obtain ⟨a, rfl, ha⟩ := hone h
    cases a with
    | int v => exact ⟨_, fun ap => rfl⟩
    | str v | long v | ptr v => nomatch ha
  · obtain ⟨a, rfl, ha⟩ := hone h
    exact ⟨_, convert_signed (.inl rfl) ha⟩
  · obtain ⟨a, rfl, ha⟩ := hone h
    exact ⟨_, convert_signed (.inr rfl) ha⟩
  · obtain ⟨a, rfl, ha⟩ := hone h
    exact ⟨_, convert_unsigned ha⟩
  · obtain ⟨a, rfl, ha⟩ := hone h
    exact ⟨_, convert_hex (.inl rfl) ha⟩
  · obtain ⟨a, rfl, ha⟩ := hone h
    exact ⟨_, convert_hex (.inr rfl) ha⟩
  · obtain ⟨a, rfl, ha⟩ := hone h
    cases a with
    | ptr v =>
      refine ⟨"0x".toList ++ fieldText ⟨true, 16, 0⟩ 16 false v, fun ap => ?_⟩
      change Except.bind (emitUint v 16 false 16 true) _ = _
      rw [emitUint_eq (.inr rfl)]
      rfl
    | str v | long v | int v => nomatch ha
  · rw [List.map_eq_nil_iff] at h
    subst h
    unfold convert
    split
    all_goals first | exact ⟨_, fun ap => rfl⟩ | contradiction

theorem exists_prints (ds : List Directive) {args : List Arg}
    (h : args.map Arg.kind = ds.flatMap Directive.kinds) : ∃ out, Prints ds args out := by
  induction ds generalizing args with
  | nil =>
    rw [List.flatMap_nil, List.map_eq_nil_iff] at h
    subst h
    exact ⟨[], Prints.nil⟩
  | cons d ds ih =>
    rw [List.flatMap_cons, List.map_eq_append_iff] at h
    obtain ⟨first, others, rfl, hfirst, hothers⟩ := h
    obtain ⟨out', hout'⟩ := ih hothers
    have hhead : ∃ out, Prints [d] first out := by
      cases d with
      | literal c hc =>
        rw [Directive.kinds, List.map_eq_nil_iff] at hfirst
        subst hfirst
        exact ⟨[c], Prints.literal hc⟩
      | conversion c =>
        obtain ⟨out, hout⟩ := convert_of_kinds c.spec c.letter hfirst
        refine ⟨out, fun rest ap => ?_⟩
        rw [formatOf, List.flatMap_singleton, kvprintfFrom_conversion, hout]
        rfl
    obtain ⟨out, hout⟩ := hhead
    exact ⟨out ++ out', hout.append hout'⟩

/-! ## The bounds of the format -/

theorem formatOf_cons_append (d : Directive) (ds : List Directive) (rest : List Char) :
    formatOf (d :: ds) ++ rest = d.chars ++ (formatOf ds ++ rest) := by
  simp [formatOf]

theorem Splits.of_nil {ds : List Directive} {cut : Option SpecText} (h : Splits [] ds cut) :
    ds = [] := by
  cases ds with
  | nil => rfl
  | cons d ds =>
    rw [Splits, formatOf_cons_append] at h
    cases d with
    | literal c hc => nomatch h
    | conversion c => nomatch h

theorem Splits.of_literal {c : Char} {fmt : List Char} {ds : List Directive}
    {cut : Option SpecText} (hc : c ≠ '%') (h : Splits (c :: fmt) ds cut) :
    ∃ ds', ds = .literal c hc :: ds' ∧ Splits fmt ds' cut := by
  cases ds with
  | nil =>
    cases cut with
    | none => nomatch h
    | some s => exact absurd (List.cons.inj h).1 hc
  | cons d ds =>
    rw [Splits, formatOf_cons_append] at h
    cases d with
    | literal c' hc' =>
      obtain ⟨rfl, hrest⟩ := List.cons.inj h
      exact ⟨ds, rfl, hrest⟩
    | conversion c' => exact absurd (List.cons.inj h).1 hc

/-- Behind a `%` the scan decides between a conversion and a cut specification. -/
theorem Splits.of_percent {fmt : List Char} {ds : List Directive} {cut : Option SpecText}
    (h : Splits ('%' :: fmt) ds cut) :
    (ds = [] ∧ (scanSpec fmt).2 = []) ∨
      ∃ c ds', ds = .conversion c :: ds' ∧
        scanSpec fmt = (c.spec, c.letter :: (formatOf ds' ++ cutChars cut)) := by
  cases ds with
  | nil =>
    cases cut with
    | none => nomatch h
    | some s =>
      obtain ⟨-, rfl⟩ := List.cons.inj h
      exact .inl ⟨rfl, by rw [scanSpec_cut]⟩
  | cons d ds =>
    rw [Splits, formatOf_cons_append] at h
    cases d with
    | literal c hc => exact absurd (List.cons.inj h).1.symm hc
    | conversion c =>
      rw [Directive.conversion_chars_append] at h
      obtain ⟨-, rfl⟩ := List.cons.inj h
      exact .inr ⟨c, ds, rfl, scanSpec_chars _ (c.stops _)⟩

/-- A format splits in one way, as far as its arguments are concerned. -/
theorem Splits.kinds_eq {fmt : List Char} {ds ds' : List Directive} {cut cut' : Option SpecText}
    (h : Splits fmt ds cut) (h' : Splits fmt ds' cut') :
    ds.flatMap Directive.kinds = ds'.flatMap Directive.kinds := by
  induction ds generalizing fmt ds' with
  | nil =>
    cases fmt with
    | nil => rw [h'.of_nil]
    | cons c fmt =>
      by_cases hc : c = '%'
      · subst hc
        obtain ⟨-, hscan⟩ | ⟨_, _, hds, -⟩ := h.of_percent
        · obtain ⟨rfl, -⟩ | ⟨c', ds'', rfl, hscan'⟩ := h'.of_percent
          · rfl
          · rw [hscan'] at hscan
            nomatch hscan
        · nomatch hds
      · obtain ⟨_, hds, -⟩ := h.of_literal hc
        nomatch hds
  | cons d ds ih =>
    cases d with
    | literal c hc =>
      rw [Splits, formatOf_cons_append] at h
      subst h
      obtain ⟨ds'', rfl, hrest⟩ := Splits.of_literal hc h'
      rw [List.flatMap_cons, List.flatMap_cons, ih rfl hrest]
    | conversion c =>
      rw [Splits, formatOf_cons_append, Directive.conversion_chars_append] at h
      subst h
      have hscan := scanSpec_chars c.toSpecText (c.stops (formatOf ds ++ cutChars cut))
      obtain ⟨-, hcut⟩ | ⟨c', ds'', rfl, hscan'⟩ := h'.of_percent
      · rw [hscan] at hcut
        nomatch hcut
      · obtain ⟨hspec, hrest⟩ := Prod.mk.inj (hscan.symm.trans hscan')
        obtain ⟨hletter, hrest⟩ := List.cons.inj hrest
        have hlongs : c.longs = c'.longs := congrArg Spec.longs hspec
        rw [List.flatMap_cons, List.flatMap_cons, ih rfl hrest, Directive.kinds, Directive.kinds,
          hletter, hlongs]

theorem supplies_iff {fmt : CString} {ap : List Arg} {ds : List Directive}
    {cut : Option SpecText} (hsplit : Splits fmt.chars ds cut) :
    Supplies fmt ap ↔ ds.flatMap Directive.kinds <+: ap.map Arg.kind :=
  ⟨fun h => h ds cut hsplit, fun h _ _ hsplit' => hsplit.kinds_eq hsplit' ▸ h⟩

/-- For every format and argument list: the formatter returns exactly when no specification is cut
    short by the terminator, and otherwise it reads behind the terminator. -/
theorem kvprintf_reads_inside_iff (fmt : CString) (ap : List Arg) (h : Supplies fmt ap) :
    ((∃ out, kvprintf fmt ap = .ok out) ↔ Complete fmt) ∧
      (kvprintf fmt ap = .error .pastTerminator ↔ ¬Complete fmt) := by
  have hrun : ∀ ds cut, Splits fmt.chars ds cut → ∃ out extra,
      kvprintf fmt ap = (kvprintfFrom (cutChars cut) extra).map (out ++ ·) := by
    intro ds cut hsplit
    obtain ⟨extra, hextra⟩ := h ds cut hsplit
    obtain ⟨args, rest, rfl, hargs, -⟩ := List.map_eq_append_iff.1 hextra.symm
    obtain ⟨out, hout⟩ := exists_prints ds hargs
    refine ⟨out, rest, ?_⟩
    rw [kvprintf, hsplit, hout]
  by_cases hcomplete : Complete fmt
  · obtain ⟨ds, hsplit⟩ := hcomplete
    obtain ⟨out', extra, hout⟩ := hrun ds none hsplit
    rw [cutChars, kvprintfFrom] at hout
    rw [hout]
    exact ⟨⟨fun _ => ⟨ds, hsplit⟩, fun _ => ⟨_, rfl⟩⟩,
      ⟨by rintro ⟨⟩, fun hcut => absurd ⟨ds, hsplit⟩ hcut⟩⟩
  · obtain ⟨ds, cut, hsplit⟩ := exists_splits fmt
    cases cut with
    | none => exact absurd ⟨ds, hsplit⟩ hcomplete
    | some s =>
      obtain ⟨out', extra, hout⟩ := hrun ds (some s) hsplit
      rw [cutChars, kvprintfFrom_cut] at hout
      rw [hout]
      exact ⟨⟨by rintro ⟨out, ⟨⟩⟩, fun hok => absurd hok hcomplete⟩,
        ⟨fun _ => hcomplete, fun _ => rfl⟩⟩

/-- `%08x` and a newline. -/
def hexFormat : CString := ⟨['%', '0', '8', 'x', '\n'], by decide⟩

theorem hexFormat_splits :
    Splits hexFormat.chars [.conversion ⟨⟨true, [8], 0, by decide⟩, 'x', by decide, by decide,
      by decide⟩, .literal '\n' (by decide)] none := rfl

theorem hexFormat_reads_inside :
    ((∃ out, kvprintf hexFormat [.int 48879] = .ok out) ↔ Complete hexFormat) ∧
      (kvprintf hexFormat [.int 48879] = .error .pastTerminator ↔ ¬Complete hexFormat) :=
  kvprintf_reads_inside_iff _ _ ((supplies_iff hexFormat_splits).2 (by decide))

/-- A lone `%`. -/
def percentFormat : CString := ⟨['%'], by decide⟩

theorem percentFormat_reads_outside :
    Supplies percentFormat [] ∧ ¬∃ out, kvprintf percentFormat [] = .ok out := by
  let s : SpecText := ⟨false, [], 0, fun _ h => nomatch h⟩
  have hsplit : Splits percentFormat.chars [] (some s) := rfl
  have hfault : kvprintf percentFormat [] = .error .pastTerminator := kvprintfFrom_cut s []
  refine ⟨(supplies_iff hsplit).2 List.nil_prefix, ?_⟩
  rintro ⟨out, hout⟩
  rw [hfault] at hout
  nomatch hout

end Sypas
