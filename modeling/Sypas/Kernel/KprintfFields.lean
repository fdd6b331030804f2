import Sypas.Kernel.Console

/-!
# Numbers behind labels

A line such as `RIP=%016lx CS=%04lx` shows numbers behind labels. From a format and its
arguments one can list the labels and the numbers, and the text that is printed has each
number in digits that read back as it.

## Main definitions

- `Sypas.Labelled` — a text shows a number behind a label
- `Sypas.numberFields` — the labels and the numbers of a format and its arguments

## Main results

- `Sypas.render_shows` — what is printed shows them all
-/

namespace Sypas

open Positional

/-- Behind the label the text has digits that read back as the number, and then a character that
    is no digit. -/
def Labelled (label : List Char) (base v : ℕ) (text : List Char) : Prop :=
  ∃ pre ds c post, text = pre ++ label ++ ds ++ c :: post ∧ ds ≠ [] ∧ (∀ d ∈ ds, d ∈ lowerDigits) ∧
    c ∉ lowerDigits ∧ value base (ds.map digitValue) = v

/-- A label, a base and a number. -/
abbrev NumberField : Type := List Char × ℕ × UInt64

/-- The text shows all of them. -/
def ShowsNumbers (fields : List NumberField) (text : List Char) : Prop :=
  ∀ f ∈ fields, Labelled f.1 f.2.1 f.2.2.toNat text

/-- The base of a conversion that prints a 64-bit number in digits only. -/
def fieldBase (spec : Spec) (letter : Char) : Option ℕ :=
  if spec.longs ≠ 0 ∧ (spec.zero = true ∨ spec.width = 0) then
    if letter = 'x' then some 16 else if letter = 'u' then some 10 else none
  else none

/-- The character behind a number is no digit. -/
def endsNumber : List Piece → Bool
  | .char c :: _ => c ∉ lowerDigits
  | _ => false

/-- The labels and the numbers; `label` is what stands in front of the pieces. A label reaches back
    to the last conversion. -/
def numberFields (label : List Char) : List Piece → List Arg → List NumberField
  | .char c :: ps, ap => numberFields (label ++ [c]) ps ap
  | .conv spec letter :: ps, .long v :: ap =>
    (if endsNumber ps then (fieldBase spec letter).toList.map fun base => (label, base, v)
      else []) ++ numberFields [] ps ap
  | .conv _ _ :: ps, _ :: ap => numberFields [] ps ap
  | _, _ => []

/-- A conversion takes one argument. -/
def Piece.takesOne : Piece → Bool
  | char _ => true
  | conv spec letter => (kindsOf spec.longs letter).length = 1

theorem Labelled.within {label : List Char} {base v : ℕ} {text : List Char}
    (h : Labelled label base v text) (before after : List Char) :
    Labelled label base v (before ++ text ++ after) := by
  obtain ⟨pre, ds, c, post, rfl, hds⟩ := h
  exact ⟨before ++ pre, ds, c, post ++ after, by simp, hds⟩

theorem value_replicate_zero (b n : ℕ) (ds : List ℕ) :
    value b (List.replicate n 0 ++ ds) = value b ds := by
  induction n with
  | zero => rfl
  | succ n ih =>
    rw [List.replicate_succ, List.cons_append, value, List.foldl_cons, Nat.zero_mul, Nat.zero_add]
    exact ih

/-- A number that is printed in digits only reads back as itself. -/
theorem fieldText_reads {spec : Spec} {letter : Char} {base : ℕ}
    (h : fieldBase spec letter = some base) (v : UInt64) :
    (base = 10 ∨ base = 16) ∧ fieldText spec base false v ≠ [] ∧
      (∀ d ∈ fieldText spec base false v, d ∈ lowerDigits) ∧
      value base ((fieldText spec base false v).map digitValue) = v.toNat := by
  unfold fieldBase at h
  split at h
  · next hplain =>
    have hb : base = 10 ∨ base = 16 := by
      split at h
      · exact Or.inr (Option.some.inj h).symm
      · split at h
        · exact Or.inl (Option.some.inj h).symm
        · cases h
    have hlen := length_digits_uint64 hb v
    -- the fill consists of zeros, or there is none
    have hfill : ∃ n, fieldText spec base false v =
        List.replicate n '0' ++ digitText false (digits base v.toNat) := by
      obtain ⟨-, hzero | hwidth⟩ := hplain
      · exact ⟨_, by rw [fieldText, hzero]; rfl⟩
      · refine ⟨0, ?_⟩
        have hroom : -2 ^ 31 ≤ (0 : Int32).toInt - (digits base v.toNat).length := by
          change -2 ^ 31 ≤ (0 : ℤ) - _
          omega
        have hpad := toInt_padding hlen hroom
        change (padding 0 _ : ℤ) = max 0 ((0 : ℤ) - _) at hpad
        have hnone : padding spec.width (digits base v.toNat).length = 0 := by
          rw [hwidth]
          omega
        rw [fieldText, hnone]
        rfl
    obtain ⟨n, hn⟩ := hfill
    rw [hn]
    refine ⟨hb, ?_, fun d hd => ?_, ?_⟩
    · have hpos := length_digits_pos (b := base) (v := v.toNat)
      intro hnil
      have hlen' := congrArg List.length hnil
      rw [List.length_append, length_digitText, List.length_nil] at hlen'
      omega
    · obtain hd | hd := List.mem_append.1 hd
      · rw [List.eq_of_mem_replicate hd]
        decide
      · exact List.mem_of_mem_take (mem_digitText hb hd)
    · rw [List.map_append, List.map_replicate, show digitValue '0' = 0 by decide,
        value_replicate_zero, value_digitText hb]
  · cases h

theorem convert_field {spec : Spec} {letter : Char} {base : ℕ}
    (h : fieldBase spec letter = some base) (v : UInt64) (ap : List Arg) :
    convert spec letter (.long v :: ap) = .ok (fieldText spec base false v, ap) := by
  unfold fieldBase at h
  split at h
  · next hplain =>
    have hkind : (Arg.long v).kind = intKind spec.longs := (if_neg hplain.1).symm
    split at h
    · next hx =>
      cases h
      rw [hx]
      exact convert_hex (.inl rfl) hkind ap
    · split at h
      · next hu =>
        cases h
        rw [hu]
        exact convert_unsigned hkind ap
      · cases h
  · cases h

theorem ShowsNumbers.within {fields : List NumberField} {text : List Char}
    (h : ShowsNumbers fields text) (before after : List Char) :
    ShowsNumbers fields (before ++ text ++ after) :=
  fun f hf => (h f hf).within before after

theorem ShowsNumbers.append {fields fields' : List NumberField} {text text' : List Char}
    (h : ShowsNumbers fields text) (h' : ShowsNumbers fields' text') :
    ShowsNumbers (fields ++ fields') (text ++ text') := by
  intro f hf
  obtain hf | hf := List.mem_append.1 hf
  · exact (h f hf).within [] text'
  · have hwithin := (h' f hf).within text []
    rwa [List.append_nil] at hwithin

/-- What is printed shows the numbers behind their labels. -/
theorem render_shows {ps : List Piece} {ap : List Arg} {out : List Char}
    (h : render ps ap = .ok out) (hkinds : ps.flatMap Piece.kinds = ap.map Arg.kind)
    (hone : ∀ p ∈ ps, p.takesOne = true) (label : List Char) :
    ShowsNumbers (numberFields label ps ap) (label ++ out) := by
  induction ps generalizing ap out label with
  | nil => exact fun f hf => absurd hf List.not_mem_nil
  | cons p ps ih =>
    have hone' : ∀ p ∈ ps, p.takesOne = true := fun p hp => hone p (List.mem_cons_of_mem _ hp)
    cases p with
    | char c =>
      rw [render] at h
      cases hrest : render ps ap with
      | error fault =>
        rw [hrest] at h
        cases h
      | ok out' =>
        rw [hrest] at h
        cases h
        have hshown := ih hrest hkinds hone' (label ++ [c])
        rwa [List.append_assoc] at hshown
    | conv spec letter =>
      obtain ⟨args, ap', rfl, hargs, hap'⟩ := List.map_eq_append_iff.1 hkinds.symm
      have hlen : args.length = 1 := by
        have hk := congrArg List.length hargs
        rw [List.length_map] at hk
        exact hk.trans (of_decide_eq_true (hone (.conv spec letter) List.mem_cons_self))
      obtain ⟨a, rfl⟩ := List.length_eq_one_iff.1 hlen
      obtain ⟨text, htext⟩ := convert_of_kinds spec letter hargs
      rw [render, htext] at h
      change (render ps ap').map (text ++ ·) = .ok out at h
      cases hrest : render ps ap' with
      | error fault =>
        rw [hrest] at h
        cases h
      | ok out' =>
        rw [hrest] at h
        cases h
        have hshown : ShowsNumbers (numberFields [] ps ap') (label ++ (text ++ out')) := by
          have hrec := (ih hrest hap'.symm hone' []).within (label ++ text) []
          simpa using hrec
        cases a with
        | int v => exact hshown
        | str v => exact hshown
        | ptr v => exact hshown
        | long v =>
          rw [List.singleton_append, numberFields]
          intro f hf
          obtain hf | hf := List.mem_append.1 hf
          · by_cases hend : endsNumber ps = true
            · rw [if_pos hend] at hf
              obtain ⟨base, hbase, rfl⟩ := List.mem_map.1 hf
              have hbase' := Option.mem_toList.1 hbase
              obtain ⟨-, hne, hdigits, hvalue⟩ := fieldText_reads hbase' v
              have hprinted : text = fieldText spec base false v :=
                (congrArg Prod.fst (Except.ok.inj
                  ((htext ap').symm.trans (convert_field hbase' v ap'))))
              -- the next piece is the character that ends the number
              cases ps with
              | nil => cases hend
              | cons p ps =>
                cases p with
                | conv spec' letter' => cases hend
                | char c =>
                  have hc : c ∉ lowerDigits := of_decide_eq_true hend
                  rw [render] at hrest
                  cases hrest' : render ps ap' with
                  | error fault =>
                    rw [hrest'] at hrest
                    cases hrest
                  | ok out'' =>
                    rw [hrest'] at hrest
                    cases hrest
                    rw [hprinted]
                    exact ⟨[], _, c, out'', by simp, hne, hdigits, hc, hvalue⟩
            · rw [if_neg hend] at hf
              cases hf
          · exact hshown f hf

/-- What a call of `kprintf` shows. -/
def shownBy (fmt : String) (ap : List Arg) : Option (List NumberField) :=
  (pieces fmt).bind fun ps => if ps.all Piece.takesOne then some (numberFields [] ps ap) else none

section Log

open Interaction Program

variable {img : KernelImage} {prompt : Bool} {k s : Kernel} {b g : Board} {out : List UInt8}
  {text : List Char} {R : KernelEnd → Kernel → Board → Prop} {Q : Unit → Kernel → Board → Prop}

/-- The log goes on with a text that shows the numbers. -/
theorem Logged.kprintf_shows (h : Logged img prompt k b out text s g) {fmt : String}
    {ap : List Arg} {fields : List NumberField}
    (hkinds : formatKinds fmt = some (ap.map Arg.kind)) (hshown : shownBy fmt ap = some fields)
    (hnext : ∀ new s' g', ShowsNumbers fields new →
      Logged img prompt k b out (text ++ new) s' g' → Q () s' g') :
    (kprintf fmt ap).wp (hardware img prompt) R Q s g := by
  refine h.kprintf_wp hkinds fun new s' g' hnew h' => hnext new s' g' ?_ h'
  obtain ⟨ps, hps, hfields⟩ := Option.bind_eq_some_iff.1 hshown
  rw [formatKinds, hps] at hkinds
  rw [kvprintf_eq_render hps] at hnew
  split at hfields
  · next hone =>
    cases hfields
    exact render_shows hnew (Option.some.inj hkinds) (List.all_eq_true.1 hone) []
  · cases hfields

/-- A format without conversions is printed as it is. -/
theorem kvprintf_plain {fmt : String} {cs : List Char} (h : pieces fmt = some (cs.map .char)) :
    kvprintf (literal fmt) [] = .ok cs := by
  rw [kvprintf_eq_render h]
  clear h
  induction cs with
  | nil => rfl
  | cons c cs ih => rw [List.map_cons, render, ih]; rfl

theorem Logged.kprintf_plain (h : Logged img prompt k b out text s g) {fmt : String}
    (hplain : pieces fmt = some (fmt.toList.map .char))
    (hnext : ∀ s' g', Logged img prompt k b out (text ++ fmt.toList) s' g' → Q () s' g') :
    (kprintf fmt []).wp (hardware img prompt) R Q s g :=
  h.kprintf_text (kvprintf_plain hplain) hnext

end Log

end Sypas
