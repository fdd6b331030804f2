import Sypas.Lib.Memory

/-!
# Records in memory

A record is a set of unsigned little-endian fields at fixed offsets. The layout carries
the proof that no two fields overlap, so that a field is read back as it was last
written, whatever was written to the others.

## Main definitions

- `Layout` — offsets and widths of fields that do not overlap
- `Layout.get`, `Layout.set` — the field of a record at an address
- `Layout.assignAll` — assignments to several fields

## Main results

- `Layout.get_set`, `Layout.get_assignAll` — reading after writing
-/

namespace Ram

/-- Store the `n` low bytes of `v` at `a`. -/
def writeLe (a n v : ℕ) : StateM Ram Unit := do
  note true a n
  modify fun s => { s with mem := storeLe s.mem a n v }

@[simp] theorem writeLe_run (a n v : ℕ) (s : Ram) :
    writeLe a n v s = ((), ⟨storeLe s.mem a n v, ⟨true, a, n⟩ :: s.log⟩) := rfl

theorem leNat_storeLe_of_apart (mem : ℕ → UInt8) {a n v b k : ℕ} (h : b + k ≤ a ∨ a + n ≤ b) :
    leNat (storeLe mem a n v) b k = leNat mem b k :=
  leNat_congr fun c hlo hhi => storeLe_outside (by omega)

theorem leNat_storeLe_self (mem : ℕ → UInt8) (a n v : ℕ) :
    leNat (storeLe mem a n v) a n = v % 256 ^ n := by
  have h := leNat_storeLe_add mem a n v (j := 0) (k := n) (by omega)
  rwa [Nat.add_zero, pow_zero, Nat.div_one] at h

end Ram

open Ram

/-- Fields `F` at fixed offsets in a record of `size` bytes. -/
structure Layout (F : Type) where
  offset : F → ℕ
  width : F → ℕ
  size : ℕ
  inside : ∀ f, offset f + width f ≤ size
  apart : ∀ f f', f ≠ f' → offset f + width f ≤ offset f' ∨ offset f' + width f' ≤ offset f

namespace Layout

variable {F : Type} (L : Layout F) (mem : ℕ → UInt8) (a : ℕ)

/-- Field `f` of the record at `a`. -/
def get (f : F) : ℕ := leNat mem (a + L.offset f) (L.width f)

/-- `mem` with field `f` of the record at `a` set to `v`. -/
def set (f : F) (v : ℕ) : ℕ → UInt8 := storeLe mem (a + L.offset f) (L.width f) v

/-- The assignment `a->f = v`. -/
def assign (f : F) (v : ℕ) : StateM Ram Unit := writeLe (a + L.offset f) (L.width f) v

theorem assign_mem (f : F) (v : ℕ) (s : Ram) :
    (L.assign a f v s).2.mem = L.set s.mem a f v := rfl

/-- The fields depend only on the bytes of the record. -/
theorem get_congr {mem mem' : ℕ → UInt8} {a : ℕ}
    (h : ∀ b, a ≤ b → b < a + L.size → mem' b = mem b) (f : F) :
    L.get mem' a f = L.get mem a f := by
  have hin := L.inside f
  exact leNat_congr fun b hlo hhi => h b (by omega) (by omega)

theorem set_outside {mem : ℕ → UInt8} {a b : ℕ} (f : F) (v : ℕ) (h : b < a ∨ a + L.size ≤ b) :
    L.set mem a f v b = mem b := by
  have hin := L.inside f
  exact storeLe_outside (by omega)

variable [DecidableEq F]

/-- A field keeps what was last written to it. -/
theorem get_set (f f' : F) (v : ℕ) : L.get (L.set mem a f v) a f' =
    if f' = f then v % 256 ^ L.width f else L.get mem a f' := by
  by_cases h : f' = f
  · subst h
    rw [if_pos rfl, get, set, leNat_storeLe_self]
  · rw [if_neg h, get, set, leNat_storeLe_of_apart]
    · rfl
    · obtain hle | hle := L.apart f' f h
      · exact Or.inl (by omega)
      · exact Or.inr (by omega)

/-! ## Several assignments -/

/-- The assignments of a list, in its order. -/
def assignAll (a : ℕ) : List (F × ℕ) → StateM Ram Unit
  | [] => pure ()
  | p :: rest => do
    L.assign a p.1 p.2
    assignAll a rest

/-- A field holds what the last assignment to it has stored. -/
theorem get_assignAll (a : ℕ) (fields : List (F × ℕ)) (f : F) (s : Ram) :
    L.get (L.assignAll a fields s).2.mem a f =
      fields.foldl (fun old p => if f = p.1 then p.2 % 256 ^ L.width p.1 else old)
        (L.get s.mem a f) := by
  induction fields generalizing s with
  | nil => rfl
  | cons p rest ih =>
    rw [assignAll, Prog.bind_run, ih, assign_mem, get_set, List.foldl_cons]

omit [DecidableEq F] in
theorem assignAll_outside {a b : ℕ} {fields : List (F × ℕ)} (s : Ram)
    (h : b < a ∨ a + L.size ≤ b) : (L.assignAll a fields s).2.mem b = s.mem b := by
  induction fields generalizing s with
  | nil => rfl
  | cons p rest ih =>
    rw [assignAll, Prog.bind_run, ih, assign_mem, set_outside _ _ _ h]

end Layout
