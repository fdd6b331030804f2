import Mathlib

/-!
# Insertion from the right

Insertion sort on an array keeps a sorted prefix and moves the next element down
past every larger one. Element by element this is Mathlib's stable
`List.insertionSort`, which inserts from the other end.

## Main definitions

- `StableSort.insertAfter` — insert after every element with a smaller or equal key
- `StableSort.sortBy` — Mathlib's insertion sort, by a key

## Main results

- `StableSort.sortBy_concat` — inserting one more element from the right keeps the
  list stably sorted
- `StableSort.filter_sortBy` — elements with equal keys keep their order
- `StableSort.sortBy_eq_of_perm` — with distinct keys the input order is immaterial
-/

namespace StableSort

variable {α β : Type*} [LinearOrder β] (key : α → β)

/-- Insert `x` before the first element with a larger key. -/
def insertAfter (x : α) : List α → List α
  | [] => [x]
  | b :: l => if key b ≤ key x then b :: insertAfter x l else x :: b :: l

/-- The scan from the right stops at once when the last key is not larger. -/
theorem insertAfter_concat_of_le {x b : α} {l : List α}
    (hsorted : (l ++ [b]).Pairwise fun u v => key u ≤ key v) (h : key b ≤ key x) :
    insertAfter key x (l ++ [b]) = l ++ [b, x] := by
  induction l with
  | nil => simp [insertAfter, h]
  | cons a l ih =>
    obtain ⟨hhead, htail⟩ := List.pairwise_cons.1 hsorted
    have ha : key a ≤ key x := (hhead b (by simp)).trans h
    rw [List.cons_append, insertAfter, if_pos ha, ih htail, List.cons_append]

/-- The scan from the right passes a last element with a larger key. -/
theorem insertAfter_concat_of_lt {x b : α} (l : List α) (h : key x < key b) :
    insertAfter key x (l ++ [b]) = insertAfter key x l ++ [b] := by
  induction l with
  | nil => simp [insertAfter, not_le.2 h]
  | cons a l ih =>
    rw [List.cons_append, insertAfter, insertAfter]
    split
    · rw [ih, List.cons_append]
    · rfl

/-- An earlier element enters before its equals, a later one after them, and the
    two insertions commute. -/
theorem orderedInsert_insertAfter (a x : α) (l : List α) :
    List.orderedInsert (fun u v => key u ≤ key v) a (insertAfter key x l) =
      insertAfter key x (List.orderedInsert (fun u v => key u ≤ key v) a l) := by
  induction l with
  | nil =>
    by_cases hax : key a ≤ key x <;> simp [insertAfter, hax]
  | cons b l ih =>
    by_cases hab : key a ≤ key b
    · by_cases hbx : key b ≤ key x
      · have hax := hab.trans hbx
        simp [insertAfter, List.orderedInsert, hab, hbx, hax]
      · by_cases hax : key a ≤ key x <;>
          simp [insertAfter, List.orderedInsert, hab, hbx, hax]
    · by_cases hbx : key b ≤ key x
      · simp [insertAfter, List.orderedInsert, hab, hbx, ih]
      · have hax : ¬key a ≤ key x := fun h => hbx ((not_le.1 hab).le.trans h)
        simp [insertAfter, List.orderedInsert, hab, hbx, hax]

/-- Mathlib's insertion sort, by a key. -/
def sortBy (l : List α) : List α := l.insertionSort fun u v => key u ≤ key v

theorem sortBy_concat (x : α) (l : List α) :
    sortBy key (l ++ [x]) = insertAfter key x (sortBy key l) := by
  induction l with
  | nil => rfl
  | cons a l ih =>
    unfold sortBy at ih ⊢
    rw [List.cons_append, List.insertionSort_cons, List.insertionSort_cons, ih,
      orderedInsert_insertAfter]

theorem perm_sortBy (l : List α) : (sortBy key l).Perm l := List.perm_insertionSort _ l

theorem pairwise_sortBy (l : List α) : (sortBy key l).Pairwise fun u v => key u ≤ key v := by
  have : Std.Total fun u v : α => key u ≤ key v := ⟨fun u v => le_total (key u) (key v)⟩
  have : IsTrans α fun u v : α => key u ≤ key v := ⟨fun _ _ _ => le_trans⟩
  exact List.pairwise_insertionSort _ l

theorem filter_orderedInsert {p : α → Bool} (hp : ∀ a b, p a → p b → key a = key b) (a : α)
    (l : List α) : (List.orderedInsert (fun u v => key u ≤ key v) a l).filter p =
      (a :: l).filter p := by
  induction l with
  | nil => rfl
  | cons b l ih =>
    rw [List.orderedInsert]
    split
    · rfl
    · rename_i hab
      rw [List.filter_cons, ih]
      by_cases ha : p a = true
      · have hb : ¬p b = true := fun hb => hab (hp a b ha hb).le
        rw [if_neg hb, List.filter_cons_of_pos ha, List.filter_cons_of_pos ha,
          List.filter_cons_of_neg hb]
      · rw [List.filter_cons_of_neg ha, List.filter_cons_of_neg ha, List.filter_cons]

/-- Stability: elements with one key keep their order. -/
theorem filter_sortBy {p : α → Bool} (hp : ∀ a b, p a → p b → key a = key b) (l : List α) :
    (sortBy key l).filter p = l.filter p := by
  induction l with
  | nil => rfl
  | cons a l ih =>
    unfold sortBy at ih ⊢
    rw [List.insertionSort_cons, filter_orderedInsert key hp, List.filter_cons, List.filter_cons,
      ih]

theorem map_sortBy {γ : Type*} (f : γ → α) (l : List γ) :
    (sortBy (key ∘ f) l).map f = sortBy key (l.map f) :=
  List.map_insertionSort _ _ _ _ fun _ _ _ _ => Iff.rfl

/-- When the sorted keys are distinct, the order of the input is immaterial. -/
theorem sortBy_eq_of_perm {l l' : List α} (hperm : l.Perm l')
    (hlt : (sortBy key l).Pairwise fun u v => key u < key v) : sortBy key l' = sortBy key l := by
  have hsort : (sortBy key l').Perm (sortBy key l) :=
    (perm_sortBy key l').trans (hperm.symm.trans (perm_sortBy key l).symm)
  have hnodup : ((sortBy key l).map key).Nodup := List.pairwise_map.2 (hlt.imp fun h => h.ne)
  refine List.Perm.eq_of_pairwise (fun a b ha hb hab hba => ?_) (pairwise_sortBy key l')
    (pairwise_sortBy key l) hsort
  exact List.inj_on_of_nodup_map hnodup (hsort.subset ha) hb (le_antisymm hab hba)

end StableSort
