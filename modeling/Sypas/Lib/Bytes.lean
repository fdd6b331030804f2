import Mathlib

/-!
# Byte strings

Byte strings that are cut into half-open slices and written slice by slice, numbers
stored least significant byte first, and what a list of writes leaves in a string.

## Main definitions

- `Bytes.slice`, `Bytes.splice` — reading and assigning `b[i:j]`
- `Bytes.leBytes`, `Bytes.leValue` — little-endian numbers
- `PackField`, `PackField.record` — records of packed fields
- `Patch`, `Bytes.patched` — writes, and a string after a list of them

## Main results

- `Bytes.leValue_leBytes` — a number that fits is read back
- `PackField.slice_record` — a packed record is read back field by field
- `Bytes.slice_patched` — disjoint writes are all read back
- `Bytes.slice_patched_of_disjoint` — what no write touches is unchanged
-/

abbrev Bytes := List UInt8

namespace Bytes

/-- `b[i:j]`. -/
def slice (b : Bytes) (i j : ℕ) : Bytes := (b.take j).drop i

/-- `b[i:j] = v`, which changes the length where `v` does not fit the slice. -/
def splice (b : Bytes) (i j : ℕ) (v : Bytes) : Bytes := b.take i ++ v ++ b.drop (max i j)

/-- `n` zero bytes. -/
def zeros (n : ℕ) : Bytes := List.replicate n 0

/-! ## Slices -/

theorem getElem?_slice (b : Bytes) (i j k : ℕ) :
    (b.slice i j)[k]? = if i + k < j then b[i + k]? else none := by
  rw [slice, List.getElem?_drop, List.getElem?_take]

theorem length_slice {b : Bytes} {i j : ℕ} (hj : j ≤ b.length) : (b.slice i j).length = j - i := by
  rw [slice, List.length_drop, List.length_take, min_eq_left hj]

theorem slice_congr {b b' : Bytes} {i j : ℕ} (h : ∀ k, i ≤ k → k < j → b[k]? = b'[k]?) :
    b.slice i j = b'.slice i j := by
  apply List.ext_getElem?
  intro k
  rw [getElem?_slice, getElem?_slice]
  split
  · exact h _ (Nat.le_add_right _ _) ‹_›
  · rfl

/-- A slice of a slice. -/
theorem slice_slice {b : Bytes} {i j i' j' : ℕ} (hj : i + j' ≤ j) :
    (b.slice i j).slice i' j' = b.slice (i + i') (i + j') := by
  apply List.ext_getElem?
  intro k
  simp only [getElem?_slice]
  by_cases hk : i' + k < j'
  · rw [if_pos hk, if_pos (by omega), if_pos (by omega), Nat.add_assoc]
  · rw [if_neg hk, if_neg (by omega)]

/-- Two adjacent slices make one. -/
theorem slice_append_slice {b : Bytes} {i j k : ℕ} (hij : i ≤ j) (hjk : j ≤ k) :
    b.slice i j ++ b.slice j k = b.slice i k := by
  have hlow : b.slice i j = (b.slice i k).take (j - i) := by
    rw [slice, slice, List.take_drop, List.take_take, Nat.add_sub_cancel' hij, min_eq_left hjk]
  have hhigh : b.slice j k = (b.slice i k).drop (j - i) := by
    rw [slice, slice, List.drop_drop, Nat.add_sub_cancel' hij]
  rw [hlow, hhigh, List.take_append_drop]

/-- A slice of the second of two strings. -/
theorem slice_append_right (b c : Bytes) (i j : ℕ) :
    (b ++ c).slice (b.length + i) (b.length + j) = c.slice i j := by
  rw [slice, slice, List.take_length_add_append, List.drop_length_add_append]

/-- The first of two strings. -/
theorem slice_append_left (b c : Bytes) : (b ++ c).slice 0 b.length = b := by
  rw [slice, List.take_left, List.drop_zero]

theorem slice_self (b : Bytes) (i : ℕ) : b.slice i i = [] := by
  apply List.ext_getElem?
  intro k
  rw [getElem?_slice, if_neg (by omega)]
  rfl

/-- The slices of a run of pieces of one width make one slice. -/
theorem flatMap_slice (b : Bytes) {off : ℕ → ℕ} {width s : ℕ} (n : ℕ)
    (hoff : ∀ c, s ≤ c → off (c + 1) = off c + width) :
    (List.range' s n).flatMap (fun c => b.slice (off c) (off c + width)) =
      b.slice (off s) (off s + n * width) := by
  induction n generalizing s with
  | zero => rw [Nat.zero_mul, Nat.add_zero, slice_self]; rfl
  | succ n ih =>
    rw [List.range'_succ, List.flatMap_cons, ih fun c hc => hoff c (by omega), hoff s le_rfl,
      slice_append_slice (by omega) (by omega)]
    congr 1
    ring

theorem slice_zeros {n i j : ℕ} (hj : j ≤ n) : (zeros n).slice i j = zeros (j - i) := by
  rw [zeros, zeros, slice, List.take_replicate, List.drop_replicate, min_eq_left hj]

/-! ## Assigning a slice -/

theorem length_splice {b v : Bytes} {i : ℕ} (hin : i + v.length ≤ b.length) :
    (b.splice i (i + v.length) v).length = b.length := by
  rw [splice, max_eq_right (Nat.le_add_right _ _), List.length_append, List.length_append,
    List.length_take, List.length_drop, min_eq_left (by omega)]
  omega

theorem getElem?_splice {b v : Bytes} {i : ℕ} (hin : i + v.length ≤ b.length) (k : ℕ) :
    (b.splice i (i + v.length) v)[k]? =
      if i ≤ k ∧ k < i + v.length then v[k - i]? else b[k]? := by
  have hlen : (b.take i).length = i := List.length_take_of_le (by omega)
  rw [splice, max_eq_right (Nat.le_add_right _ _), List.append_assoc]
  by_cases hlow : k < i
  · rw [if_neg (by omega), List.getElem?_append_left (by omega), List.getElem?_take_of_lt hlow]
  rw [List.getElem?_append_right (by omega), hlen]
  by_cases hmid : k < i + v.length
  · rw [if_pos (by omega), List.getElem?_append_left (by omega)]
  · rw [if_neg (by omega), List.getElem?_append_right (by omega), List.getElem?_drop]
    congr 1
    omega

theorem slice_splice {b v : Bytes} {i : ℕ} (hin : i + v.length ≤ b.length) :
    (b.splice i (i + v.length) v).slice i (i + v.length) = v := by
  apply List.ext_getElem?
  intro k
  rw [getElem?_slice, getElem?_splice hin]
  by_cases hk : k < v.length
  · rw [if_pos (by omega), if_pos (by omega), Nat.add_sub_cancel_left]
  · rw [if_neg (by omega), List.getElem?_eq_none (by omega)]

/-! ## Little-endian numbers -/

/-- The `n` low bytes of `v`, least significant first. -/
def leBytes : ℕ → ℕ → Bytes
  | 0, _ => []
  | n + 1, v => UInt8.ofNat v :: leBytes n (v / 256)

/-- The number whose bytes are `b`, least significant first. -/
def leValue : Bytes → ℕ
  | [] => 0
  | x :: b => x.toNat + 256 * leValue b

@[simp] theorem length_leBytes (n v : ℕ) : (leBytes n v).length = n := by
  induction n generalizing v with
  | zero => rfl
  | succ n ih => rw [leBytes, List.length_cons, ih]

theorem leValue_leBytes {n v : ℕ} (hfits : v < 256 ^ n) : leValue (leBytes n v) = v := by
  induction n generalizing v with
  | zero =>
    rw [Nat.pow_zero] at hfits
    exact (Nat.lt_one_iff.1 hfits).symm
  | succ n ih =>
    have hdiv : v / 256 < 256 ^ n := Nat.div_lt_of_lt_mul (by rwa [pow_succ'] at hfits)
    have hmod : (UInt8.ofNat v).toNat = v % 256 := UInt8.toNat_ofNat'
    rw [leBytes, leValue, ih hdiv, hmod, Nat.mod_add_div]

end Bytes

/-! ## Records -/

/-- A field of a packed record: `n` bytes of text, or a number in `n` bytes. -/
inductive PackField where
  | text (n : ℕ) (b : Bytes)
  | num (n v : ℕ)

namespace PackField

/-- A number has room in its field. -/
def Fits : PackField → Prop
  | text _ _ => True
  | num n v => v < 256 ^ n

instance : DecidablePred Fits
  | text _ _ => isTrue trivial
  | num n v => inferInstanceAs (Decidable (v < 256 ^ n))

def width : PackField → ℕ
  | text n _ => n
  | num n _ => n

/-- Text is cut or filled up with zeros. -/
def bytes : PackField → Bytes
  | text n b => b.take n ++ Bytes.zeros (n - b.length)
  | num n v => Bytes.leBytes n v

@[simp] theorem length_bytes (f : PackField) : f.bytes.length = f.width := by
  cases f with
  | text n b =>
    rw [bytes, width, Bytes.zeros, List.length_append, List.length_take, List.length_replicate]
    omega
  | num n v => exact Bytes.length_leBytes n v

/-- The fields one after the other. -/
def record (fields : List PackField) : Bytes := fields.flatMap bytes

theorem length_record (fields : List PackField) :
    (record fields).length = (fields.map width).sum := by
  rw [record, List.length_flatMap]
  simp only [length_bytes]

/-- A record is read back field by field. -/
theorem slice_record (pre : List PackField) (f : PackField) (post : List PackField) {i j : ℕ}
    (hi : i = (pre.map width).sum) (hj : j = i + f.width) :
    (record (pre ++ f :: post)).slice i j = f.bytes := by
  have hlen := length_record pre
  rw [record] at hlen
  rw [record, List.flatMap_append, List.flatMap_cons, Bytes.slice, hj, hi, ← hlen,
    ← f.length_bytes, List.take_length_add_append, List.drop_left, List.take_left]

/-- The same, for the field at an index. -/
theorem slice_record_getElem? {fields : List PackField} {k : ℕ} {f : PackField}
    (hf : fields[k]? = some f) {i j : ℕ} (hi : i = ((fields.take k).map width).sum)
    (hj : j = i + f.width) : (record fields).slice i j = f.bytes ∧ j ≤ (record fields).length := by
  obtain ⟨hlt, hget⟩ := List.getElem?_eq_some_iff.1 hf
  obtain ⟨pre, post, hsplit, hlen⟩ : ∃ pre post, fields = pre ++ f :: post ∧ pre.length = k := by
    refine ⟨fields.take k, fields.drop (k + 1), ?_, List.length_take_of_le hlt.le⟩
    rw [← hget, List.cons_getElem_drop_succ, List.take_append_drop]
  subst hsplit
  rw [List.take_left' hlen] at hi
  refine ⟨slice_record pre f post hi hj, ?_⟩
  rw [length_record, List.map_append, List.sum_append, List.map_cons, List.sum_cons]
  omega

end PackField

/-! ## Writes -/

/-- The bytes that one write puts at `off`. -/
structure Patch where
  off : ℕ
  bytes : Bytes

namespace Patch

/-- The first offset after the write. -/
def stop (w : Patch) : ℕ := w.off + w.bytes.length

/-- Two writes that share no offset. -/
def Disjoint (w w' : Patch) : Prop := w.stop ≤ w'.off ∨ w'.stop ≤ w.off

/-- `b[off:off+len] = bytes`. -/
def apply (b : Bytes) (w : Patch) : Bytes := b.splice w.off w.stop w.bytes

theorem Disjoint.symm {w w' : Patch} (h : w.Disjoint w') : w'.Disjoint w := Or.symm h

end Patch

namespace Bytes

/-- A byte string after the writes `ws`. -/
def patched (b : Bytes) (ws : List Patch) : Bytes := ws.foldl Patch.apply b

theorem length_patched {b : Bytes} {ws : List Patch} (hin : ∀ w ∈ ws, w.stop ≤ b.length) :
    (b.patched ws).length = b.length := by
  induction ws generalizing b with
  | nil => rfl
  | cons w ws ih =>
    have hlen : (w.apply b).length = b.length := length_splice (hin w List.mem_cons_self)
    refine (ih fun w' hw' => ?_).trans hlen
    rw [hlen]
    exact hin w' (List.mem_cons_of_mem _ hw')

/-- A byte that no write touches is unchanged. -/
theorem getElem?_patched {b : Bytes} {ws : List Patch} (hin : ∀ w ∈ ws, w.stop ≤ b.length) {k : ℕ}
    (hk : ∀ w ∈ ws, k < w.off ∨ w.stop ≤ k) : (b.patched ws)[k]? = b[k]? := by
  induction ws generalizing b with
  | nil => rfl
  | cons w ws ih =>
    have hhead := hin w List.mem_cons_self
    have hlen : (w.apply b).length = b.length := length_splice hhead
    have hkept : (w.apply b)[k]? = b[k]? := by
      have hout := hk w List.mem_cons_self
      rw [Patch.stop] at hout
      exact (getElem?_splice hhead k).trans (if_neg (by omega))
    refine (ih (fun w' hw' => ?_) fun w' hw' => hk w' (List.mem_cons_of_mem _ hw')).trans hkept
    rw [hlen]
    exact hin w' (List.mem_cons_of_mem _ hw')

theorem slice_patched_of_disjoint {b : Bytes} {ws : List Patch}
    (hin : ∀ w ∈ ws, w.stop ≤ b.length) {i j : ℕ} (hdisjoint : ∀ w ∈ ws, j ≤ w.off ∨ w.stop ≤ i) :
    (b.patched ws).slice i j = b.slice i j := by
  refine slice_congr fun k hik hkj => getElem?_patched hin fun w hw => ?_
  have := hdisjoint w hw
  omega

/-- Disjoint writes are all there at the end. -/
theorem slice_patched {b : Bytes} {ws : List Patch} (hin : ∀ w ∈ ws, w.stop ≤ b.length)
    (hdisjoint : ws.Pairwise Patch.Disjoint) {w : Patch} (hw : w ∈ ws) :
    (b.patched ws).slice w.off w.stop = w.bytes := by
  induction ws generalizing b with
  | nil => cases hw
  | cons w' ws ih =>
    obtain ⟨hhead, htail⟩ := List.pairwise_cons.1 hdisjoint
    have hfirst := hin w' List.mem_cons_self
    have hlen : (w'.apply b).length = b.length := length_splice hfirst
    have hrest : ∀ u ∈ ws, u.stop ≤ (w'.apply b).length := fun u hu => by
      rw [hlen]
      exact hin u (List.mem_cons_of_mem _ hu)
    cases hw with
    | head =>
      -- later writes keep away from the first one
      refine (slice_patched_of_disjoint hrest fun u hu => hhead u hu).trans ?_
      exact slice_splice hfirst
    | tail _ hw => exact ih hrest htail hw

end Bytes
