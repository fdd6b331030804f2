import Sypas.Lib.StableSort
import Sypas.Loader.MemoryMap

/-!
# The descriptor sort

`sort_descriptors` works on raw bytes. Seen as a list of whole records, its result
is Mathlib's stable insertion sort of the records it was given, by physical start,
and no byte outside the records changes.

## Main definitions

- `Sypas.recordsAt` — the records of an array, as byte strings
- `Sypas.descriptorsAt` — the descriptors of an array
- `Sypas.sortByStart` — the stable sort of a list of descriptors
- `Sypas.sortDescriptorsThrough` — the sort with its temporary buffer in memory

## Main results

- `Sypas.sortDescriptors_records` — the sort, on records
- `Sypas.sortDescriptors_descriptors` — the sort, on descriptors
- `Sypas.sortDescriptorsThrough_spec` — with the temporary buffer in memory: a stable sort of whole
  records that stays inside the two buffers
-/

namespace Sypas

open Ram Prog StableSort

/-- The first `n` records of the array at `map`, as byte strings. -/
def recordsAt (mem : ℕ → UInt8) (map stride n : ℕ) : List (List UInt8) :=
  (List.range n).map fun i => bytesAt mem (map + i * stride) stride

/-- The descriptors of the array at `map`. -/
def descriptorsAt (mem : ℕ → UInt8) (map stride n : ℕ) : List EfiMemoryDescriptor :=
  (List.range n).map fun i => EfiMemoryDescriptor.at mem (map + i * stride)

/-- The stable sort of a list of descriptors by physical start. -/
def sortByStart (ds : List EfiMemoryDescriptor) : List EfiMemoryDescriptor :=
  sortBy (fun d => d.physicalStart.toNat) ds

/-- The sort key of a record. -/
def recordKey (record : List UInt8) : ℕ := (recordStart record).toNat

/-- The descriptor at the start of a record. -/
def EfiMemoryDescriptor.ofRecord (record : List UInt8) : EfiMemoryDescriptor :=
  EfiMemoryDescriptor.at (fun k => record.getD k 0) 0

theorem recordsAt_succ (mem : ℕ → UInt8) (map stride n : ℕ) :
    recordsAt mem map stride (n + 1) =
      recordsAt mem map stride n ++ [bytesAt mem (map + n * stride) stride] := by
  rw [recordsAt, List.range_succ, List.map_append, List.map_singleton, recordsAt]

/-- Records are determined by the bytes between the ends of the array. -/
theorem recordsAt_congr {mem mem' : ℕ → UInt8} {map stride n : ℕ}
    (h : ∀ a, map ≤ a → a < map + n * stride → mem a = mem' a) :
    recordsAt mem map stride n = recordsAt mem' map stride n := by
  refine List.map_congr_left fun i hi => bytesAt_congr fun a hlo hhi => h a (by omega) ?_
  have hi' : (i + 1) * stride ≤ n * stride :=
    Nat.mul_le_mul_right _ (Nat.succ_le_of_lt (List.mem_range.1 hi))
  rw [Nat.succ_mul] at hi'
  omega

/-- Fields are read from a record as from memory. -/
theorem leNat_bytesAt (mem : ℕ → UInt8) (a : ℕ) {n k w : ℕ} (h : k + w ≤ n) :
    leNat (fun i => (bytesAt mem a n).getD i 0) k w = leNat mem (a + k) w := by
  rw [← leNat_shift]
  exact leNat_congr fun b _ hb => getD_bytesAt mem a (by omega)

theorem recordStart_bytesAt (mem : ℕ → UInt8) (a : ℕ) {stride : ℕ} (h : 16 ≤ stride) :
    recordStart (bytesAt mem a stride) = u64At mem (a + 8) := by
  rw [recordStart, u64At, leNat_bytesAt mem a (by omega), u64At]

theorem ofRecord_bytesAt (mem : ℕ → UInt8) (a : ℕ) {stride : ℕ} (h : 40 ≤ stride) :
    EfiMemoryDescriptor.ofRecord (bytesAt mem a stride) = EfiMemoryDescriptor.at mem a := by
  simp only [EfiMemoryDescriptor.ofRecord, EfiMemoryDescriptor.at, u32At, u64At,
    leNat_bytesAt mem a (show 0 + 4 ≤ stride by omega),
    leNat_bytesAt mem a (show 0 + 8 + 8 ≤ stride by omega),
    leNat_bytesAt mem a (show 0 + 24 + 8 ≤ stride by omega), Nat.add_zero, Nat.zero_add]

theorem descriptorsAt_eq_map (mem : ℕ → UInt8) (map n : ℕ) {stride : ℕ} (h : 40 ≤ stride) :
    descriptorsAt mem map stride n =
      (recordsAt mem map stride n).map EfiMemoryDescriptor.ofRecord := by
  rw [descriptorsAt, recordsAt, List.map_map]
  exact List.map_congr_left fun i _ => (ofRecord_bytesAt mem _ h).symm

/-! ## One insertion -/

theorem shiftUp_succ (map stride j : ℕ) (key : UInt64) (s : Ram) :
    shiftUp map stride key (j + 1) s =
      let t : Ram := ⟨s.mem, ⟨false, map + j * stride + 8, 8⟩ :: s.log⟩
      if u64At s.mem (map + j * stride + 8) ≤ key then (j + 1, t)
      else shiftUp map stride key j
        (copyUp (map + (j + 1) * stride) (map + j * stride) stride t).2 := by
  rw [shiftUp, bind_run, ite_run, read64_run]
  rfl

/-- Move the larger records up, then store the temporary in the gap: the sorted
    prefix of `j` records becomes one of `j + 1`. -/
theorem shiftUp_insert {map stride j : ℕ} {temporary : List UInt8} {s : Ram}
    (hlen : temporary.length = stride) (hstride : 16 ≤ stride)
    (hsorted : (recordsAt s.mem map stride j).Pairwise
      fun r r' => recordKey r ≤ recordKey r') :
    let r := shiftUp map stride (recordStart temporary) j s
    let mem' := patch r.2.mem (map + r.1 * stride) temporary
    recordsAt mem' map stride (j + 1) =
        insertAfter recordKey temporary (recordsAt s.mem map stride j) ∧
      ∀ a, a < map ∨ map + (j + 1) * stride ≤ a → mem' a = s.mem a := by
  induction j generalizing s with
  | zero =>
    refine ⟨?_, fun a ha => ?_⟩
    · have hone := bytesAt_patch s.mem (map + 0 * stride) temporary
      rw [hlen] at hone
      rw [recordsAt_succ, shiftUp, pure_run, hone]
      rfl
    · rw [shiftUp, pure_run, patch, if_neg (by omega)]
  | succ j ih =>
    have hsucc : (j + 1) * stride = j * stride + stride := Nat.succ_mul j stride
    have hsucc' : (j + 1 + 1) * stride = (j + 1) * stride + stride := Nat.succ_mul (j + 1) stride
    intro r mem'
    have hstart := recordStart_bytesAt s.mem (map + j * stride) hstride
    -- the gap is here: the records in front of it stay where they are
    by_cases hle : u64At s.mem (map + j * stride + 8) ≤ recordStart temporary
    · have hr : r.1 = j + 1 ∧ r.2.mem = s.mem := by
        simp only [r, shiftUp_succ, if_pos hle, and_self]
      have hmem' : mem' = patch s.mem (map + (j + 1) * stride) temporary := by
        simp only [mem', hr]
      rw [hmem']
      have houtside : ∀ a, a < map + (j + 1) * stride ∨ map + (j + 1) * stride + stride ≤ a →
          patch s.mem (map + (j + 1) * stride) temporary a = s.mem a := by
        intro a ha
        rw [patch, if_neg (by omega)]
      refine ⟨?_, fun a ha => houtside a (by omega)⟩
      have hnew := bytesAt_patch s.mem (map + (j + 1) * stride) temporary
      rw [hlen] at hnew
      rw [recordsAt_succ _ _ _ (j + 1), hnew,
        recordsAt_congr fun a _ ha => houtside a (Or.inl ha), recordsAt_succ _ _ _ j,
        insertAfter_concat_of_le _ (by rwa [recordsAt_succ] at hsorted) (by
          rwa [recordKey, hstart, recordKey, ← UInt64.le_iff_toNat_le]),
        List.append_assoc]
      rfl
    -- the record moves up, and the gap with it
    · set t : Ram := (copyUp (map + (j + 1) * stride) (map + j * stride) stride
        ⟨s.mem, ⟨false, map + j * stride + 8, 8⟩ :: s.log⟩).2 with ht
      have hr : r = shiftUp map stride (recordStart temporary) j t := by
        simp only [r, shiftUp_succ, if_neg hle, ht]
      have htmem : t.mem = blit s.mem (map + (j + 1) * stride) (map + j * stride) stride :=
        copyUp_mem _ _ _ _ (Or.inr (by omega))
      have hblit : ∀ a, a < map + (j + 1) * stride ∨ map + (j + 1) * stride + stride ≤ a →
          t.mem a = s.mem a := by
        intro a ha
        rw [htmem, blit, if_neg (by omega)]
      have hfront : recordsAt t.mem map stride j = recordsAt s.mem map stride j :=
        recordsAt_congr fun a _ ha => hblit a (by omega)
      have hsortedj := hsorted
      rw [recordsAt_succ] at hsortedj
      obtain ⟨hrec, hout⟩ := ih (s := t) (by
        rw [hfront]
        exact (List.pairwise_append.1 hsortedj).1)
      rw [← hr] at hrec hout
      refine ⟨?_, fun a ha => (hout a (by omega)).trans (hblit a (by omega))⟩
      have hmoved : bytesAt mem' (map + (j + 1) * stride) stride =
          bytesAt s.mem (map + j * stride) stride := by
        rw [bytesAt_congr fun a ha _ => hout a (Or.inr ha), htmem, bytesAt_blit]
      rw [recordsAt_succ _ _ _ (j + 1), hmoved, hrec, hfront, recordsAt_succ _ _ _ j,
        insertAfter_concat_of_lt _ _ (by
          rwa [recordKey, recordKey, hstart, ← not_le, ← UInt64.le_iff_toNat_le])]

/-! ## The whole sort -/

/-- `sort_descriptors` sorts the records stably by physical start and changes no
    byte outside them. -/
theorem sortDescriptors_records (map count stride : ℕ) (hstride : 16 ≤ stride) (s : Ram) :
    let s' := (sortDescriptors map count stride s).2
    recordsAt s'.mem map stride count =
        sortBy recordKey (recordsAt s.mem map stride count) ∧
      ∀ a, a < map ∨ map + count * stride ≤ a → s'.mem a = s.mem a := by
  rcases Nat.eq_zero_or_pos count with rfl | hpos
  · rw [sortDescriptors, forRange_of_le (by omega)]
    exact ⟨rfl, fun _ _ => rfl⟩
  refine forRange_invariant (fun (i : ℕ) (t : Ram) =>
    recordsAt t.mem map stride i = sortBy recordKey (recordsAt s.mem map stride i) ∧
    ∀ a, a < map ∨ map + i * stride ≤ a → t.mem a = s.mem a) hpos ⟨rfl, fun _ _ => rfl⟩ ?_
  rintro i t hi - ⟨hrec, hout⟩
  have hsucc : (i + 1) * stride = i * stride + stride := Nat.succ_mul i stride
  simp only [bind_run, loadBytes_fst, storeBytes_mem]
  have hload := loadBytes_mem (map + i * stride) stride t
  obtain ⟨hins, hins'⟩ := shiftUp_insert (s := (loadBytes (map + i * stride) stride t).2)
    (j := i) (length_bytesAt t.mem (map + i * stride) stride) hstride (by
      rw [hload, hrec]
      exact pairwise_sortBy recordKey _)
  rw [hload] at hins hins'
  refine ⟨?_, fun a ha => (hins' a ha).trans (hout a (by omega))⟩
  rw [hins, hrec, recordsAt_succ, sortBy_concat]
  congr 1
  exact bytesAt_congr fun a ha _ => hout a (Or.inr ha)

/-- The descriptors after the sort. -/
theorem sortDescriptors_descriptors (map count stride : ℕ) (hstride : 40 ≤ stride) (s : Ram) :
    descriptorsAt (sortDescriptors map count stride s).2.mem map stride count =
      sortByStart (descriptorsAt s.mem map stride count) := by
  rw [descriptorsAt_eq_map _ _ _ hstride, descriptorsAt_eq_map _ _ _ hstride,
    (sortDescriptors_records map count stride (by omega) s).1, sortByStart]
  exact map_sortBy (fun d : EfiMemoryDescriptor => d.physicalStart.toNat) .ofRecord _

/-! ## The temporary buffer -/

/-- `sort_descriptors` with its 4096-byte buffer `temporary` in the same memory as the map. -/
def sortDescriptorsThrough (map temporary count stride : ℕ) : StateM Ram Unit :=
  forRange 1 count fun i => do
    copyUp temporary (map + i * stride) stride
    let key ← read64 (temporary + 8)
    let j ← shiftUp map stride key i
    copyUp (map + j * stride) temporary stride

/-- The bytes of the map and of the temporary buffer. -/
def sortBuffers (map temporary count stride : ℕ) : Set ℕ :=
  {a | map ≤ a ∧ a < map + count * stride ∨ temporary ≤ a ∧ a < temporary + 4096}

theorem shiftUp_le (map stride j : ℕ) (key : UInt64) (s : Ram) :
    (shiftUp map stride key j s).1 ≤ j := by
  induction j generalizing s with
  | zero => exact le_rfl
  | succ j ih =>
    rw [shiftUp_succ]
    dsimp only
    split
    · exact le_rfl
    · exact (ih _).trans (Nat.le_succ j)

theorem shiftUp_confined {map stride : ℕ} (key : UInt64) {j : ℕ} {S : Set ℕ} (hstride : 16 ≤ stride)
    (h : ∀ a, map ≤ a → a < map + (j + 1) * stride → a ∈ S) :
    Confined S (shiftUp map stride key j) := by
  induction j with
  | zero => exact .pure S 0
  | succ j ih =>
    have hsucc : (j + 1) * stride = j * stride + stride := Nat.succ_mul j stride
    have hsucc' : (j + 1 + 1) * stride = (j + 1) * stride + stride := Nat.succ_mul (j + 1) stride
    refine .bind (.readWith fun a hlo hhi => h a (by omega) (by omega)) fun start => ?_
    refine .ite (fun _ => .pure S _) fun _ => ?_
    refine .bind (copyUp_confined _ _ _ (fun a hlo hhi => h a (by omega) (by omega))
      fun a hlo hhi => h a (by omega) (by omega)) fun _ => ?_
    exact ih fun a hlo hhi => h a hlo (by omega)

section Through

variable {map temporary count stride : ℕ}

/-- One round leaves the array as the round with a local copy does. -/
theorem sortRound_records {i : ℕ} (hi : i < count) (hlow : 40 ≤ stride) (hhigh : stride ≤ 4096)
    (hapart : temporary + 4096 ≤ map ∨ map + count * stride ≤ temporary) (s : Ram)
    (hsorted : (recordsAt s.mem map stride i).Pairwise fun r r' => recordKey r ≤ recordKey r') :
    let s' := ((do
      copyUp temporary (map + i * stride) stride
      let key ← read64 (temporary + 8)
      let j ← shiftUp map stride key i
      copyUp (map + j * stride) temporary stride : StateM Ram Unit) s).2
    recordsAt s'.mem map stride (i + 1) =
        insertAfter recordKey (bytesAt s.mem (map + i * stride) stride)
          (recordsAt s.mem map stride i) ∧
      ∀ a, map + (i + 1) * stride ≤ a → a < map + count * stride → s'.mem a = s.mem a := by
  have hsucc : (i + 1) * stride = i * stride + stride := Nat.succ_mul i stride
  have hcount : (i + 1) * stride ≤ count * stride := Nat.mul_le_mul_right _ hi
  set record := bytesAt s.mem (map + i * stride) stride with hrecord
  set s₁ : Ram := (copyUp temporary (map + i * stride) stride s).2
  have hs₁ : s₁.mem = patch s.mem temporary record := by
    rw [hrecord, ← blit_eq_patch]
    exact copyUp_mem _ _ _ _ (by omega)
  have hlen : record.length = stride := length_bytesAt _ _ _
  have harray : ∀ a, map ≤ a → a < map + count * stride → s₁.mem a = s.mem a := by
    intro a hlo hhi
    rw [hs₁, patch, if_neg (by omega)]
  have hheld : bytesAt s₁.mem temporary stride = record := by
    have hpatch := bytesAt_patch s.mem temporary record
    rwa [hlen, ← hs₁] at hpatch
  have hkey : u64At s₁.mem (temporary + 8) = recordStart record := by
    rw [← hheld, recordStart_bytesAt _ _ (by omega)]
  have hfront : recordsAt s₁.mem map stride i = recordsAt s.mem map stride i :=
    recordsAt_congr fun a hlo hhi => harray a hlo (by omega)
  set s₂ : Ram := ⟨s₁.mem, ⟨false, temporary + 8, 8⟩ :: s₁.log⟩
  obtain ⟨hins, hout⟩ := shiftUp_insert (s := s₂) hlen (by omega) (by rw [hfront]; exact hsorted)
  set r := shiftUp map stride (recordStart record) i s₂ with hr
  -- the inner loop stays in the array, so the record is still in the temporary buffer
  have hkept : bytesAt r.2.mem temporary stride = record := by
    rw [← hheld]
    refine bytesAt_congr fun a hlo hhi => ?_
    refine (shiftUp_confined (recordStart record) (by omega) fun a hlo hhi =>
      (⟨hlo, hhi⟩ : a ∈ {a | map ≤ a ∧ a < map + (i + 1) * stride})).mem_eq s₂ ?_
    rintro ⟨hlo', hhi'⟩
    omega
  have hplace : r.1 * stride ≤ i * stride := Nat.mul_le_mul_right _ (shiftUp_le _ _ _ _ _)
  have hmem : ((do
      copyUp temporary (map + i * stride) stride
      let key ← read64 (temporary + 8)
      let j ← shiftUp map stride key i
      copyUp (map + j * stride) temporary stride : StateM Ram Unit) s).2.mem =
        patch r.2.mem (map + r.1 * stride) record := by
    simp only [bind_run, read64_run]
    rw [hkey, ← hr, copyUp_mem _ _ _ _ (by omega), blit_eq_patch, hkept]
  dsimp only
  rw [hmem, hins, ← hfront]
  refine ⟨rfl, fun a hlo hhi => ?_⟩
  rw [hout a (.inr hlo)]
  exact harray a (by omega) hhi

/-- The sort through the buffer is the stable sort of whole records. -/
theorem sortDescriptorsThrough_records (hlow : 40 ≤ stride) (hhigh : stride ≤ 4096)
    (hapart : temporary + 4096 ≤ map ∨ map + count * stride ≤ temporary) (s : Ram) :
    recordsAt (sortDescriptorsThrough map temporary count stride s).2.mem map stride count =
      sortBy recordKey (recordsAt s.mem map stride count) := by
  rcases Nat.eq_zero_or_pos count with rfl | hpos
  · rw [sortDescriptorsThrough, forRange_of_le (by omega)]
    rfl
  refine (forRange_invariant (fun (i : ℕ) (t : Ram) =>
    recordsAt t.mem map stride i = sortBy recordKey (recordsAt s.mem map stride i) ∧
    ∀ a, map + i * stride ≤ a → a < map + count * stride → t.mem a = s.mem a) hpos
    ⟨rfl, fun _ _ _ => rfl⟩ ?_).1
  rintro i t - hi ⟨hrec, hout⟩
  have hsucc : (i + 1) * stride = i * stride + stride := Nat.succ_mul i stride
  have hcount : (i + 1) * stride ≤ count * stride := Nat.mul_le_mul_right _ hi
  obtain ⟨hins, hins'⟩ := sortRound_records hi hlow hhigh hapart t (by
    rw [hrec]
    exact pairwise_sortBy recordKey _)
  refine ⟨?_, fun a hlo hhi => (hins' a hlo hhi).trans (hout a (by omega) hhi)⟩
  rw [hins, hrec, recordsAt_succ, sortBy_concat]
  congr 1
  exact bytesAt_congr fun a hlo hhi => hout a hlo (by omega)

theorem sortDescriptorsThrough_confined (hlow : 40 ≤ stride) (hhigh : stride ≤ 4096) :
    Confined (sortBuffers map temporary count stride)
      (sortDescriptorsThrough map temporary count stride) := by
  refine .forRange fun i _ hi => ?_
  have hsucc : (i + 1) * stride = i * stride + stride := Nat.succ_mul i stride
  have hcount : (i + 1) * stride ≤ count * stride := Nat.mul_le_mul_right _ hi
  refine .bind (copyUp_confined _ _ _ (fun a hlo hhi => .inr ⟨hlo, by omega⟩)
    fun a hlo hhi => .inl ⟨by omega, by omega⟩) fun _ => ?_
  refine .bind (.readWith fun a hlo hhi => .inr ⟨by omega, by omega⟩) fun key => ?_
  intro t
  -- where the record goes depends on the place that the inner loop returns
  have hplace : (shiftUp map stride key i t).1 * stride ≤ i * stride :=
    Nat.mul_le_mul_right _ (shiftUp_le _ _ _ _ _)
  have hshift : Within (sortBuffers map temporary count stride) t
      (shiftUp map stride key i t).2 :=
    shiftUp_confined key (by omega) (fun a hlo hhi => .inl ⟨hlo, by omega⟩) t
  have hstore : Confined (sortBuffers map temporary count stride)
      (copyUp (map + (shiftUp map stride key i t).1 * stride) temporary stride) :=
    copyUp_confined _ _ _ (fun a hlo hhi => .inl ⟨by omega, by omega⟩)
      fun a hlo hhi => .inr ⟨hlo, by omega⟩
  exact hshift.trans (hstore _)

/-- For every map, record size and contents: the records afterwards are the records before, in
    order of physical start, with equal starts in their old order, and nothing outside the map and
    the temporary buffer is read or written. -/
theorem sortDescriptorsThrough_spec (hlow : 40 ≤ stride) (hhigh : stride ≤ 4096)
    (hapart : temporary + 4096 ≤ map ∨ map + count * stride ≤ temporary) (s : Ram) :
    let s' := (sortDescriptorsThrough map temporary count stride s).2
    (recordsAt s'.mem map stride count).Perm (recordsAt s.mem map stride count) ∧
      (recordsAt s'.mem map stride count).Pairwise (fun r r' => recordKey r ≤ recordKey r') ∧
      (∀ k, (recordsAt s'.mem map stride count).filter (fun r => recordKey r = k) =
        (recordsAt s.mem map stride count).filter fun r => recordKey r = k) ∧
      Within (sortBuffers map temporary count stride) s s' := by
  intro s'
  have hrecords : recordsAt s'.mem map stride count =
      sortBy recordKey (recordsAt s.mem map stride count) :=
    sortDescriptorsThrough_records hlow hhigh hapart s
  rw [hrecords]
  refine ⟨perm_sortBy _ _, pairwise_sortBy _ _, fun k => ?_,
    sortDescriptorsThrough_confined hlow hhigh s⟩
  apply filter_sortBy
  intro r r' hr hr'
  exact (of_decide_eq_true hr).trans (of_decide_eq_true hr').symm

/-- The local copy of the temporary buffer is a faithful simplification. -/
theorem sortDescriptorsThrough_eq_sortDescriptors (hlow : 40 ≤ stride) (hhigh : stride ≤ 4096)
    (hapart : temporary + 4096 ≤ map ∨ map + count * stride ≤ temporary) (s : Ram) :
    recordsAt (sortDescriptorsThrough map temporary count stride s).2.mem map stride count =
      recordsAt (sortDescriptors map count stride s).2.mem map stride count := by
  rw [sortDescriptorsThrough_records hlow hhigh hapart,
    (sortDescriptors_records map count stride (by omega) s).1]

end Through

/-- Two records of 40 bytes at 4096, with the buffer in front of them. -/
theorem sortDescriptorsThrough_two :
    let s : Ram := ⟨image [(4104, 8, 8192), (4144, 8, 4096)], []⟩
    let s' := (sortDescriptorsThrough 4096 0 2 40 s).2
    (recordsAt s'.mem 4096 40 2).Perm (recordsAt s.mem 4096 40 2) ∧
      (recordsAt s'.mem 4096 40 2).Pairwise (fun r r' => recordKey r ≤ recordKey r') ∧
      (∀ k, (recordsAt s'.mem 4096 40 2).filter (fun r => recordKey r = k) =
        (recordsAt s.mem 4096 40 2).filter fun r => recordKey r = k) ∧
      Within (sortBuffers 4096 0 2 40) s s' :=
  sortDescriptorsThrough_spec (by decide) (by decide) (.inl (by decide)) _

end Sypas
