import Sypas.Loader.Reloc

/-!
# What the relocator accepts, and what it leaves

On an image whose relocation targets keep clear of the relocation table, the entries
that the loop reads are those of the original image. The scan of the dynamic table and
the relocation loop are then functions of two lists of entries.

## Main definitions

- `Sypas.Terminated` — the dynamic table ends inside the image
- `Sypas.lastVal` — the value of the last entry with a tag
- `Sypas.RelocAccepts` — the acceptance condition
- `Sypas.relocated` — the final image

## Main results

- `Sypas.addSignedOk_eq_some_iff` — the signed sum is exact
- `Sypas.scanDynamic_run`, `Sypas.applyRelocations_run` — the two loops over lists
- `Sypas.sypasReloc_result` — acceptance and result
-/

namespace Sypas

open Ram

/-! ## The signed sum -/

theorem toInt_eq (a : Int64) : a.toInt =
    if 2 * a.toUInt64.toNat < 2 ^ 64 then (a.toUInt64.toNat : ℤ) else a.toUInt64.toNat - 2 ^ 64 :=
  BitVec.toInt_eq_toNat_cond a.toBitVec

/-- The sum with a signed addend, whenever it is a 64-bit address. -/
theorem addSignedOk_eq_some_iff {base value : UInt64} {addend : Int64} :
    addSignedOk base addend = some value ↔ (value.toNat : ℤ) = base.toNat + addend.toInt := by
  have hbase := base.toNat_lt
  have hvalue := value.toNat_lt
  have hword := addend.toUInt64.toNat_lt
  have hint := toInt_eq addend
  have hsign : addend ≥ 0 ↔ 0 ≤ addend.toInt := by
    rw [ge_iff_le, Int64.le_iff_toInt_le, Int64.toInt_zero]
  unfold addSignedOk
  split
  · next hpos =>
    rw [hsign] at hpos
    rw [addOk_eq_some_iff]
    split at hint
    · omega
    · omega
  · next hneg =>
    rw [hsign] at hneg
    have hmag : (0 - addend.toUInt64).toNat = 2 ^ 64 - addend.toUInt64.toNat := by
      rw [UInt64.toNat_sub, UInt64.toNat_zero, Nat.add_zero, Nat.mod_eq_of_lt]
      split at hint
      · omega
      · omega
    dsimp only
    split at hint
    · omega
    split
    · next hless =>
      rw [UInt64.lt_iff_toNat_lt, hmag] at hless
      refine iff_of_false nofun ?_
      omega
    · next hge =>
      rw [UInt64.lt_iff_toNat_lt, hmag] at hge
      have hsub : (base - (0 - addend.toUInt64)).toNat =
          base.toNat - (2 ^ 64 - addend.toUInt64.toNat) := by
        rw [UInt64.toNat_sub_of_le _ _ (UInt64.le_iff_toNat_le.2 (by rw [hmag]; omega)), hmag]
      rw [Option.some.injEq, ← UInt64.toNat_inj, hsub]
      omega

/-! ## The dynamic table -/

/-- The first `n` entries of the dynamic table. -/
def dynamicEntries (mem : ℕ → UInt8) (dynamic n : ℕ) : List Elf64Dyn :=
  (List.range n).map fun k => Elf64Dyn.at mem (dynamic + 16 * k)

/-- The value of the last entry with tag `tag`. -/
def lastVal (tag : Int64) (es : List Elf64Dyn) : Option UInt64 :=
  (es.filter fun d => d.dTag = tag).getLast?.map Elf64Dyn.dVal

theorem lastVal_concat (tag : Int64) (es : List Elf64Dyn) (d : Elf64Dyn) :
    lastVal tag (es ++ [d]) = if d.dTag = tag then some d.dVal else lastVal tag es := by
  unfold lastVal
  rw [List.filter_append]
  split
  · next h => simp [h]
  · next h => simp [h]

/-- The scan loop over a list of entries. -/
def scanAll : List Elf64Dyn → DynScan → DynScan
  | [], scan => scan
  | d :: rest, scan =>
    if d.dTag = dtNull then { scan with terminated := true } else scanAll rest (scan.record d)

/-- Scanning the table in memory is scanning the list of its entries. -/
theorem scanDynamic_run (dynamic n i : ℕ) (scan : DynScan) (s : Ram) :
    (scanDynamic dynamic n i scan s).1 =
        scanAll ((List.range' i n).map fun k => Elf64Dyn.at s.mem (dynamic + 16 * k)) scan ∧
      (scanDynamic dynamic n i scan s).2.mem = s.mem := by
  induction n generalizing i scan s with
  | zero => exact ⟨rfl, rfl⟩
  | succ n ih =>
    rw [scanDynamic, List.range'_succ, List.map_cons, scanAll]
    have hrest := ih (i + 1) (scan.record (Elf64Dyn.at s.mem (dynamic + 16 * i)))
      ⟨s.mem, ⟨false, dynamic + 16 * i, 16⟩ :: s.log⟩
    rw [Prog.bind_run, readWith_run]
    generalize Elf64Dyn.at s.mem (dynamic + 16 * i) = d at hrest ⊢
    by_cases hnull : d.dTag = dtNull
    · rw [if_pos hnull, if_pos hnull]
      exact ⟨rfl, rfl⟩
    · rw [if_neg hnull, if_neg hnull]
      exact hrest

/-- What the scan has recorded after the entries `es`. -/
structure DynScan.Records (scan : DynScan) (es : List Elf64Dyn) : Prop where
  rela : scan.rela = (lastVal dtRela es).getD 0
  relasz : scan.relasz = (lastVal dtRelasz es).getD 0
  relaent : scan.relaent = (lastVal dtRelaent es).getD sizeofElf64Rela
  haveRela : scan.haveRela = (lastVal dtRela es).isSome
  haveRelasz : scan.haveRelasz = (lastVal dtRelasz es).isSome

theorem DynScan.Records.nil : DynScan.Records {} [] := ⟨rfl, rfl, rfl, rfl, rfl⟩

/-- One more entry: the tags are different, so it is recorded under at most one of them. -/
theorem DynScan.Records.record {scan : DynScan} {es : List Elf64Dyn} (h : scan.Records es)
    (d : Elf64Dyn) : (scan.record d).Records (es ++ [d]) := by
  have h78 : dtRela ≠ dtRelasz := by decide
  have h79 : dtRela ≠ dtRelaent := by decide
  have h89 : dtRelasz ≠ dtRelaent := by decide
  unfold DynScan.record
  constructor
  all_goals rw [lastVal_concat]
  all_goals split_ifs <;> simp_all [h.rela, h.relasz, h.relaent, h.haveRela, h.haveRelasz]

/-- The scan of the entries `f i, f (i + 1), …` either stops at the first null entry, having
    recorded those before it, or finds none. -/
theorem scanAll_spec (f : ℕ → Elf64Dyn) (n i : ℕ) (scan : DynScan)
    (h : scan.Records ((List.range i).map f)) (hterm : scan.terminated = false) :
    (∃ k < n, (f (i + k)).dTag = dtNull ∧ (∀ j < k, (f (i + j)).dTag ≠ dtNull) ∧
      (scanAll ((List.range' i n).map f) scan).Records ((List.range (i + k)).map f) ∧
      (scanAll ((List.range' i n).map f) scan).terminated = true) ∨
    ((∀ j < n, (f (i + j)).dTag ≠ dtNull) ∧
      (scanAll ((List.range' i n).map f) scan).terminated = false) := by
  induction n generalizing i scan with
  | zero => exact .inr ⟨fun j hj => absurd hj (Nat.not_lt_zero j), hterm⟩
  | succ n ih =>
    rw [List.range'_succ, List.map_cons, scanAll]
    by_cases hnull : (f i).dTag = dtNull
    · rw [if_pos hnull]
      exact .inl ⟨0, Nat.succ_pos n, hnull, fun j hj => absurd hj (Nat.not_lt_zero j),
        ⟨h.rela, h.relasz, h.relaent, h.haveRela, h.haveRelasz⟩, rfl⟩
    rw [if_neg hnull]
    have hrecord : (scan.record (f i)).Records ((List.range (i + 1)).map f) := by
      rw [List.range_succ, List.map_append, List.map_singleton]
      exact h.record (f i)
    have hterm' : (scan.record (f i)).terminated = false := by
      unfold DynScan.record
      split_ifs
      all_goals exact hterm
    have hshift (j : ℕ) : i + (j + 1) = i + 1 + j := by omega
    obtain ⟨k, hk, hat, hbefore, hrec, hdone⟩ | ⟨hall, hdone⟩ := ih (i + 1) _ hrecord hterm'
    · refine .inl ⟨k + 1, by omega, by rwa [hshift k], fun j hj => ?_, by rwa [hshift k], hdone⟩
      cases j with
      | zero => exact hnull
      | succ j => rw [hshift j]; exact hbefore j (by omega)
    · refine .inr ⟨fun j hj => ?_, hdone⟩
      cases j with
      | zero => exact hnull
      | succ j => rw [hshift j]; exact hall j (by omega)

/-- The dynamic table begins inside the image and its first null entry is number `n`, which is
    inside the image as well. -/
structure Terminated (base imageSize dynamic : UInt64) (mem : ℕ → UInt8) (n : ℕ) : Prop where
  base_le : base.toNat ≤ dynamic.toNat
  inside : dynamic.toNat + 16 * (n + 1) ≤ base.toNat + imageSize.toNat
  null : (Elf64Dyn.at mem (dynamic.toNat + 16 * n)).dTag = dtNull
  first : ∀ k < n, (Elf64Dyn.at mem (dynamic.toNat + 16 * k)).dTag ≠ dtNull

theorem Terminated.unique {base imageSize dynamic : UInt64} {mem : ℕ → UInt8} {m n : ℕ}
    (hm : Terminated base imageSize dynamic mem m) (hn : Terminated base imageSize dynamic mem n) :
    m = n := by
  rcases Nat.lt_trichotomy m n with hlt | heq | hgt
  · exact absurd hm.null (hn.first m hlt)
  · exact heq
  · exact absurd hn.null (hm.first n hgt)

/-- A dynamic table that ends in the image passes the bound checks on its pointer. -/
theorem Terminated.dynamic_inside {base imageSize dynamic imageEnd : UInt64} {mem : ℕ → UInt8}
    {n : ℕ} (h : Terminated base imageSize dynamic mem n)
    (hend : imageEnd.toNat = base.toNat + imageSize.toNat) :
    ¬(dynamic < base ∨ dynamic > imageEnd ∨ imageEnd - dynamic < sizeofElf64Dyn) := by
  have hlo := h.base_le
  have hin := h.inside
  rw [gt_iff_lt, UInt64.lt_iff_toNat_lt, UInt64.lt_iff_toNat_lt, UInt64.lt_iff_toNat_lt,
    toNat_sizeofElf64Dyn, UInt64.toNat_sub_of_le _ _ (UInt64.le_iff_toNat_le.2 (by omega))]
  omega

/-! ## The relocation table -/

/-- The first `n` entries of the relocation table. -/
def relaEntries (mem : ℕ → UInt8) (table n : ℕ) : List Elf64Rela :=
  (List.range n).map fun k => Elf64Rela.at mem (table + 24 * k)

/-- An entry the relocator accepts: relative, with its target inside the image and a sum that
    is a 64-bit address. -/
structure RelocEntryOk (base imageSize : UInt64) (r : Elf64Rela) : Prop where
  type : r.rInfo.toUInt32 = rX8664Relative
  target : r.rOffset.toNat + 8 ≤ imageSize.toNat
  sum_nonneg : 0 ≤ (base.toNat : ℤ) + r.rAddend.toInt
  sum_lt : (base.toNat : ℤ) + r.rAddend.toInt < 2 ^ 64

/-- `mem` with the relocated value of one entry stored at its target. -/
def storeRelocation (base : UInt64) (mem : ℕ → UInt8) (r : Elf64Rela) : ℕ → UInt8 :=
  storeLe mem (base.toNat + r.rOffset.toNat) 8 ((base.toNat : ℤ) + r.rAddend.toInt).toNat

/-- `mem` with the values of all entries stored, in table order. -/
def relocated (base : UInt64) (mem : ℕ → UInt8) (rs : List Elf64Rela) : ℕ → UInt8 :=
  rs.foldl (storeRelocation base) mem

theorem checkRelocation_eq_some_iff {base imageSize target value : UInt64} {r : Elf64Rela}
    (hend : base.toNat + imageSize.toNat < 2 ^ 64) :
    checkRelocation base imageSize r = some (target, value) ↔
      RelocEntryOk base imageSize r ∧ target.toNat = base.toNat + r.rOffset.toNat ∧
        (value.toNat : ℤ) = base.toNat + r.rAddend.toInt := by
  have h8 : (8 : UInt64).toNat = 8 := rfl
  have hvalue := value.toNat_lt
  have hbounds : (r.rOffset > imageSize ∨ 8 > imageSize - r.rOffset) ↔
      ¬r.rOffset.toNat + 8 ≤ imageSize.toNat := by
    rw [gt_iff_lt, UInt64.lt_iff_toNat_lt]
    by_cases hle : r.rOffset.toNat ≤ imageSize.toNat
    · rw [gt_iff_lt, UInt64.lt_iff_toNat_lt,
        UInt64.toNat_sub_of_le _ _ (UInt64.le_iff_toNat_le.2 hle), h8]
      omega
    · refine iff_of_true (.inl (not_le.1 hle)) (by omega)
  unfold checkRelocation
  by_cases htype : r.rInfo.toUInt32 = rX8664Relative
  swap
  · rw [if_pos htype]
    exact iff_of_false nofun fun h => htype h.1.type
  rw [if_neg (not_not.2 htype)]
  by_cases hin : r.rOffset.toNat + 8 ≤ imageSize.toNat
  swap
  · rw [if_pos (hbounds.2 hin)]
    exact iff_of_false nofun fun h => hin h.1.target
  rw [if_neg fun h => hbounds.1 h hin, addOk_of_lt (by omega)]
  have htarget : (base + r.rOffset).toNat = base.toNat + r.rOffset.toNat :=
    Word.toNat_add_of_lt (by omega)
  cases hsum : addSignedOk base r.rAddend with
  | none =>
    refine iff_of_false nofun ?_
    rintro ⟨-, -, hval⟩
    rw [addSignedOk_eq_some_iff.2 hval] at hsum
    cases hsum
  | some v =>
    have hv := addSignedOk_eq_some_iff.1 hsum
    have hvlt := v.toNat_lt
    dsimp only
    rw [Option.some.injEq, Prod.mk.injEq, ← UInt64.toNat_inj, ← UInt64.toNat_inj, htarget]
    constructor
    · rintro ⟨ht, hv'⟩
      exact ⟨⟨htype, hin, by omega, by omega⟩, ht.symm, by omega⟩
    · rintro ⟨-, ht, hv'⟩
      exact ⟨ht.symm, by omega⟩

theorem checkRelocation_isSome_iff {base imageSize : UInt64} {r : Elf64Rela}
    (hend : base.toNat + imageSize.toNat < 2 ^ 64) :
    (checkRelocation base imageSize r).isSome = true ↔ RelocEntryOk base imageSize r := by
  constructor
  · intro h
    obtain ⟨⟨target, value⟩, hcheck⟩ := Option.isSome_iff_exists.1 h
    exact ((checkRelocation_eq_some_iff hend).1 hcheck).1
  · intro h
    have hin := h.target
    have hlo := h.sum_nonneg
    have hhi := h.sum_lt
    have hsome : checkRelocation base imageSize r =
        some (UInt64.ofNat (base.toNat + r.rOffset.toNat),
          UInt64.ofNat ((base.toNat : ℤ) + r.rAddend.toInt).toNat) := by
      refine (checkRelocation_eq_some_iff hend).2 ⟨h, Word.toNat_ofNat_of_lt (by omega), ?_⟩
      rw [Word.toNat_ofNat_of_lt (by omega)]
      omega
    rw [hsome]
    rfl

/-- A relocation entry is settled by its 24 bytes. -/
theorem Elf64Rela.at_congr {mem mem' : ℕ → UInt8} {a : ℕ}
    (h : ∀ b, a ≤ b → b < a + 24 → mem b = mem' b) : Elf64Rela.at mem a = Elf64Rela.at mem' a := by
  unfold Elf64Rela.at u64At
  rw [leNat_congr fun b hlo hhi => h b hlo (by omega),
    leNat_congr fun b hlo hhi => h b (by omega) (by omega),
    leNat_congr fun b hlo hhi => h b (by omega) (by omega)]

/-- The target of an entry keeps clear of `[lo, hi)`. -/
def KeepsClear (base : UInt64) (r : Elf64Rela) (lo hi : ℕ) : Prop :=
  base.toNat + r.rOffset.toNat + 8 ≤ lo ∨ hi ≤ base.toNat + r.rOffset.toNat

instance (base : UInt64) (r : Elf64Rela) (lo hi : ℕ) : Decidable (KeepsClear base r lo hi) :=
  inferInstanceAs (Decidable (_ ∨ _))

/-- When no target meets the rest of the table, the loop over memory treats the entries of the
    original image: it succeeds exactly when all are accepted, and stores their values. -/
theorem applyRelocations_run {base imageSize : UInt64}
    (hend : base.toNat + imageSize.toNat < 2 ^ 64) (table n i : ℕ) (s : Ram)
    (hclear : ∀ k, i ≤ k → k < i + n → KeepsClear base (Elf64Rela.at s.mem (table + 24 * k))
      (table + 24 * i) (table + 24 * (i + n))) :
    ((applyRelocations base imageSize table n i s).1 = 0 ↔
      ∀ k, i ≤ k → k < i + n →
        RelocEntryOk base imageSize (Elf64Rela.at s.mem (table + 24 * k))) ∧
    ((applyRelocations base imageSize table n i s).1 = 0 →
      (applyRelocations base imageSize table n i s).2.mem = relocated base s.mem
        ((List.range' i n).map fun k => Elf64Rela.at s.mem (table + 24 * k))) := by
  induction n generalizing i s with
  | zero => exact ⟨iff_of_true rfl fun k hlo hhi => absurd hhi (by omega), fun _ => rfl⟩
  | succ n ih =>
    have hhead := hclear i le_rfl (by omega)
    have hok := checkRelocation_isSome_iff (r := Elf64Rela.at s.mem (table + 24 * i)) hend
    rw [applyRelocations, List.range'_succ, List.map_cons, relocated, List.foldl_cons,
      Prog.bind_run, readWith_run]
    cases hcheck : checkRelocation base imageSize (Elf64Rela.at s.mem (table + 24 * i)) with
    | none =>
      rw [hcheck] at hok
      have hbad : ¬RelocEntryOk base imageSize (Elf64Rela.at s.mem (table + 24 * i)) :=
        fun h => absurd (hok.2 h) (by decide)
      have hone : (1 : UInt64) ≠ 0 := by decide
      exact ⟨iff_of_false hone fun hall => hbad (hall i le_rfl (by omega)), fun h => absurd h hone⟩
    | some pair =>
      obtain ⟨target, value⟩ := pair
      obtain ⟨hgood, htarget, hvalue⟩ := (checkRelocation_eq_some_iff hend).1 hcheck
      have hmem : storeLe s.mem target.toNat 8 value.toNat =
          storeRelocation base s.mem (Elf64Rela.at s.mem (table + 24 * i)) := by
        rw [storeRelocation, htarget, ← hvalue, Int.toNat_natCast]
      -- the store leaves the entries behind this one as they were
      have hsame (k : ℕ) (hlo : i ≤ k) (hhi : k < i + (n + 1)) :
          Elf64Rela.at (storeLe s.mem target.toNat 8 value.toNat) (table + 24 * k) =
            Elf64Rela.at s.mem (table + 24 * k) := by
        refine Elf64Rela.at_congr fun b hb hb' => storeLe_outside ?_
        unfold KeepsClear at hhead
        omega
      set s' : Ram := ⟨storeLe s.mem target.toNat 8 value.toNat,
        ⟨true, target.toNat, 8⟩ :: ⟨false, table + 24 * i, 24⟩ :: s.log⟩
      obtain ⟨hiff, hrun⟩ := ih (i + 1) s' fun k hlo hhi => by
        have hk := hclear k (by omega) (by omega)
        rw [hsame k (by omega) (by omega)]
        unfold KeepsClear at hk ⊢
        omega
      have hentries : ((List.range' (i + 1) n).map fun k => Elf64Rela.at s'.mem (table + 24 * k)) =
          (List.range' (i + 1) n).map fun k => Elf64Rela.at s.mem (table + 24 * k) := by
        refine List.map_congr_left fun k hk => ?_
        have hrange := List.mem_range'_1.1 hk
        exact hsame k (by omega) (by omega)
      rw [hentries] at hrun
      dsimp only
      rw [Prog.bind_run, write64_run]
      refine ⟨hiff.trans ⟨fun hall k hlo hhi => ?_, fun hall k hlo hhi => ?_⟩, fun h => ?_⟩
      · rcases Nat.eq_or_lt_of_le hlo with rfl | hlt
        · exact hgood
        · rw [← hsame k hlo hhi]
          exact hall k hlt (by omega)
      · rw [hsame k (by omega) (by omega)]
        exact hall k (by omega) (by omega)
      · rw [hrun h, relocated, ← hmem]

/-! ## The relocator -/

/-- The entries of the relocation table that `n` dynamic entries announce. -/
def announced (base : UInt64) (dynamic : ℕ) (mem : ℕ → UInt8) (n : ℕ) : List Elf64Rela :=
  match lastVal dtRela (dynamicEntries mem dynamic n),
    lastVal dtRelasz (dynamicEntries mem dynamic n) with
  | some rela, some relasz =>
    relaEntries mem (base.toNat + rela.toNat) (relasz.toNat / 24)
  | _, _ => []

/-- What the relocator demands of `n` dynamic entries: no table, or one of whole entries inside
    the image. -/
def TableOk (imageSize : UInt64) (es : List Elf64Dyn) : Prop :=
  match lastVal dtRela es, lastVal dtRelasz es with
  | none, none => True
  | some rela, some relasz =>
    (lastVal dtRelaent es).getD sizeofElf64Rela = 24 ∧ relasz.toNat % 24 = 0 ∧
      rela.toNat + relasz.toNat ≤ imageSize.toNat
  | _, _ => False

theorem TableOk.both {imageSize : UInt64} {es : List Elf64Dyn} (h : TableOk imageSize es) :
    (lastVal dtRela es).isSome = (lastVal dtRelasz es).isSome := by
  unfold TableOk at h
  split at h
  · next hr hz => rw [hr, hz]
  · next hr hz => rw [hr, hz, Option.isSome_some, Option.isSome_some]
  · exact h.elim

/-- The acceptance condition. -/
def RelocAccepts (base imageSize dynamic : UInt64) (mem : ℕ → UInt8) : Prop :=
  0 < imageSize.toNat ∧ base.toNat + imageSize.toNat < 2 ^ 64 ∧
    ∃ n, Terminated base imageSize dynamic mem n ∧
      TableOk imageSize (dynamicEntries mem dynamic.toNat n) ∧
      ∀ r ∈ announced base dynamic.toNat mem n, RelocEntryOk base imageSize r

/-- No relocation target meets the relocation table. -/
def TargetsApart (base imageSize dynamic : UInt64) (mem : ℕ → UInt8) : Prop :=
  ∀ n, Terminated base imageSize dynamic mem n →
    ∀ rela relasz, lastVal dtRela (dynamicEntries mem dynamic.toNat n) = some rela →
      lastVal dtRelasz (dynamicEntries mem dynamic.toNat n) = some relasz →
      ∀ r ∈ announced base dynamic.toNat mem n,
        KeepsClear base r (base.toNat + rela.toNat) (base.toNat + rela.toNat + relasz.toNat)

/-- The part of the relocator after the scan. -/
def relocateTable (base imageSize : UInt64) (scan : DynScan) : StateM Ram UInt64 :=
  if !scan.haveRela then pure 0
  else if scan.relaent ≠ sizeofElf64Rela ∨ scan.relasz % scan.relaent ≠ 0 then pure 1
  else if scan.rela > imageSize ∨ scan.relasz > imageSize - scan.rela then pure 1
  else applyRelocations base imageSize (base + scan.rela).toNat (scan.relasz / scan.relaent).toNat 0

theorem relocateTable_run {base imageSize : UInt64} {dynamic n : ℕ} {scan : DynScan} {s : Ram}
    (hend : base.toNat + imageSize.toNat < 2 ^ 64)
    (hrec : scan.Records (dynamicEntries s.mem dynamic n)) (hboth : scan.haveRela = scan.haveRelasz)
    (hclear : ∀ rela relasz, lastVal dtRela (dynamicEntries s.mem dynamic n) = some rela →
      lastVal dtRelasz (dynamicEntries s.mem dynamic n) = some relasz →
      ∀ r ∈ announced base dynamic s.mem n,
        KeepsClear base r (base.toNat + rela.toNat) (base.toNat + rela.toNat + relasz.toNat)) :
    ((relocateTable base imageSize scan s).1 = 0 ↔
      TableOk imageSize (dynamicEntries s.mem dynamic n) ∧
        ∀ r ∈ announced base dynamic s.mem n, RelocEntryOk base imageSize r) ∧
    ((relocateTable base imageSize scan s).1 = 0 →
      (relocateTable base imageSize scan s).2.mem =
        relocated base s.mem (announced base dynamic s.mem n)) := by
  have hone : (1 : UInt64) ≠ 0 := by decide
  obtain ⟨hrela, hrelasz, hrelaent, hhave, hhavesz⟩ := hrec
  set es := dynamicEntries s.mem dynamic n with hes
  unfold relocateTable TableOk announced
  rw [← hes]
  -- without a table there is nothing to relocate; half a table contradicts `hboth`
  cases hr : lastVal dtRela es with
  | none =>
    cases hz : lastVal dtRelasz es with
    | none =>
      rw [hr] at hhave
      rw [hhave]
      exact ⟨iff_of_true rfl ⟨trivial, fun r hr => absurd hr List.not_mem_nil⟩, fun _ => rfl⟩
    | some relasz =>
      rw [hhave, hhavesz, hr, hz] at hboth
      cases hboth
  | some rela =>
    cases hz : lastVal dtRelasz es with
    | none =>
      rw [hhave, hhavesz, hr, hz] at hboth
      cases hboth
    | some relasz =>
      have hapart := hclear rela relasz hr hz
      unfold announced at hapart
      rw [← hes] at hapart
      rw [hr] at hrela hapart
      rw [hr, Option.isSome_some] at hhave
      rw [hz] at hrelasz hapart
      rw [hrela, hrelasz, hrelaent, hhave]
      dsimp only [Option.getD_some] at hapart ⊢
      -- the guards in the order of the source, then the loop
      by_cases hshape : (lastVal dtRelaent es).getD sizeofElf64Rela = sizeofElf64Rela ∧
          relasz.toNat % 24 = 0
      swap
      · rw [if_neg (by decide), if_pos (table_shape_iff.2 hshape)]
        exact ⟨iff_of_false hone fun h => hshape ⟨h.1.1, h.1.2.1⟩, fun h => absurd h hone⟩
      rw [if_neg (by decide), if_neg fun h => table_shape_iff.1 h hshape]
      by_cases hin : rela.toNat + relasz.toNat ≤ imageSize.toNat
      swap
      · rw [if_pos (table_room_iff.2 hin)]
        exact ⟨iff_of_false hone fun h => hin h.1.2.2, fun h => absurd h hone⟩
      rw [if_neg fun h => table_room_iff.1 h hin]
      obtain ⟨hent, hwhole⟩ := hshape
      rw [hent]
      have htable : (base + rela).toNat = base.toNat + rela.toNat :=
        Word.toNat_add_of_lt (by omega)
      have hcount : (relasz / sizeofElf64Rela).toNat = relasz.toNat / 24 := by
        rw [UInt64.toNat_div, toNat_sizeofElf64Rela]
      rw [htable, hcount]
      have hmem (k : ℕ) (hk : k < relasz.toNat / 24) :
          Elf64Rela.at s.mem (base.toNat + rela.toNat + 24 * k) ∈
            relaEntries s.mem (base.toNat + rela.toNat) (relasz.toNat / 24) :=
        List.mem_map_of_mem (List.mem_range.2 hk)
      obtain ⟨hiff, hrun⟩ := applyRelocations_run hend (base.toNat + rela.toNat)
        (relasz.toNat / 24) 0 s fun k _ hk => by
          have hk := hapart _ (hmem k (by omega))
          unfold KeepsClear at hk ⊢
          omega
      refine ⟨hiff.trans ⟨fun hall => ⟨⟨rfl, hwhole, hin⟩, fun r hr => ?_⟩, fun h k _ hk => ?_⟩,
        fun h => ?_⟩
      · obtain ⟨k, hk, rfl⟩ := List.mem_map.1 hr
        exact hall k (Nat.zero_le k) (by rw [Nat.zero_add]; exact List.mem_range.1 hk)
      · exact h.2 _ (hmem k (by omega))
      · rw [hrun h, ← List.range_eq_range']
        rfl

/-- Acceptance and result of the relocator, on an image whose relocation targets keep clear of
    the relocation table. -/
theorem sypasReloc_result (base imageSize dynamic : UInt64) (s : Ram)
    (hapart : TargetsApart base imageSize dynamic s.mem) :
    ((sypasReloc base imageSize dynamic s).1 = 0 ↔
      RelocAccepts base imageSize dynamic s.mem) ∧
    ((sypasReloc base imageSize dynamic s).1 = 0 →
      ∃ n, Terminated base imageSize dynamic s.mem n ∧
        (sypasReloc base imageSize dynamic s).2.mem =
          relocated base s.mem (announced base dynamic.toNat s.mem n)) := by
  have hone : (1 : UInt64) ≠ 0 := by decide
  unfold sypasReloc
  by_cases hsize : imageSize = 0
  · rw [if_pos hsize]
    refine ⟨iff_of_false hone fun h => ?_, fun h => absurd h hone⟩
    have hpos := h.1
    rw [hsize, UInt64.toNat_zero] at hpos
    exact lt_irrefl 0 hpos
  rw [if_neg hsize]
  have hpos : 0 < imageSize.toNat := by
    rw [Nat.pos_iff_ne_zero, ← UInt64.toNat_zero, ne_eq, UInt64.toNat_inj]
    exact hsize
  cases hadd : addOk base imageSize with
  | none =>
    rw [addOk_eq_none_iff] at hadd
    exact ⟨iff_of_false hone fun h => absurd h.2.1 (by omega), fun h => absurd h hone⟩
  | some imageEnd =>
    obtain ⟨hend, himageEnd⟩ := addOk_eq_some_iff.1 hadd
    dsimp only
    by_cases hdyn : dynamic < base ∨ dynamic > imageEnd ∨ imageEnd - dynamic < sizeofElf64Dyn
    · rw [if_pos hdyn]
      refine ⟨iff_of_false hone ?_, fun h => absurd h hone⟩
      rintro ⟨-, -, n, hterm, -⟩
      exact hterm.dynamic_inside himageEnd hdyn
    rw [if_neg hdyn]
    obtain ⟨hlo, hspan⟩ := dynamic_span hdyn
    have hcount : ((imageEnd - dynamic) / sizeofElf64Dyn).toNat =
        (base.toNat + imageSize.toNat - dynamic.toNat) / 16 := by
      rw [UInt64.toNat_div, hspan, toNat_sizeofElf64Dyn, himageEnd]
    rw [hcount]
    set count := (base.toNat + imageSize.toNat - dynamic.toNat) / 16
    obtain ⟨hscan, hmem⟩ := scanDynamic_run dynamic.toNat count 0 {} s
    have hspec := scanAll_spec (fun k => Elf64Dyn.at s.mem (dynamic.toNat + 16 * k)) count 0 {}
      .nil rfl
    rw [← hscan] at hspec
    rw [Prog.bind_run]
    generalize scanDynamic dynamic.toNat count 0 {} s = r at hmem hspec ⊢
    obtain ⟨scan, s₁⟩ := r
    dsimp only at hmem hspec ⊢
    simp only [Nat.zero_add] at hspec
    obtain ⟨n, hn, hnull, hfirst, hrec, hdone⟩ | ⟨hall, hdone⟩ := hspec
    swap
    · -- no null entry before the end of the image
      rw [hdone, if_pos (.inl rfl)]
      refine ⟨iff_of_false hone ?_, fun h => absurd h hone⟩
      rintro ⟨-, -, n, hterm, -⟩
      have hin := hterm.inside
      exact hall n (by omega) hterm.null
    have hterm : Terminated base imageSize dynamic s.mem n := ⟨hlo, by omega, hnull, hfirst⟩
    have hrec₁ : scan.Records (dynamicEntries s₁.mem dynamic.toNat n) := by
      rw [hmem]
      exact hrec
    -- the scan stops at the first null entry, so the `n` of the specification is this one
    have hunique (P : ℕ → Prop) : (∃ m, Terminated base imageSize dynamic s.mem m ∧ P m) ↔ P n :=
      ⟨fun ⟨m, hm, hp⟩ => hm.unique hterm ▸ hp, fun hp => ⟨n, hterm, hp⟩⟩
    by_cases hboth : scan.haveRela = scan.haveRelasz
    swap
    -- an address without a size, or a size without an address
    · rw [if_pos (.inr hboth)]
      refine ⟨iff_of_false hone fun h => ?_, fun h => absurd h hone⟩
      have htable := ((hunique _).1 h.2.2).1
      rw [hrec.haveRela, hrec.haveRelasz] at hboth
      exact hboth htable.both
    have hguard : ¬((!scan.terminated) = true ∨ scan.haveRela ≠ scan.haveRelasz) := by
      rw [hdone]
      simpa using hboth
    rw [if_neg hguard]
    -- the scan only read, so the entries are those of the memory before it
    have htable := relocateTable_run (s := s₁) hend hrec₁ hboth (by
      rw [hmem]
      exact hapart n hterm)
    rw [hmem] at htable
    change ((relocateTable base imageSize scan s₁).1 = 0 ↔ _) ∧
      ((relocateTable base imageSize scan s₁).1 = 0 → _)
    refine ⟨htable.1.trans ⟨fun h => ⟨hpos, hend, n, hterm, h⟩, fun h => (hunique _).1 h.2.2⟩,
      fun h => ⟨n, hterm, htable.2 h⟩⟩

/-- An image at `0x1000` with three dynamic entries and two relocations, whose targets overlap. -/
def relocImage : Ram :=
  ⟨Ram.image [(0x1000, 8, 7), (0x1008, 8, 0x40), (0x1010, 8, 8), (0x1018, 8, 48),
    (0x1020, 8, 9), (0x1028, 8, 24), (0x1040, 8, 0x80), (0x1048, 8, 8), (0x1050, 8, 0x44),
    (0x1058, 8, 0x84), (0x1060, 8, 8), (0x1068, 8, 0xFFFFFFFFFFFFFFFF)], []⟩

theorem relocImage_terminated : Terminated 0x1000 0x100 0x1000 relocImage.mem 3 where
  base_le := by decide
  inside := by decide
  null := by decide +kernel
  first := by decide +kernel

theorem relocImage_apart : TargetsApart 0x1000 0x100 0x1000 relocImage.mem := by
  intro n hterm rela relasz hr hz r hmem
  obtain rfl := hterm.unique relocImage_terminated
  have hrela : lastVal dtRela (dynamicEntries relocImage.mem 0x1000 3) = some 0x40 := by
    decide +kernel
  have hrelasz : lastVal dtRelasz (dynamicEntries relocImage.mem 0x1000 3) = some 48 := by
    decide +kernel
  obtain rfl : rela = 0x40 := Option.some.inj (hr.symm.trans hrela)
  obtain rfl : relasz = 48 := Option.some.inj (hz.symm.trans hrelasz)
  have hall : ∀ r ∈ announced 0x1000 0x1000 relocImage.mem 3,
      KeepsClear 0x1000 r (0x1000 + 0x40) (0x1000 + 0x40 + 48) := by decide +kernel
  exact hall r hmem

theorem relocImage_result : RelocAccepts 0x1000 0x100 0x1000 relocImage.mem :=
  (sypasReloc_result 0x1000 0x100 0x1000 relocImage relocImage_apart).1.1 (by decide +kernel)

/-- A dynamic table just below the image, in memory that is all zero: a null entry is found at
    `dynamic`, no table is announced, and the image does not wrap, but the pointer is refused. -/
theorem dynamic_below_image_refused :
    0 < (0x100 : UInt64).toNat ∧ (0x1000 : UInt64).toNat + (0x100 : UInt64).toNat < 2 ^ 64 ∧
    (Elf64Dyn.at (fun _ => 0) 0xFF0).dTag = dtNull ∧ 0xFF0 + 16 ≤ 0x1000 + 0x100 ∧
    lastVal dtRela (dynamicEntries (fun _ => 0) 0xFF0 0) = none ∧
    lastVal dtRelasz (dynamicEntries (fun _ => 0) 0xFF0 0) = none ∧
    TargetsApart 0x1000 0x100 0xFF0 (fun _ => 0) ∧
    (sypasReloc 0x1000 0x100 0xFF0 ⟨fun _ => 0, []⟩).1 = 1 := by
  refine ⟨by decide, by decide, by decide +kernel, by decide, rfl, rfl, fun n hterm => ?_,
    by decide +kernel⟩
  exact absurd hterm.base_le (by decide)

end Sypas
