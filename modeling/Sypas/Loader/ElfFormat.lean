import Sypas.Loader.Elf

/-!
# The SYPAS v1 kernel format

What an acceptable kernel file is, stated on the parsed headers with unbounded
integers, and what the checks of `elf.c` say in those terms.

## Main definitions

- `Sypas.SypasV1` — the format
- `Sypas.loadSegment` — the plan segment a non-empty `PT_LOAD` stands for

## Main results

- `Sypas.checkEhdr_eq_none_iff`, `Sypas.checkLoad_eq_none_iff`,
  `Sypas.planSegment_eq_ok_iff` — each group of checks, exactly
-/

namespace Sypas

/-- The start of the page that contains address `a`. -/
def pageFloor (a : ℕ) : ℕ := a / 4096 * 4096

/-- The first page boundary at or above address `a`. -/
def pageCeil (a : ℕ) : ℕ := (a + 4095) / 4096 * 4096

namespace Elf64Phdr

/-- A `PT_LOAD` header. -/
def IsLoad (ph : Elf64Phdr) : Prop := ph.pType = ptLoad

/-- A `PT_LOAD` header that occupies memory. -/
def IsSegment (ph : Elf64Phdr) : Prop := ph.pType = ptLoad ∧ ph.pMemsz ≠ 0

instance (ph : Elf64Phdr) : Decidable ph.IsLoad := inferInstanceAs (Decidable (_ = _))

instance (ph : Elf64Phdr) : Decidable ph.IsSegment := inferInstanceAs (Decidable (_ ∧ _))

/-- The first page of the segment's memory. -/
def firstPage (ph : Elf64Phdr) : ℕ := pageFloor ph.pPaddr.toNat

/-- The end of the last page of the segment's memory. -/
def lastPage (ph : Elf64Phdr) : ℕ := pageCeil (ph.pPaddr.toNat + ph.pMemsz.toNat)

end Elf64Phdr

/-- The header fields the format fixes, and the program header table's place. -/
structure ValidEhdr (eh : Elf64Ehdr) (fsize : UInt64) : Prop where
  magic : eh.eMagic = elfMagic
  class64 : eh.eClass = elfClass64
  data : eh.eData = elfData2Lsb
  iversion : eh.eIversion = evCurrent
  version : eh.eVersion = evCurrent.toUInt32
  machine : eh.eMachine = emX8664
  type : eh.eType = etExec
  ehsize : eh.eEhsize.toNat = 64
  phentsize : eh.ePhentsize.toNat = 56
  phnum : 1 ≤ eh.ePhnum.toNat
  table : eh.ePhoff.toNat + 56 * eh.ePhnum.toNat ≤ fsize.toNat

/-- The policy every `PT_LOAD` header obeys, empty or not. -/
structure LoadPolicy (ph : Elf64Phdr) : Prop where
  filesz_le : ph.pFilesz.toNat ≤ ph.pMemsz.toNat
  align : ph.pAlign.toNat ≤ 1 ∨
    ∃ k, ph.pAlign.toNat = 2 ^ k ∧ ph.pVaddr.toNat ≡ ph.pOffset.toNat [MOD 2 ^ k]
  identity : ph.pVaddr = ph.pPaddr
  flags_known : ph.pFlags.toNat < 8
  not_wx : ¬(ph.pFlags &&& pfW ≠ 0 ∧ ph.pFlags &&& pfX ≠ 0)

/-- The ranges of a non-empty `PT_LOAD`: inside the file, and inside the address
    space even after rounding up to a page. -/
structure LoadRange (fsize : UInt64) (ph : Elf64Phdr) : Prop where
  file : ph.pOffset.toNat + ph.pFilesz.toNat ≤ fsize.toNat
  memory : ph.pPaddr.toNat + ph.pMemsz.toNat + 4095 < 2 ^ 64

/-- The page-rounded ranges of two segments do not meet. -/
def PagesDisjoint (p q : Elf64Phdr) : Prop :=
  p.lastPage ≤ q.firstPage ∨ q.lastPage ≤ p.firstPage

/-- The non-empty `PT_LOAD` headers, in table order. -/
def segmentHeaders (phs : List Elf64Phdr) : List Elf64Phdr := phs.filter Elf64Phdr.IsSegment

/-- The SYPAS v1 kernel format, on the header `eh` and the program headers `phs`. -/
structure SypasV1 (eh : Elf64Ehdr) (phs : List Elf64Phdr) (fsize : UInt64) : Prop where
  size : 64 ≤ fsize.toNat
  header : ValidEhdr eh fsize
  policy : ∀ ph ∈ phs, ph.IsLoad → LoadPolicy ph
  range : ∀ ph ∈ segmentHeaders phs, LoadRange fsize ph
  some_segment : 1 ≤ (segmentHeaders phs).length
  max_segments : (segmentHeaders phs).length ≤ 16
  disjoint : (segmentHeaders phs).Pairwise PagesDisjoint
  span : ∀ p ∈ segmentHeaders phs, ∀ q ∈ segmentHeaders phs,
    p.lastPage ≤ q.firstPage + 256 * 1024 * 1024
  entry : ∃ ph ∈ segmentHeaders phs, ph.pFlags &&& pfX ≠ 0 ∧
    ph.pPaddr.toNat ≤ eh.eEntry.toNat ∧ eh.eEntry.toNat < ph.pPaddr.toNat + ph.pFilesz.toNat

/-- The plan segment of a non-empty `PT_LOAD`: its ranges, and their tight page cover. -/
def loadSegment (ph : Elf64Phdr) : ElfSegment where
  paddr := ph.pPaddr
  pageBase := UInt64.ofNat ph.firstPage
  pageEnd := UInt64.ofNat ph.lastPage
  offset := ph.pOffset
  filesz := ph.pFilesz
  memsz := ph.pMemsz
  flags := ph.pFlags

/-! ## The header checks -/

/-- A chain of guards passes exactly when its first guard and the rest do. -/
theorem guard_eq_none_iff {α : Type} {c : Prop} [Decidable c] {a : α} {r : Option α} :
    (if c then some a else r) = none ↔ ¬c ∧ r = none := by
  split <;> simp_all

theorem toNat_phtBytes (n : UInt16) : (n.toUInt64 * sizeofElf64Phdr).toNat = 56 * n.toNat := by
  have hn := n.toNat_lt
  have h56 : sizeofElf64Phdr.toNat = 56 := rfl
  rw [Word.toNat_mul_of_lt] <;> rw [UInt16.toNat_toUInt64, h56] <;> omega

theorem checkEhdr_eq_none_iff (eh : Elf64Ehdr) (fsize : UInt64) :
    checkEhdr eh fsize = none ↔ ValidEhdr eh fsize := by
  have hf := fsize.toNat_lt
  -- the end of the program header table overflows, or is compared with the file size
  have hwrap (h : addOk eh.ePhoff (eh.ePhnum.toUInt64 * sizeofElf64Phdr) = none) :
      ¬eh.ePhoff.toNat + 56 * eh.ePhnum.toNat ≤ fsize.toNat := by
    rw [addOk_eq_none_iff, toNat_phtBytes] at h
    omega
  have htable {phtEnd : UInt64}
      (h : addOk eh.ePhoff (eh.ePhnum.toUInt64 * sizeofElf64Phdr) = some phtEnd) :
      ¬phtEnd > fsize ↔ eh.ePhoff.toNat + 56 * eh.ePhnum.toNat ≤ fsize.toNat := by
    rw [addOk_eq_some_iff, toNat_phtBytes] at h
    rw [gt_iff_lt, UInt64.not_lt, UInt64.le_iff_toNat_le]
    omega
  have heh : eh.eEhsize.toNat = 64 ↔ eh.eEhsize = sizeofElf64Ehdr.toUInt16 := by
    rw [← UInt16.toNat_inj]
    rfl
  have hent : eh.ePhentsize.toNat = 56 ↔ eh.ePhentsize = sizeofElf64Phdr.toUInt16 := by
    rw [← UInt16.toNat_inj]
    rfl
  have hnum : 1 ≤ eh.ePhnum.toNat ↔ eh.ePhnum ≠ 0 := by
    rw [ne_eq, ← UInt16.toNat_inj, UInt16.toNat_zero]
    omega
  unfold checkEhdr
  simp only [guard_eq_none_iff, not_not, ne_eq, not_or]
  constructor
  · rintro ⟨hmagic, hclass, hdata, ⟨hiv, hv⟩, hmach, htype, hehs, hents, hn, htab⟩
    refine ⟨hmagic, hclass, hdata, hiv, hv, hmach, htype, heh.2 hehs, hent.2 hents, hnum.2 hn, ?_⟩
    cases h : addOk eh.ePhoff (eh.ePhnum.toUInt64 * sizeofElf64Phdr) with
    | none =>
      rw [h] at htab
      cases htab
    | some phtEnd =>
      rw [h] at htab
      exact (htable h).1 (by simpa using htab)
  · rintro ⟨hmagic, hclass, hdata, hiv, hv, hmach, htype, hehs, hents, hn, htab⟩
    refine ⟨hmagic, hclass, hdata, ⟨hiv, hv⟩, hmach, htype, heh.1 hehs, hent.1 hents, hnum.1 hn, ?_⟩
    cases h : addOk eh.ePhoff (eh.ePhnum.toUInt64 * sizeofElf64Phdr) with
    | none => exact absurd htab (hwrap h)
    | some phtEnd => exact if_neg ((htable h).2 htab)

/-! ## The policy on one program header -/

theorem powerOfTwo_iff (n : UInt64) : powerOfTwo n = true ↔ ∃ k, n.toNat = 2 ^ k := by
  have h1 : (1 : UInt64).toNat = 1 := rfl
  have hiff : powerOfTwo n = true ↔ n.toNat ≠ 0 ∧ n.toNat &&& (n.toNat - 1) = 0 := by
    unfold powerOfTwo
    simp only [ne_eq, decide_eq_true_eq, ← UInt64.toNat_inj, UInt64.toNat_and, UInt64.toNat_zero]
    refine and_congr_right fun hn => ?_
    rw [UInt64.toNat_sub_of_le _ _ (UInt64.le_iff_toNat_le.2 (by omega)), h1]
  rw [hiff]
  constructor
  · rintro ⟨hn, hand⟩
    exact (Word.and_pred_eq_zero_iff hn).1 hand
  · rintro ⟨k, hk⟩
    have hn : n.toNat ≠ 0 := by
      rw [hk]
      exact (Nat.two_pow_pos k).ne'
    exact ⟨hn, (Word.and_pred_eq_zero_iff hn).2 ⟨k, hk⟩⟩

/-- The alignment test of `elf.c`: the masked wrapping difference is a congruence. -/
theorem align_guard_iff (ph : Elf64Phdr) :
    (ph.pAlign > 1 ∧ ((!powerOfTwo ph.pAlign) = true ∨
      (ph.pVaddr - ph.pOffset) &&& (ph.pAlign - 1) ≠ 0)) ↔
    ¬(ph.pAlign.toNat ≤ 1 ∨
      ∃ k, ph.pAlign.toNat = 2 ^ k ∧ ph.pVaddr.toNat ≡ ph.pOffset.toNat [MOD 2 ^ k]) := by
  have h1 : (1 : UInt64).toNat = 1 := rfl
  have hlt := ph.pAlign.toNat_lt
  rw [gt_iff_lt, UInt64.lt_iff_toNat_lt, h1, Bool.not_eq_true', ← Bool.not_eq_true, powerOfTwo_iff,
    not_or, not_le]
  refine and_congr_right fun hgt => ?_
  have hpred : ∀ k, ph.pAlign.toNat = 2 ^ k → (ph.pAlign - 1).toNat = 2 ^ k - 1 := by
    intro k hk
    rw [UInt64.toNat_sub_of_le _ _ (UInt64.le_iff_toNat_le.2 (by omega)), hk, h1]
  have hmask : ∀ k, ph.pAlign.toNat = 2 ^ k →
      ((ph.pVaddr - ph.pOffset) &&& (ph.pAlign - 1) = 0 ↔
        ph.pVaddr.toNat ≡ ph.pOffset.toNat [MOD 2 ^ k]) := by
    intro k hk
    refine Word.sub_and_mask_eq_zero_iff _ _ ?_ (hpred k hk)
    rw [hk] at hlt
    exact (Nat.pow_lt_pow_iff_right (by omega)).1 hlt |>.le
  constructor
  · rintro (hno | hres) ⟨k, hk, hmod⟩
    · exact hno ⟨k, hk⟩
    · exact hres ((hmask k hk).2 hmod)
  · intro hno
    by_cases hpow : ∃ k, ph.pAlign.toNat = 2 ^ k
    · obtain ⟨k, hk⟩ := hpow
      exact Or.inr fun hzero => hno ⟨k, hk, (hmask k hk).1 hzero⟩
    · exact Or.inl hpow

/-- The permission test of `elf.c`: a bit beyond R/W/X, or W and X together. -/
theorem flags_guard_iff (flags : UInt32) :
    (flags &&& ~~~(pfR ||| pfW ||| pfX) ≠ 0 ∨ flags &&& (pfW ||| pfX) = (pfW ||| pfX)) ↔
    ¬(flags.toNat < 8 ∧ ¬(flags &&& pfW ≠ 0 ∧ flags &&& pfX ≠ 0)) := by
  have h3 : (flags &&& (pfW ||| pfX)).toNat = flags.toNat % 2 ^ 2 := by
    rw [UInt32.toNat_and, show (pfW ||| pfX).toNat = 2 ^ 2 - 1 by decide,
      Nat.and_two_pow_sub_one_eq_mod]
  have h1 : (flags &&& pfX).toNat = flags.toNat % 2 ^ 1 := by
    rw [UInt32.toNat_and, show pfX.toNat = 2 ^ 1 - 1 by decide, Nat.and_two_pow_sub_one_eq_mod]
  have h2 : (flags &&& pfW).toNat = flags.toNat % 4 - flags.toNat % 2 := by
    have hbit : flags.toNat % 4 &&& 2 = flags.toNat % 4 - flags.toNat % 4 % 2 := by
      have hlt : flags.toNat % 4 < 4 := Nat.mod_lt _ (by decide)
      interval_cases flags.toNat % 4 <;> rfl
    have hcut : flags.toNat &&& 2 = flags.toNat % 4 &&& 2 := by
      rw [show 4 = 2 ^ 2 from rfl, ← Nat.and_two_pow_sub_one_eq_mod, Nat.and_assoc]
      rfl
    rw [UInt32.toNat_and, show pfW.toNat = 2 by decide, hcut, hbit]
    omega
  have h8 : (flags &&& ~~~(pfR ||| pfW ||| pfX)).toNat = flags.toNat / 8 * 8 :=
    Word.toNat_and_not_mask_bitVec flags.toBitVec (k := 3) (by decide)
  have hwx : (pfW ||| pfX).toNat = 3 := by decide
  simp only [ne_eq, ← UInt32.toNat_inj, h1, h2, h3, h8, hwx, UInt32.toNat_zero]
  omega

theorem checkLoad_eq_none_iff (ph : Elf64Phdr) : checkLoad ph = none ↔ LoadPolicy ph := by
  have hsizes : ph.pFilesz > ph.pMemsz ↔ ¬ph.pFilesz.toNat ≤ ph.pMemsz.toNat := by
    rw [gt_iff_lt, UInt64.lt_iff_toNat_lt, not_le]
  unfold checkLoad
  simp only [guard_eq_none_iff, hsizes, align_guard_iff, flags_guard_iff, not_not, ne_eq]
  constructor
  · rintro ⟨hsz, hal, hid, ⟨hknown, hwx⟩, -⟩
    exact ⟨hsz, hal, hid, hknown, hwx⟩
  · rintro ⟨hsz, hal, hid, hknown, hwx⟩
    exact ⟨hsz, hal, hid, ⟨hknown, hwx⟩, trivial⟩

/-! ## The ranges of one segment -/

theorem toNat_pageMask : elfPageMask.toNat = 2 ^ 12 - 1 := by decide

theorem addOrOverflow_eq_ok_iff {a b c : UInt64} :
    addOrOverflow a b = .ok c ↔ a.toNat + b.toNat < 2 ^ 64 ∧ c.toNat = a.toNat + b.toNat := by
  unfold addOrOverflow
  rw [← addOk_eq_some_iff]
  cases addOk a b with
  | none => simp
  | some c' => simp

theorem toNat_pageBase (a : UInt64) :
    (a &&& ~~~elfPageMask) = UInt64.ofNat (pageFloor a.toNat) := by
  rw [← UInt64.toNat_inj, Word.toNat_and_not_mask a toNat_pageMask, Word.toNat_ofNat_of_lt]
  · norm_num [pageFloor]
  · have ha := a.toNat_lt
    unfold pageFloor
    omega

theorem pageFloor_add (a : ℕ) : pageFloor (a + 4095) = pageCeil a := by
  rw [pageFloor, pageCeil]

theorem planSegment_eq_ok_iff (fsize : UInt64) (ph : Elf64Phdr) (seg : ElfSegment) :
    planSegment fsize ph = .ok seg ↔ LoadRange fsize ph ∧ seg = loadSegment ph := by
  have hf := fsize.toNat_lt
  have hmask : elfPageMask.toNat = 4095 := by decide
  unfold planSegment
  simp only [Prog.bind_eq_ok_iff, addOrOverflow_eq_ok_iff]
  constructor
  · rintro ⟨fileEnd, ⟨-, hfile⟩, hrest⟩
    split at hrest
    · cases hrest
    next hbound =>
    simp only [Prog.bind_eq_ok_iff, addOrOverflow_eq_ok_iff] at hrest
    obtain ⟨memEnd, ⟨-, hmem⟩, pageEnd, ⟨hpage, hpageEnd⟩, hseg⟩ := hrest
    rw [UInt64.not_lt, UInt64.le_iff_toNat_le] at hbound
    refine ⟨⟨by omega, by omega⟩, ?_⟩
    cases hseg
    simp only [loadSegment, toNat_pageBase, hpageEnd, hmem, hmask, pageFloor_add,
      Elf64Phdr.firstPage, Elf64Phdr.lastPage]
  · rintro ⟨⟨hfile, hmem⟩, rfl⟩
    refine ⟨ph.pOffset + ph.pFilesz, ⟨by omega, Word.toNat_add_of_lt (by omega)⟩, ?_⟩
    rw [if_neg (by
      rw [UInt64.not_lt, UInt64.le_iff_toNat_le, Word.toNat_add_of_lt (by omega)]
      exact hfile)]
    have hsum : (ph.pPaddr + ph.pMemsz).toNat = ph.pPaddr.toNat + ph.pMemsz.toNat :=
      Word.toNat_add_of_lt (by omega)
    have hround : (ph.pPaddr + ph.pMemsz + elfPageMask).toNat =
        ph.pPaddr.toNat + ph.pMemsz.toNat + 4095 := by
      rw [Word.toNat_add_of_lt (by omega), hsum, hmask]
    simp only [Prog.bind_eq_ok_iff, addOrOverflow_eq_ok_iff]
    refine ⟨ph.pPaddr + ph.pMemsz, ⟨by omega, hsum⟩,
      ph.pPaddr + ph.pMemsz + elfPageMask, ⟨by omega, by omega⟩, ?_⟩
    simp only [loadSegment, toNat_pageBase, hround, pageFloor_add, Elf64Phdr.firstPage,
      Elf64Phdr.lastPage]

end Sypas
