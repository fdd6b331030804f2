import Sypas.Lib.Extent
import Sypas.Loader.DescriptorSort

/-!
# Memory ownership

What the translated map stands for: every address described by firmware has one
owner type, and the output entries are the maximal runs of that classification.

## Main definitions

- `Sypas.ownership` — the owner type of an address
- `Sypas.Represents` — an output array holds the classification below a bound

## Main results

- `Sypas.append_spec` — `append` extends the represented part by one stretch, and
  fails exactly when the array is too small for the runs it needs
- `Sypas.nextKernelSegment_isNext` — the selection loop finds the next segment
- `Sypas.expectedKernelBytes_eq_ok_iff` — the guard on the plan
-/

namespace Sypas

open Extent

namespace EfiMemoryDescriptor

/-- The end of the described range, as an unbounded integer. -/
def stop (d : EfiMemoryDescriptor) : ℕ := d.physicalStart.toNat + d.numberOfPages.toNat * 4096

/-- The descriptor describes address `a`. -/
def Holds (d : EfiMemoryDescriptor) (a : ℕ) : Prop := d.physicalStart.toNat ≤ a ∧ a < d.stop

instance (d : EfiMemoryDescriptor) (a : ℕ) : Decidable (d.Holds a) :=
  inferInstanceAs (Decidable (_ ∧ _))

/-- A non-empty page-aligned range inside the address space. -/
structure Valid (d : EfiMemoryDescriptor) : Prop where
  pages : d.numberOfPages ≠ 0
  aligned : d.physicalStart.toNat % 4096 = 0
  stop_lt : d.stop < 2 ^ 64

theorem Valid.start_lt_stop {d : EfiMemoryDescriptor} (h : d.Valid) :
    d.physicalStart.toNat < d.stop := by
  have hpages : d.numberOfPages.toNat ≠ 0 := by
    rw [← UInt64.toNat_zero, ne_eq, UInt64.toNat_inj]
    exact h.pages
  unfold stop
  omega

end EfiMemoryDescriptor

/-- The segment's pages contain address `a`. -/
def ElfSegment.Has (seg : ElfSegment) (a : ℕ) : Prop :=
  seg.pageBase.toNat ≤ a ∧ a < seg.pageEnd.toNat

instance (seg : ElfSegment) (a : ℕ) : Decidable (seg.Has a) :=
  inferInstanceAs (Decidable (_ ∧ _))

/-- Some segment's pages contain address `a`. -/
def InSegment (segs : List ElfSegment) (a : ℕ) : Prop := ∃ seg ∈ segs, seg.Has a

instance (segs : List ElfSegment) (a : ℕ) : Decidable (InSegment segs a) :=
  inferInstanceAs (Decidable (∃ seg ∈ segs, seg.Has a))

/-- The owner type of an address described by `d`: LOADER memory inside a planned
    segment belongs to the kernel. -/
def typeAt (segs : List ElfSegment) (d : EfiMemoryDescriptor) (a : ℕ) : UInt32 :=
  if efiToSypasMemtype d.type = sypasMemLoader ∧ InSegment segs a then sypasMemKernel
  else efiToSypasMemtype d.type

/-- The owner type of address `a`, if firmware describes it. -/
def ownership (segs : List ElfSegment) (ds : List EfiMemoryDescriptor) (a : ℕ) : Option UInt32 :=
  (ds.find? fun d => d.Holds a).map fun d => typeAt segs d a

theorem ownership_append_of_lt {segs : List ElfSegment} {ds ds' : List EfiMemoryDescriptor} {a : ℕ}
    (h : ∀ d ∈ ds', a < d.physicalStart.toNat) :
    ownership segs (ds ++ ds') a = ownership segs ds a := by
  have hnone : ds'.find? (fun d => d.Holds a) = none := by
    rw [List.find?_eq_none]
    intro d hd
    rw [decide_eq_true_eq]
    exact fun hin => absurd hin.1 (not_le.2 (h d hd))
  rw [ownership, ownership, List.find?_append, hnone, Option.or_none]

theorem ownership_eq_none {segs : List ElfSegment} {ds : List EfiMemoryDescriptor} {a : ℕ}
    (h : ∀ d ∈ ds, ¬d.Holds a) : ownership segs ds a = none := by
  rw [ownership, Option.map_eq_none_iff, List.find?_eq_none]
  simpa using h

theorem ownership_append_of_holds {segs : List ElfSegment} {ds : List EfiMemoryDescriptor}
    {d : EfiMemoryDescriptor} {a : ℕ} (hbefore : ∀ d' ∈ ds, ¬d'.Holds a) (h : d.Holds a) :
    ownership segs (ds ++ [d]) a = some (typeAt segs d a) := by
  have hnone : ds.find? (fun d => d.Holds a) = none := by
    rw [List.find?_eq_none]
    simpa using hbefore
  simp [ownership, List.find?_append, hnone, h]

theorem efiToSypasMemtype_ne_kernel (type : UInt32) : efiToSypasMemtype type ≠ sypasMemKernel := by
  unfold efiToSypasMemtype
  repeat' split
  all_goals decide

/-- Kernel ownership is exactly LOADER memory inside a segment. -/
theorem typeAt_eq_kernel_iff (segs : List ElfSegment) (d : EfiMemoryDescriptor) (a : ℕ) :
    typeAt segs d a = sypasMemKernel ↔
      efiToSypasMemtype d.type = sypasMemLoader ∧ InSegment segs a := by
  unfold typeAt
  split
  · next h => exact iff_of_true rfl h
  · next h => exact iff_of_false (efiToSypasMemtype_ne_kernel _) h

/-! ## Output arrays -/

/-- The range and type of an entry. -/
def MemmapEntry.extent (e : MemmapEntry) : Extent UInt32 :=
  ⟨e.base.toNat, e.base.toNat + e.length.toNat, e.type⟩

/-- A page-aligned entry with a clear reserved field. -/
structure MemmapEntry.WellFormed (e : MemmapEntry) : Prop where
  base_aligned : e.base.toNat % 4096 = 0
  length_aligned : e.length.toNat % 4096 = 0
  reserved : e.reserved = 0

/-- Below `c`, the output array holds the classification `f`, within its capacity. -/
structure Represents (out : List MemmapEntry) (f : ℕ → Option UInt32) (c : ℕ) (cap : UInt64) :
    Prop where
  covers : Covers (out.map MemmapEntry.extent) f c
  entries : ∀ e ∈ out, e.WellFormed
  room : out.length ≤ cap.toNat

theorem Represents.length_eq {out : List MemmapEntry} {f : ℕ → Option UInt32} {c : ℕ}
    {cap : UInt64} (h : Represents out f c cap) : out.length = runs f c := by
  rw [← h.covers.length_eq, List.length_map]

/-- The part of `append` after its range checks. -/
theorem append_eq {out : List MemmapEntry} {f : ℕ → Option UInt32} {cap base «end» : UInt64}
    {type : UInt32} (h : Represents out f base.toNat cap) (hlt : base.toNat < «end».toNat) :
    append out cap base «end» type =
      match out.getLast? with
      | none => appendNew out cap base («end» - base) type
      | some p =>
        if p.type = type ∧ p.extent.stop = base.toNat then
          .ok (out.dropLast ++ [{ p with length := p.length + («end» - base) }])
        else appendNew out cap base («end» - base) type := by
  have hne : base ≠ «end» := fun heq => by
    rw [heq] at hlt
    exact lt_irrefl _ hlt
  have hend := «end».toNat_lt
  rw [append, if_neg hne]
  rcases hlast : out.getLast? with - | p
  · rfl
  have hstop : p.base.toNat + p.length.toNat ≤ base.toNat :=
    h.covers.stop_le p.extent (List.mem_map_of_mem (List.mem_of_getLast? hlast))
  have hsum : (p.base + p.length).toNat = p.base.toNat + p.length.toNat :=
    Word.toNat_add_of_lt (by omega)
  have hsub : («end» - base).toNat = «end».toNat - base.toNat :=
    UInt64.toNat_sub_of_le _ _ (UInt64.le_iff_toNat_le.2 hlt.le)
  dsimp only
  rw [addOk_of_lt (by omega)]
  dsimp only
  have hge : ¬p.base + p.length > base := by
    rw [gt_iff_lt, UInt64.lt_iff_toNat_lt, hsum]
    omega
  have htouch : p.base + p.length = base ↔ p.extent.stop = base.toNat := by
    rw [← UInt64.toNat_inj, hsum]
    rfl
  rw [if_neg hge, if_congr (and_congr_right fun _ => htouch) rfl rfl]
  split
  · next hmerge =>
    have heq : p.base.toNat + p.length.toNat = base.toNat := hmerge.2
    rw [addOk_of_lt (by omega)]
  · rfl

/-- A new entry needs room in the array. -/
theorem appendNew_spec {out : List MemmapEntry} {f : ℕ → Option UInt32} {cap base «end» : UInt64}
    {type : UInt32} (h : Represents out f base.toNat cap) (hlt : base.toNat < «end».toNat)
    (hbase : base.toNat % 4096 = 0) (hend : «end».toNat % 4096 = 0)
    (hcovers : Extent.Covers (out.map MemmapEntry.extent ++ [⟨base.toNat, «end».toNat, type⟩]) f
      «end».toNat) :
    (runs f «end».toNat ≤ cap.toNat ∧ ∃ out', appendNew out cap base («end» - base) type =
      .ok out' ∧ Represents out' f «end».toNat cap) ∨
    (cap.toNat < runs f «end».toNat ∧
      appendNew out cap base («end» - base) type = .error .errOutputFull) := by
  have hsub : («end» - base).toNat = «end».toNat - base.toNat :=
    UInt64.toNat_sub_of_le _ _ (UInt64.le_iff_toNat_le.2 hlt.le)
  have hroom := h.room
  have hlen := hcovers.length_eq
  rw [List.length_append, List.length_map, List.length_singleton] at hlen
  unfold appendNew
  split
  · exact Or.inr ⟨by omega, rfl⟩
  · refine Or.inl ⟨by omega, _, rfl, ?_, ?_, ?_⟩
    · rw [List.map_append, List.map_singleton, MemmapEntry.extent]
      dsimp only
      rwa [hsub, Nat.add_sub_cancel' hlt.le]
    · intro e he
      rcases List.mem_append.1 he with he | he
      · exact h.entries e he
      · rw [List.mem_singleton.1 he]
        exact ⟨hbase, by dsimp only; omega, rfl⟩
    · rw [List.length_append, List.length_singleton]
      omega

/-- The last entry grows by the next stretch, which takes no room. -/
theorem Represents.grow {init : List MemmapEntry} {p : MemmapEntry} {f : ℕ → Option UInt32}
    {cap base «end» : UInt64} (h : Represents (init ++ [p]) f base.toNat cap)
    (hlt : base.toNat < «end».toNat) (hbase : base.toNat % 4096 = 0)
    (hend : «end».toNat % 4096 = 0) (hstop : p.base.toNat + p.length.toNat = base.toNat)
    (hcovers : Extent.Covers (init.map MemmapEntry.extent ++
      [{ p.extent with stop := «end».toNat }]) f «end».toNat) :
    Represents (init ++ [{ p with length := p.length + («end» - base) }]) f «end».toNat cap := by
  have hendlt := «end».toNat_lt
  have hsub : («end» - base).toNat = «end».toNat - base.toNat :=
    UInt64.toNat_sub_of_le _ _ (UInt64.le_iff_toNat_le.2 hlt.le)
  have hlength : (p.length + («end» - base)).toNat =
      p.length.toNat + («end».toNat - base.toNat) := by
    rw [Word.toNat_add_of_lt (by omega), hsub]
  have hpok := h.entries p (by simp)
  refine ⟨?_, ?_, ?_⟩
  · have hgrown : MemmapEntry.extent { p with length := p.length + («end» - base) } =
        { p.extent with stop := «end».toNat } := by
      simp only [MemmapEntry.extent, hlength]
      congr 1
      omega
    rwa [List.map_append, List.map_singleton, hgrown]
  · intro e he
    rcases List.mem_append.1 he with he | he
    · exact h.entries e (by simp [he])
    · rw [List.mem_singleton.1 he]
      have hal := hpok.length_aligned
      exact ⟨hpok.base_aligned, by dsimp only; omega, hpok.reserved⟩
  · have hroom := h.room
    rw [List.length_append, List.length_singleton] at hroom ⊢
    exact hroom

/-- `append` of the next stretch: it succeeds exactly when the array has room for the
    runs up to the new bound, and then holds the classification up to there. -/
theorem append_spec {out : List MemmapEntry} {f : ℕ → Option UInt32} {cap base «end» : UInt64}
    {type : UInt32} (h : Represents out f base.toNat cap) (hle : base.toNat ≤ «end».toNat)
    (hbase : base.toNat % 4096 = 0) (hend : «end».toNat % 4096 = 0)
    (hconst : ∀ a, base.toNat ≤ a → a < «end».toNat → f a = some type) :
    (runs f «end».toNat ≤ cap.toNat ∧ ∃ out', append out cap base «end» type = .ok out' ∧
      Represents out' f «end».toNat cap) ∨
    (cap.toNat < runs f «end».toNat ∧ append out cap base «end» type = .error .errOutputFull) := by
  rcases hle.eq_or_lt with heq | hlt
  · have hbe : base = «end» := UInt64.toNat_inj.1 heq
    subst hbe
    refine Or.inl ⟨?_, out, by rw [append, if_pos rfl], h⟩
    rw [← h.length_eq]
    exact h.room
  have hpush := h.covers.push hlt hconst
  rw [append_eq h hlt]
  rcases List.eq_nil_or_concat out with rfl | ⟨init, p, rfl⟩
  · exact appendNew_spec h hlt hbase hend hpush
  rw [List.concat_eq_append] at *
  rw [List.map_append, List.map_singleton] at hpush
  have hlast : (init ++ [p]).getLast? = some p := List.getLast?_concat
  rw [hlast]
  dsimp only
  split
  · next hmerge =>
    rw [push_concat_of_touch hmerge] at hpush
    have hgrown := h.grow hlt hbase hend hmerge.2 hpush
    rw [List.dropLast_concat]
    refine Or.inl ⟨?_, _, rfl, hgrown⟩
    rw [← hgrown.length_eq]
    exact hgrown.room
  · next hno =>
    rw [push_concat_of_not hno] at hpush
    refine appendNew_spec h hlt hbase hend ?_
    rwa [List.map_append, List.map_singleton]

/-! ## Choosing the next segment -/

/-- The segment meets `[cursor, end)`. -/
def ElfSegment.Meets (seg : ElfSegment) (cursor «end» : ℕ) : Prop :=
  cursor < seg.pageEnd.toNat ∧ seg.pageBase.toNat < «end»

theorem skip_guard_iff (seg : ElfSegment) (cursor «end» : UInt64) :
    (seg.pageEnd ≤ cursor ∨ seg.pageBase ≥ «end») ↔ ¬seg.Meets cursor.toNat «end».toNat := by
  rw [ge_iff_le, UInt64.le_iff_toNat_le, UInt64.le_iff_toNat_le, ElfSegment.Meets]
  omega

/-- Among `segs`, `r` is a segment of least base that meets `[cursor, end)`, if any does. -/
def IsNext (segs : List ElfSegment) (cursor «end» : ℕ) : Option ElfSegment → Prop
  | none => ∀ seg ∈ segs, ¬seg.Meets cursor «end»
  | some best => best ∈ segs ∧ best.Meets cursor «end» ∧
      ∀ seg ∈ segs, seg.Meets cursor «end» → best.pageBase.toNat ≤ seg.pageBase.toNat

theorem nextKernelSegment_concat (segs : List ElfSegment) (seg : ElfSegment)
    (cursor «end» : UInt64) :
    nextKernelSegment (segs ++ [seg]) cursor «end» =
      let best := nextKernelSegment segs cursor «end»
      if seg.pageEnd ≤ cursor ∨ seg.pageBase ≥ «end» then best
      else match best with
        | none => some seg
        | some b => if seg.pageBase < b.pageBase then some seg else best := by
  rw [nextKernelSegment, List.foldl_append]
  rfl

/-- The selection loop finds the next segment. -/
theorem nextKernelSegment_isNext (segs : List ElfSegment) (cursor «end» : UInt64) :
    IsNext segs cursor.toNat «end».toNat (nextKernelSegment segs cursor «end») := by
  induction segs using List.reverseRecOn with
  | nil => exact fun _ h => absurd h List.not_mem_nil
  | append_singleton segs seg ih =>
    rw [nextKernelSegment_concat]
    generalize nextKernelSegment segs cursor «end» = best at ih ⊢
    dsimp only
    split
    · next hskip =>
      have hno := (skip_guard_iff seg cursor «end»).1 hskip
      rcases best with - | b
      · intro s hs
        rcases List.mem_append.1 hs with hs | hs
        · exact ih s hs
        · rwa [List.mem_singleton.1 hs]
      · obtain ⟨hmem, hmeets, hleast⟩ := ih
        refine ⟨by simp [hmem], hmeets, fun s hs hmeet => ?_⟩
        rcases List.mem_append.1 hs with hs | hs
        · exact hleast s hs hmeet
        · rw [List.mem_singleton.1 hs] at hmeet
          exact absurd hmeet hno
    next hkeep =>
    have hseg := not_not.1 (mt (skip_guard_iff seg cursor «end»).2 hkeep)
    rcases best with - | b
    · refine ⟨by simp, hseg, fun s hs hmeet => ?_⟩
      rcases List.mem_append.1 hs with hs | hs
      · exact absurd hmeet (ih s hs)
      · rw [List.mem_singleton.1 hs]
    obtain ⟨hmem, hmeets, hleast⟩ := ih
    dsimp only
    -- the comparison is strict: of equal bases the earlier segment stays
    by_cases hless : seg.pageBase < b.pageBase
    · rw [if_pos hless]
      rw [UInt64.lt_iff_toNat_lt] at hless
      refine ⟨by simp, hseg, fun s hs hmeet => ?_⟩
      rcases List.mem_append.1 hs with hs | hs
      · have := hleast s hs hmeet
        omega
      · rw [List.mem_singleton.1 hs]
    · rw [if_neg hless]
      rw [UInt64.lt_iff_toNat_lt] at hless
      refine ⟨by simp [hmem], hmeets, fun s hs hmeet => ?_⟩
      rcases List.mem_append.1 hs with hs | hs
      · exact hleast s hs hmeet
      · rw [List.mem_singleton.1 hs]
        omega

/-! ## The guard on the plan -/

theorem expectedKernelBytes_ne_ok (segs : List ElfSegment) (expected : UInt64) :
    expectedKernelBytes segs expected ≠ .error .ok := by
  induction segs generalizing expected with
  | nil => exact nofun
  | cons seg segs ih =>
    rw [expectedKernelBytes]
    split
    · exact nofun
    rcases addOk expected (seg.pageEnd - seg.pageBase) with - | bytes
    · exact nofun
    · exact ih bytes

/-- The size of a segment in whole pages, as an unbounded integer. -/
def ElfSegment.pageBytes (seg : ElfSegment) : ℕ := seg.pageEnd.toNat - seg.pageBase.toNat

/-- A non-empty segment of whole pages. -/
structure ElfSegment.Paged (seg : ElfSegment) : Prop where
  base_aligned : seg.pageBase.toNat % 4096 = 0
  end_aligned : seg.pageEnd.toNat % 4096 = 0
  base_lt_end : seg.pageBase.toNat < seg.pageEnd.toNat

theorem and_pageMask_eq_zero_iff (a : UInt64) : a &&& (pageSize - 1) = 0 ↔ a.toNat % 4096 = 0 := by
  have hmask : (pageSize - 1).toNat = 2 ^ 12 - 1 := by decide
  rw [← UInt64.toNat_inj, Word.toNat_and_mask a hmask, UInt64.toNat_zero]
  norm_num

theorem expectedKernelBytes_eq_ok_iff (segs : List ElfSegment) (expected total : UInt64) :
    expectedKernelBytes segs expected = .ok total ↔
      (∀ seg ∈ segs, seg.Paged) ∧
      total.toNat = expected.toNat + (segs.map ElfSegment.pageBytes).sum := by
  induction segs generalizing expected with
  | nil => simp [expectedKernelBytes, ← UInt64.toNat_inj, eq_comm]
  | cons seg segs ih =>
    have htotal := total.toNat_lt
    have hguard : (seg.pageBase &&& (pageSize - 1) ≠ 0 ∨ seg.pageEnd &&& (pageSize - 1) ≠ 0 ∨
        seg.pageBase ≥ seg.pageEnd) ↔ ¬seg.Paged := by
      rw [ne_eq, ne_eq, and_pageMask_eq_zero_iff, and_pageMask_eq_zero_iff, ge_iff_le,
        UInt64.le_iff_toNat_le]
      constructor
      · rintro (h | h | h) hp
        · exact h hp.base_aligned
        · exact h hp.end_aligned
        · have := hp.base_lt_end
          omega
      · intro hno
        by_contra hcon
        simp only [not_or, not_not, not_le] at hcon
        exact hno ⟨hcon.1, hcon.2.1, hcon.2.2⟩
    rw [expectedKernelBytes]
    split
    · next hbad =>
      refine iff_of_false nofun fun hall => ?_
      exact hguard.1 hbad (hall.1 seg List.mem_cons_self)
    next hgood =>
    have hpaged : seg.Paged := not_not.1 (mt hguard.2 hgood)
    have hsize : (seg.pageEnd - seg.pageBase).toNat = seg.pageBytes :=
      UInt64.toNat_sub_of_le _ _ (UInt64.le_iff_toNat_le.2 hpaged.base_lt_end.le)
    rw [List.map_cons, List.sum_cons, List.forall_mem_cons, and_iff_right hpaged]
    -- an overflowing sum is no `total`, whatever the rest adds to it
    rcases hadd : addOk expected (seg.pageEnd - seg.pageBase) with - | bytes
    · rw [addOk_eq_none_iff, hsize] at hadd
      refine iff_of_false nofun fun hall => ?_
      omega
    · rw [addOk_eq_some_iff, hsize] at hadd
      rw [ih, hadd.2, Nat.add_assoc]

end Sypas
