import Sypas.Loader.KernelLoad
import Sypas.Loader.MapBuffers

/-!
# The defensive exits of the loader

The translator and the validator test sums that cannot overflow. None of these tests ever fails
on what the code before them has let through.

## Main results

- `Sypas.sypasTranslateMemoryMap_status` — the translator's output tests
- `Sypas.SypasV1.expectedKernelBytes_ok` — the translator's guard on an accepted plan
- `Sypas.checkEntry_ne_overflow` — the validator's second test of a file range
- `Sypas.defensive_exits_unreachable` — all of them
-/

namespace Sypas

open Ram

/-! ## Packing -/

/-- Segments that share no address and lie in a span are no larger than it. -/
theorem sum_pageBytes_le {segs : List ElfSegment} {lo hi : ℕ} (hapart : SegmentsApart segs)
    (hin : ∀ seg ∈ segs, lo ≤ seg.pageBase.toNat ∧ seg.pageEnd.toNat ≤ hi) :
    (segs.map ElfSegment.pageBytes).sum ≤ hi - lo := by
  rw [← (card_segmentAddresses_eq_iff segs).2 hapart, ← Nat.card_Ico]
  apply Finset.card_le_card
  intro a ha
  obtain ⟨seg, hseg, hlow, hhigh⟩ := mem_segmentAddresses.1 ha
  obtain ⟨hlo, hhi⟩ := hin seg hseg
  exact Finset.mem_Ico.2 ⟨hlo.trans hlow, hhigh.trans_le hhi⟩

/-! ## An accepted plan -/

section Accepted

variable {eh : Elf64Ehdr} {phs : List Elf64Phdr} {fsize : UInt64}

theorem SypasV1.paged (h : SypasV1 eh phs fsize) :
    ∀ seg ∈ (segmentHeaders phs).map loadSegment, seg.Paged := by
  rw [List.forall_mem_map]
  intro ph hph
  have hrange := h.range ph hph
  refine ⟨?_, ?_, ?_⟩
  · rw [toNat_loadSegment_pageBase]
    exact Nat.mul_mod_left _ _
  · rw [toNat_loadSegment_pageEnd hrange]
    exact Nat.mul_mod_left _ _
  · rw [toNat_loadSegment_pageBase, toNat_loadSegment_pageEnd hrange]
    exact firstPage_lt_lastPage (mem_segmentHeaders.1 hph).2

/-- The span of an accepted plan, from the segments at its ends. -/
theorem SypasV1.span_le (h : SypasV1 eh phs fsize) {plan : ElfLoadPlan} (hplan : plan.Lists phs) :
    plan.physEnd.toNat - plan.physBase.toNat ≤ 256 * 1024 * 1024 := by
  have hne := h.segs_ne_nil hplan
  obtain ⟨first, hfirst, hbase⟩ := hplan.base_mem hne
  obtain ⟨last, hlast, hend⟩ := hplan.end_mem hne
  rw [hplan.segs, List.mem_map] at hfirst hlast
  obtain ⟨p, hp, rfl⟩ := hfirst
  obtain ⟨q, hq, rfl⟩ := hlast
  have hspan := h.span q hq p hp
  rw [← hbase, ← hend, toNat_loadSegment_pageBase, toNat_loadSegment_pageEnd (h.range q hq)]
  omega

/-- The guard passes, with a total that fits the span. -/
theorem SypasV1.expectedKernelBytes_ok (h : SypasV1 eh phs fsize) {plan : ElfLoadPlan}
    (hplan : plan.Lists phs) :
    ∃ total, expectedKernelBytes plan.segs 0 = .ok total ∧
      total.toNat ≤ plan.physEnd.toNat - plan.physBase.toNat := by
  have hsum : (plan.segs.map ElfSegment.pageBytes).sum ≤
      plan.physEnd.toNat - plan.physBase.toNat := by
    refine sum_pageBytes_le ?_ fun seg hseg => ⟨?_, ?_⟩
    · rw [hplan.segs]
      exact h.segmentsApart
    · exact UInt64.le_iff_toNat_le.1 (hplan.base_le seg hseg)
    · exact UInt64.le_iff_toNat_le.1 (hplan.le_end seg hseg)
  have hlt := plan.physEnd.toNat_lt
  have htotal : (UInt64.ofNat (plan.segs.map ElfSegment.pageBytes).sum).toNat =
      (plan.segs.map ElfSegment.pageBytes).sum := Word.toNat_ofNat_of_lt (by omega)
  refine ⟨_, (expectedKernelBytes_eq_ok_iff _ _ _).2 ⟨?_, ?_⟩, htotal.trans_le hsum⟩
  · rw [hplan.segs]
    exact h.paged
  · rw [htotal, UInt64.toNat_zero, Nat.zero_add]

end Accepted

/-! ## The entry-point loop -/

theorem checkEntry_ne_overflow {entry : UInt64} {segs : List ElfSegment}
    (h : ∀ seg ∈ segs, seg.paddr.toNat + seg.filesz.toNat < 2 ^ 64) :
    checkEntry entry segs ≠ .errSegOverflow := by
  induction segs with
  | nil => rintro ⟨⟩
  | cons seg rest ih =>
    rw [checkEntry, addOk_of_lt (h seg List.mem_cons_self)]
    dsimp only
    split
    · rintro ⟨⟩
    · exact ih fun s hs => h s (List.mem_cons_of_mem _ hs)

/-- For every input: the translator never reports an output overflow; its guard passes every plan
    of an accepted file, with a total within the span and 256 MiB; and the entry-point loop never
    finds an overflow behind a finished `PT_LOAD` loop. -/
theorem defensive_exits_unreachable :
    (∀ fuel efiMap mapSize descriptorSize kernel outCapacity outCount s res,
      (sypasTranslateMemoryMap fuel efiMap mapSize descriptorSize kernel outCapacity outCount
        s).1 = some res → res.status ≠ .errOutputOverflow) ∧
    (∀ file fsize plan s, let r := (elfPlanLoad file fsize plan s).1
      r.1 = .ok → ∃ total, expectedKernelBytes r.2.segs 0 = .ok total ∧
        total.toNat ≤ r.2.physEnd.toNat - r.2.physBase.toNat ∧
        r.2.physEnd.toNat - r.2.physBase.toNat ≤ 256 * 1024 * 1024) ∧
    ∀ file fsize (plan : ElfLoadPlan) s, let eh := Elf64Ehdr.at s.mem file
      let r := (planPhdrs fsize (file + eh.ePhoff.toNat) eh.ePhnum.toNat 0 plan.reset s).1
      r.1 = .ok → checkEntry eh.eEntry r.2.segs ≠ .errSegOverflow := by
  refine ⟨fun fuel efiMap mapSize descriptorSize kernel outCapacity outCount s res hr => ?_,
    fun file fsize plan s => ?_, fun file fsize plan s => ?_⟩
  · obtain ⟨-, hother⟩ | ⟨hfull, -⟩ := sypasTranslateMemoryMap_status hr
    · exact hother
    · rw [hfull]
      exact nofun
  · intro r hok
    have hrun := elfPlanLoad_run file fsize plan s
    obtain ⟨hiff, hplan⟩ := planFile_accepts (Elf64Ehdr.at s.mem file)
      (phdrsAt s.mem (file + (Elf64Ehdr.at s.mem file).ePhoff.toNat)
        (Elf64Ehdr.at s.mem file).ePhnum.toNat) fsize plan
    rw [← hrun] at hiff hplan
    obtain ⟨hlists, -⟩ := hplan hok
    have hformat := hiff.1 hok
    obtain ⟨total, htotal, hle⟩ := hformat.expectedKernelBytes_ok hlists
    exact ⟨total, htotal, hle, hformat.span_le hlists⟩
  · intro eh r hok
    obtain ⟨hiff, hlists⟩ := planAll_eq_ok_iff (Acceptable.nil fsize) plan.reset_lists
      (phdrsAt s.mem (file + eh.ePhoff.toNat) eh.ePhnum.toNat)
    have hrun : r = planAll fsize (phdrsAt s.mem (file + eh.ePhoff.toNat) eh.ePhnum.toNat)
        plan.reset := by
      rw [phdrsAt, List.range_eq_range']
      exact planPhdrs_run _ _ _ _ _ _
    rw [hrun] at hok
    rw [List.nil_append] at hiff hlists
    rw [hrun]
    exact checkEntry_ne_overflow ((hiff.1 hok).fileEnd_lt (hlists hok))

end Sypas
