import Sypas.Loader.EfiMainRules
import Sypas.Loader.Unreachable

/-!
# The loader's parts (`bootloader/uefi/main.c`)

What each function of the loader leaves behind when it returns, against every firmware
that keeps the contract.

## Main results

- `Sypas.readKernelFile_wp` — the buffer holds the file
- `Sypas.loadKernel_wp` — the segments are in place
-/

namespace Sypas

open Program Ram

section Parts

variable {file : List UInt8} {planned : ElfLoadPlan → Prop}
  {jumped : UInt64 → UInt64 → UInt64 → (ℕ → UInt8) → Ledger → Prop}
  {mem : ℕ → UInt8} {g : Ledger} {live : List Block}

theorem Keeps.trans {mem' mem'' : ℕ → UInt8} (h : Keeps live mem mem')
    (h' : Keeps live mem' mem'') :
    Keeps live mem mem'' := fun a ha => (h' a ha).trans (h a ha)

theorem Keeps.of_cons {b : Block} {mem' : ℕ → UInt8} (h : Keeps (b :: live) mem mem') :
    Keeps live mem mem' := by
  rintro a ⟨b', hb', ha⟩
  exact h a ⟨b', List.mem_cons_of_mem _ hb', ha⟩

/-- Bytes inside a live block are kept. -/
theorem Keeps.bytesAt {b : Block} {mem' : ℕ → UInt8} (h : Keeps live mem mem') (hb : b ∈ live)
    {a n : ℕ} (hlo : b.start ≤ a) (hhi : a + n ≤ b.start + b.bytes) :
    bytesAt mem' a n = bytesAt mem a n :=
  bytesAt_congr fun c hc hc' => h c ⟨b, hb, by omega, by omega⟩

/-! ## The kernel file -/

/-- `read_kernel_file` leaves one pool buffer, which holds the whole file. -/
theorem readKernelFile_wp {img : UInt64} {Q : UInt64 × UInt64 → (ℕ → UInt8) → Ledger → Prop}
    (h : Stage [] mem g)
    (hnext : ∀ buf fsize after g', Stage [.pool buf fsize] after g' →
      fsize.toNat = file.length → 0 < fsize.toNat →
      bytesAt after buf.toNat fsize.toNat = file → Q (buf, fsize) after g') :
    (readKernelFile img).wp (services file) (LoaderEnds planned jumped) Q mem g := by
  unfold readKernelFile
  refine wp_bind (call_wp trivial h fun li m₁ g₁ _ _ h₁ _ => wp_bind (dieOnError_wp h₁ fun _ => ?_))
  refine wp_bind (peek_wp (wp_bind (call_wp trivial h₁ fun fs m₂ g₂ _ _ h₂ _ =>
    wp_bind (dieOnError_wp h₂ fun _ => ?_))))
  refine wp_bind (call_wp trivial h₂ fun root m₃ g₃ _ _ h₃ _ =>
    wp_bind (dieOnError_wp h₃ fun _ => ?_))
  refine wp_bind (call_wp trivial h₃ fun f m₄ g₄ _ _ h₄ _ => wp_bind (dieOnError_wp h₄ fun _ => ?_))
  refine wp_bind (call_wp trivial h₄ fun (info : Reply) m₅ g₅ _ hinfo h₅ _ =>
    wp_bind (dieOnError_wp h₅ fun hok => ?_))
  have hsize : info.value.toNat = file.length := hinfo hok
  refine wp_ite (fun _ => dieWith_wp h₅ (reported_die _ _)) fun hpolicy => ?_
  have hpos : 0 < info.value.toNat := by
    rw [not_or, ← UInt64.toNat_inj, UInt64.toNat_zero] at hpolicy
    omega
  refine allocatePool_wp h₅ fun buf m₆ g₆ _ h₆ _ => ?_
  have hmem : Block.pool buf.value info.value ∈ g₆.live := by
    rw [h₆.live_eq]
    exact List.mem_singleton_self _
  refine wp_bind (service_wp h₆.consistent hmem
    (fun hexit => absurd (h₆.early.symm.trans hexit) (by decide))
    fun (rd : Reply) m₇ _ hread hcons => ?_)
  have h₇ : Stage [.pool buf.value info.value] m₇
      (g₆.next m₆ (.read f.value info.value buf.value) rd m₇) := ⟨hcons, h₆.live_eq, h₆.early⟩
  refine wp_ite (fun _ => dieWith_wp h₇ (reported_die _ _)) fun hdone => ?_
  rw [not_or, not_not, Bool.not_eq_true] at hdone
  have hbytes : bytesAt m₇ buf.value.toNat info.value.toNat = file := by
    have htake := (hread hdone.1).2
    rwa [hdone.2, hsize, List.take_length, ← hsize] at htake
  refine wp_bind (call_wp trivial h₇ fun _ m₈ g₈ hk₈ _ h₈ _ => ?_)
  refine wp_bind (call_wp trivial h₈ fun _ m₉ g₉ hk₉ _ h₉ _ => wp_pure ?_)
  refine hnext _ _ m₉ g₉ h₉ hsize hpos ?_
  exact ((hk₈.trans hk₉).bytesAt (List.mem_singleton_self _) le_rfl le_rfl).trans hbytes

/-! ## The segments -/

/-- The pages that are allocated for a segment. -/
def ElfSegment.block (seg : ElfSegment) : Block :=
  .pages seg.pageBase ((seg.pageEnd - seg.pageBase) / efiPageSize)

theorem ElfSegment.Paged.bytes_block {seg : ElfSegment} (h : seg.Paged) :
    seg.pageBase.toNat + seg.block.bytes = seg.pageEnd.toNat := by
  have hpage : efiPageSize.toNat = 4096 := rfl
  obtain ⟨hbase, hend, hlt⟩ := h
  rw [block, Block.bytes, UInt64.toNat_div,
    UInt64.toNat_sub_of_le _ _ (UInt64.le_iff_toNat_le.2 (by omega)), hpage]
  omega

theorem ElfSegment.Paged.block_has {seg : ElfSegment} (h : seg.Paged) (a : ℕ) :
    seg.block.Has a ↔ seg.Has a := by
  rw [Block.Has, show seg.block.start = seg.pageBase.toNat from rfl, h.bytes_block]
  rfl

/-- Pages that do not reach into the file buffer are elsewhere. -/
theorem ElfSegment.Paged.elsewhere {seg : ElfSegment} (h : seg.Paged) {buf fsize : UInt64}
    (hpos : 0 < fsize.toNat) (hapart : seg.block.Apart (.pool buf fsize)) :
    seg.Elsewhere buf.toNat fsize.toNat := by
  have hlt := h.base_lt_end
  unfold ElfSegment.Elsewhere
  by_contra hno
  have hhas := (h.block_has (max seg.pageBase.toNat buf.toNat)).2 ⟨by omega, by omega⟩
  refine hapart _ hhas ⟨?_, ?_⟩
  · exact le_max_right _ _
  · change max seg.pageBase.toNat buf.toNat < buf.toNat + fsize.toNat
    omega

/-- The data of a segment is read from the file buffer, which is a live block. -/
theorem Keeps.byteAt {mem' : ℕ → UInt8} (h : Keeps live mem mem') {buf fsize : UInt64}
    (hbuf : .pool buf fsize ∈ live) {seg : ElfSegment}
    (hdata : seg.offset.toNat + seg.filesz.toNat ≤ fsize.toNat) (a : ℕ) :
    seg.byteAt mem' buf.toNat a = seg.byteAt mem buf.toNat a := by
  unfold ElfSegment.byteAt
  by_cases hcopied : seg.paddr.toNat ≤ a ∧ a < seg.paddr.toNat + seg.filesz.toNat
  · rw [if_pos hcopied, if_pos hcopied]
    refine h _ ⟨_, hbuf, ?_, ?_⟩
    · change buf.toNat ≤ _
      omega
    · change _ < buf.toNat + fsize.toNat
      omega
  · rw [if_neg hcopied, if_neg hcopied]

/-- The loop puts the segments in place, in blocks of their own. -/
theorem loadAll_wp {buf fsize : UInt64} (segs : List ElfSegment)
    {Q : Unit → (ℕ → UInt8) → Ledger → Prop} (h : Stage live mem g)
    (hbuf : .pool buf fsize ∈ live) (hpos : 0 < fsize.toNat) (hapart : SegmentsApart segs)
    (hpaged : ∀ seg ∈ segs, seg.Paged)
    (hfile : ∀ seg ∈ segs, seg.offset.toNat + seg.filesz.toNat ≤ fsize.toNat)
    (hfits : ∀ seg ∈ segs, seg.Elsewhere buf.toNat fsize.toNat → seg.Fits buf.toNat fsize.toNat)
    (hnext : ∀ after g', Stage ((segs.map ElfSegment.block).reverse ++ live) after g' →
      Keeps live mem after →
      (∀ seg ∈ segs, ∀ a, seg.Has a → after a = seg.byteAt mem buf.toNat a) → Q () after g') :
    (loadAll buf segs).wp (services file) (LoaderEnds planned jumped) Q mem g := by
  induction segs generalizing mem g live with
  | nil => exact wp_pure (hnext mem g h (fun _ _ => rfl) fun _ hseg => absurd hseg List.not_mem_nil)
  | cons seg rest ih =>
    obtain ⟨hhead, hrest⟩ := List.pairwise_cons.1 hapart
    obtain ⟨hpage, hpages⟩ := List.forall_mem_cons.1 hpaged
    obtain ⟨hdata, hdatas⟩ := List.forall_mem_cons.1 hfile
    refine allocatePages_wp h fun r m₁ g₁ hk₁ h₁ _ haddress => ?_
    rw [haddress rfl] at h₁
    have hnew : ∀ b ∈ live, seg.block.Apart b := by
      have happ := h₁.consistent.apart
      rw [h₁.live_eq] at happ
      exact (List.pairwise_cons.1 happ).1
    have hfit := hfits seg List.mem_cons_self (hpage.elsewhere hpos (hnew _ hbuf))
    refine wp_bind (onMemory_wp ?_)
    have hplace : ∀ a, (placeSegment buf.toNat seg ⟨m₁, []⟩).2.mem a =
        if seg.Has a then seg.byteAt m₁ buf.toNat a else m₁ a := hfit.place_mem ⟨m₁, []⟩
    generalize (placeSegment buf.toNat seg ⟨m₁, []⟩).2.mem = m₂ at hplace ⊢
    have h₂ : Stage (seg.block :: live) m₂ g₁ := h₁.write fun a ha => by
      rw [hplace, if_neg fun hin => ha ⟨_, List.mem_cons_self, (hpage.block_has a).2 hin⟩]
    have hk₂ : Keeps live mem m₂ := fun a ha => by
      rw [hplace, if_neg, hk₁ a ha]
      obtain ⟨b, hb, hin⟩ := ha
      exact fun hseg => hnew b hb a ((hpage.block_has a).2 hseg) hin
    refine ih h₂ (List.mem_cons_of_mem _ hbuf) hrest hpages hdatas
      (fun seg' hseg' => hfits seg' (List.mem_cons_of_mem _ hseg')) fun after g' hstage hk hin => ?_
    refine hnext after g' ?_ (hk₂.trans hk.of_cons) fun seg' hseg' a ha => ?_
    · rw [List.map_cons, List.reverse_cons, List.append_assoc]
      exact hstage
    · obtain rfl | hseg' := List.mem_cons.1 hseg'
      · rw [hk a ⟨_, List.mem_cons_self, (hpage.block_has a).2 ha⟩, hplace, if_pos ha,
          hk₁.byteAt hbuf hdata]
      · rw [hin seg' hseg' a ha, hk₂.byteAt hbuf (hdatas seg' hseg')]

/-- The plan is that of the kernel file, as it stood in the buffer `buf` of the memory
    `before`. -/
structure PlanOf (file : List UInt8) (plan : ElfLoadPlan) (before : ℕ → UInt8) (buf : UInt64) :
    Prop where
  bytes : bytesAt before buf.toNat file.length = file
  format : SypasV1 (Elf64Ehdr.at before buf.toNat) (headersAt before buf.toNat)
    (UInt64.ofNat file.length)
  lists : plan.Lists (headersAt before buf.toNat)
  entry : plan.entry = (Elf64Ehdr.at before buf.toNat).eEntry

/-- The plan is that of the kernel file. -/
def IsPlanOf (file : List UInt8) (plan : ElfLoadPlan) : Prop :=
  ∃ before buf, PlanOf file plan before buf

/-- `load_kernel_elf` accepts the file and puts its segments in place, or reports. -/
theorem loadKernel_wp {buf fsize : UInt64} {Q : ElfLoadPlan → (ℕ → UInt8) → Ledger → Prop}
    (h : Stage live mem g) (hbuf : .pool buf fsize ∈ live) (hsize : fsize.toNat = file.length)
    (hpos : 0 < fsize.toNat) (hbytes : bytesAt mem buf.toNat fsize.toNat = file)
    (hnext : ∀ plan after g', PlanOf file plan mem buf →
      Stage ((plan.segs.map ElfSegment.block).reverse ++ live) after g' → Keeps live mem after →
      (∀ seg ∈ plan.segs, ∀ a, seg.Has a → after a = seg.byteAt mem buf.toNat a) →
      Q plan after g') :
    (loadKernel buf fsize).wp (services file) (LoaderEnds planned jumped) Q mem g := by
  refine wp_bind (onMemory_wp ?_)
  rw [elfPlanLoad_mem]
  refine wp_ite (fun _ => dieWith_wp h (reported_dieAscii _ _ _)) fun hok => ?_
  rw [not_not, elfPlanLoad_run] at hok
  rw [elfPlanLoad_run]
  obtain ⟨hiff, hplan⟩ := planFile_accepts (Elf64Ehdr.at mem buf.toNat)
    (headersAt mem buf.toNat) fsize .empty
  change (planFile _ (headersAt mem buf.toNat) fsize .empty).1 = .ok at hok
  change Program.wp _ _ _ (loadAll buf (planFile _ (headersAt mem buf.toNat) fsize .empty).2.segs
    >>= fun _ => pure (planFile _ (headersAt mem buf.toNat) fsize .empty).2) _ _
  have hformat := hiff.1 hok
  obtain ⟨hlists, hentry⟩ := hplan hok
  generalize (planFile _ (headersAt mem buf.toNat) fsize .empty).2 = plan at hlists hentry ⊢
  have hof : fsize = UInt64.ofNat file.length := by rw [← hsize, UInt64.ofNat_toNat]
  have hsegs := hlists.segs
  have hheaders : ∀ seg ∈ plan.segs, ∃ ph ∈ segmentHeaders (headersAt mem buf.toNat),
      loadSegment ph = seg := fun seg hseg => List.mem_map.1 (hsegs ▸ hseg)
  refine wp_bind (loadAll_wp plan.segs h hbuf hpos (hsegs ▸ hformat.segmentsApart)
    (hsegs ▸ hformat.paged) (fun seg hseg => ?_) (fun seg hseg helse => ?_)
    fun after g' hstage hkeeps hin => wp_pure (hnext plan after g'
      ⟨hsize ▸ hbytes, hof ▸ hformat, hlists, hentry⟩ hstage hkeeps hin))
  · obtain ⟨ph, hph, rfl⟩ := hheaders seg hseg
    exact (hformat.range ph hph).file
  · obtain ⟨ph, hph, rfl⟩ := hheaders seg hseg
    exact hformat.fits hph helse

end Parts

end Sypas
