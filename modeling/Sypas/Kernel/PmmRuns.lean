import Sypas.Kernel.PmmAlloc

/-!
# Runs of the page allocator

A client of the allocator allocates pages, releases pages that it holds, and in
between writes memory that is not the bitmap. Over every such run the pages split
into those held and those still free.

## Main definitions

- `Sypas.Ready` — a state from which allocation works
- `Sypas.Client` — the allocator together with the addresses handed out
- `Sypas.Client.Step` — one call, or a write elsewhere

## Main results

- `Sypas.Client.Inv.step`, `Sypas.Client.Inv.run` — ownership over whole runs
- `Sypas.client_owns_exclusively` — exclusive ownership
-/

namespace Sypas

open Ram Prog Bitmap

/-- The cursor is a page, the low pages and the padding are reserved, and `free_pages`
    counts the clear bits. -/
structure Ready (st : Pmm) : Prop where
  cursor_lt : st.cursor.toNat < st.pages
  pages_gt : 256 < st.pages
  low : ∀ p < 256, st.bit p = true
  padding : ∀ p, st.pages ≤ p → p < st.bits → st.bit p = true
  count : st.freePages.toNat = st.clearPages.card

theorem Ready.tracks {st : Pmm} (h : Ready st) : Tracks st st.clearPages :=
  ⟨st.marks_clearPages h.padding, h.count⟩

theorem Ready.low_le {st : Pmm} (h : Ready st) {p : ℕ} (hp : p ∈ st.clearPages) : 256 ≤ p := by
  by_contra hlt
  have hclear := h.tracks.bit_eq_false hp
  rw [h.low p (not_le.1 hlt)] at hclear
  cases hclear

theorem Tracks.ready {st : Pmm} {free : Finset ℕ} (h : Tracks st free)
    (hcursor : st.cursor.toNat < st.pages) (hpages : 256 < st.pages)
    (hlow : ∀ p ∈ free, 256 ≤ p) : Ready st where
  cursor_lt := hcursor
  pages_gt := hpages
  low := fun p hp => (h.bit p (by have := st.pages_le_bits; omega)).2
    fun hmem => absurd (hlow p hmem) (by omega)
  padding := fun p hge hlt => (h.bit p hlt).2 fun hmem => absurd (h.lt p hmem) (by omega)
  count := h.clearPages_eq ▸ h.count

/-! ## Clients -/

/-- The allocator, and the addresses it has handed out. -/
structure Client where
  pmm : Pmm
  held : Finset UInt64

namespace Client

/-- The client calls `pmm_alloc_page`, and keeps what it gets. -/
def alloc (c : Client) : Client :=
  let r := pmmAllocPage c.pmm
  ⟨r.2, if r.1 = 0 then c.held else insert r.1 c.held⟩

/-- One step of a run. -/
inductive Step : Client → Client → Prop
  | alloc (c : Client) : Step c c.alloc
  | free {c : Client} {addr : UInt64} {st : Pmm} (hheld : addr ∈ c.held)
      (hfree : pmmFreePage addr c.pmm = .ok st) : Step c ⟨st, c.held.erase addr⟩
  | write {c : Client} {mem : ℕ → UInt8} (hmem : ∀ a ∈ c.pmm.storage, mem a = c.pmm.ram.mem a) :
      Step c ⟨c.pmm.withRam ⟨mem, c.pmm.ram.log⟩, c.held⟩

/-- The held pages. -/
def heldPages (c : Client) : Finset ℕ := c.held.image fun a => a.toNat / 4096

/-- What holds in every state of a run from `st`. -/
structure Inv (st : Pmm) (c : Client) : Prop where
  bitmap : c.pmm.bitmap = st.bitmap
  highestPage : c.pmm.highestPage = st.highestPage
  cursor_lt : c.pmm.cursor.toNat < st.pages
  held : ∀ a ∈ c.held, ∃ p ∈ st.clearPages, a.toNat = 4096 * p
  tracks : Tracks c.pmm (st.clearPages \ c.heldPages)

theorem Inv.start {st : Pmm} (h : Ready st) : Inv st ⟨st, ∅⟩ where
  bitmap := rfl
  highestPage := rfl
  cursor_lt := h.cursor_lt
  held := fun a ha => absurd ha (Finset.notMem_empty a)
  tracks := by
    rw [heldPages, Finset.image_empty, Finset.sdiff_empty]
    exact h.tracks

variable {st : Pmm} {c c' : Client}

theorem Inv.pages_eq (h : Inv st c) : c.pmm.pages = st.pages := by
  rw [Pmm.pages, Pmm.pages, h.highestPage]

theorem Inv.bits_eq (h : Inv st c) : c.pmm.bits = st.bits := Pmm.bits_eq h.highestPage

theorem Inv.storage_eq (h : Inv st c) : c.pmm.storage = st.storage := by
  rw [Pmm.storage, Pmm.storage, h.bitmap, h.pages_eq]

/-- A held address is the start of its page. -/
theorem Inv.held_eq (h : Inv st c) {a : UInt64} (ha : a ∈ c.held) :
    a.toNat = 4096 * (a.toNat / 4096) := by
  obtain ⟨p, -, hp⟩ := h.held a ha
  omega

theorem Inv.mem_heldPages {a : UInt64} {p : ℕ} (hp : a.toNat = 4096 * p) (ha : a ∈ c.held) :
    p ∈ c.heldPages :=
  Finset.mem_image.2 ⟨a, ha, by omega⟩

theorem Inv.notMem_held {a : UInt64} {p : ℕ} (hp : a.toNat = 4096 * p) (hnot : p ∉ c.heldPages) :
    a ∉ c.held :=
  fun ha => hnot (Inv.mem_heldPages hp ha)

/-- The free pages are above the low ones. -/
theorem Inv.low_le (hst : Ready st) {p : ℕ} (hp : p ∈ st.clearPages \ c.heldPages) : 256 ≤ p :=
  hst.low_le (Finset.mem_sdiff.1 hp).1

/-- What an allocation in a run returns and leaves. -/
theorem Inv.outcome (hst : Ready st) (h : Inv st c) :
    AllocOutcome c.pmm (st.clearPages \ c.heldPages) c.pmm.cursor.toNat
      (pmmAllocPage c.pmm).1 (pmmAllocPage c.pmm).2 :=
  pmmAllocPage_spec h.tracks.toMarks (fun _ hp => Inv.low_le hst hp)
    (h.pages_eq ▸ hst.pages_gt) (h.pages_eq ▸ h.cursor_lt)

/-- The address of a page above the low ones is not 0. -/
theorem addr_ne_zero {a : UInt64} {p : ℕ} (ha : a.toNat = 4096 * p) (hp : 256 ≤ p) : a ≠ 0 := by
  rintro rfl
  rw [UInt64.toNat_zero] at ha
  omega

theorem Inv.alloc (hst : Ready st) (h : Inv st c) : Inv st c.alloc := by
  have hout := h.outcome hst
  unfold Client.alloc
  cases hrun : pmmAllocPage c.pmm with
  | mk addr st' =>
  rw [hrun] at hout
  cases hout with
  | exhausted hnone hmem hwithin hcur =>
    refine ⟨h.bitmap, h.highestPage, h.pages_eq ▸ hcur, ?_, ?_⟩
    · exact h.held
    · refine h.tracks.congr rfl (fun p _ => ?_) rfl
      rw [Pmm.bit, Pmm.bit]
      dsimp only
      rw [hmem]
  | @page p _ _ _ hfit haddr hmem hwithin hcur =>
    have hp := hfit.1
    have hfree := Finset.mem_sdiff.1 hp
    have hne : addr ≠ 0 := addr_ne_zero haddr (Inv.low_le hst hp)
    have hlt : (p + 1) % c.pmm.pages < c.pmm.pages :=
      Nat.mod_lt _ (by have := hst.pages_gt; have := h.pages_eq; omega)
    have hheld : (insert addr c.held).image (fun a => a.toNat / 4096) = insert p c.heldPages := by
      rw [Finset.image_insert, haddr, Nat.mul_div_cancel_left p (by decide)]
      rfl
    refine ⟨h.bitmap, h.highestPage, ?_, ?_, ?_⟩
    · rw [← h.pages_eq]
      exact hcur ▸ hlt
    · dsimp only
      rw [if_neg hne]
      intro a ha
      obtain rfl | ha := Finset.mem_insert.1 ha
      · exact ⟨p, hfree.1, haddr⟩
      · exact h.held a ha
    · dsimp only [heldPages]
      rw [if_neg hne, hheld, Finset.sdiff_insert]
      exact h.tracks.take hp rfl rfl hmem rfl

theorem Inv.free (h : Inv st c) {addr : UInt64} {st' : Pmm} (hheld : addr ∈ c.held)
    (hfree : pmmFreePage addr c.pmm = .ok st') : Inv st ⟨st', c.held.erase addr⟩ := by
  obtain ⟨p, hlt, haddr, hbit, rfl⟩ := (pmmFreePage_eq_ok_iff addr c.pmm st').1 hfree
  obtain ⟨q, hq, hqaddr⟩ := h.held addr hheld
  obtain rfl : q = p := by omega
  have hpage : addr.toNat / 4096 = q := by omega
  have herase : (c.held.erase addr).image (fun a => a.toNat / 4096) = c.heldPages.erase q := by
    ext r
    rw [Finset.mem_erase, heldPages]
    constructor
    · intro hr
      obtain ⟨b, hb, rfl⟩ := Finset.mem_image.1 hr
      obtain ⟨hne, hb⟩ := Finset.mem_erase.1 hb
      refine ⟨fun heq => hne (UInt64.toNat_inj.1 ?_), Finset.mem_image_of_mem _ hb⟩
      rw [h.held_eq hb, heq, hqaddr]
    · rintro ⟨hne, hr⟩
      obtain ⟨b, hb, rfl⟩ := Finset.mem_image.1 hr
      refine Finset.mem_image_of_mem _ (Finset.mem_erase.2 ⟨?_, hb⟩)
      rintro rfl
      exact hne hpage
  refine ⟨h.bitmap, h.highestPage, h.cursor_lt, fun a ha => h.held a (Finset.mem_of_mem_erase ha),
    ?_⟩
  dsimp only [heldPages]
  rw [herase, Finset.sdiff_erase hq]
  refine h.tracks.give ?_ hlt rfl rfl rfl rfl
  exact fun hmem => (Finset.mem_sdiff.1 hmem).2 (Inv.mem_heldPages hqaddr hheld)

theorem Inv.write (h : Inv st c) {mem : ℕ → UInt8}
    (hmem : ∀ a ∈ c.pmm.storage, mem a = c.pmm.ram.mem a) :
    Inv st ⟨c.pmm.withRam ⟨mem, c.pmm.ram.log⟩, c.held⟩ where
  bitmap := h.bitmap
  highestPage := h.highestPage
  cursor_lt := h.cursor_lt
  held := h.held
  tracks := by
    refine h.tracks.congr rfl (fun p hp => ?_) rfl
    unfold Pmm.bit bitAt
    dsimp only [Pmm.withRam]
    rw [hmem _ (c.pmm.byte_mem_storage hp)]

/-- Every step keeps the split of the pages into held and free ones. -/
theorem Inv.step (hst : Ready st) (h : Inv st c) (hstep : Step c c') : Inv st c' := by
  cases hstep with
  | alloc => exact h.alloc hst
  | free hheld hfree => exact h.free hheld hfree
  | write hmem => exact h.write hmem

theorem Inv.run (hst : Ready st) (hrun : Relation.ReflTransGen Step ⟨st, ∅⟩ c) : Inv st c := by
  induction hrun with
  | refl => exact .start hst
  | tail _ hstep ih => exact ih.step hst hstep

/-! ## What the invariant gives -/

theorem Inv.ready (hst : Ready st) (h : Inv st c) : Ready c.pmm :=
  h.tracks.ready (h.pages_eq ▸ h.cursor_lt) (h.pages_eq ▸ hst.pages_gt)
    fun _ hp => Inv.low_le hst hp

theorem Inv.heldPages_subset (h : Inv st c) : c.heldPages ⊆ st.clearPages := by
  intro p hp
  obtain ⟨a, ha, rfl⟩ := Finset.mem_image.1 hp
  obtain ⟨q, hq, haddr⟩ := h.held a ha
  rwa [show a.toNat / 4096 = q by omega]

/-- Distinct held addresses are distinct pages. -/
theorem Inv.card_heldPages (h : Inv st c) : c.heldPages.card = c.held.card := by
  refine Finset.card_image_of_injOn fun a ha b hb hab => UInt64.toNat_inj.1 ?_
  have hpage : a.toNat / 4096 = b.toNat / 4096 := hab
  rw [h.held_eq ha, hpage, ← h.held_eq hb]

theorem Inv.free_ok (h : Inv st c) {addr : UInt64} (hheld : addr ∈ c.held) :
    ∃ st', pmmFreePage addr c.pmm = .ok st' := by
  obtain ⟨p, hp, haddr⟩ := h.held addr hheld
  have hlt : p < c.pmm.pages := by
    rw [h.pages_eq]
    exact Finset.mem_range.1 (Finset.mem_filter.1 hp).1
  have hbit : c.pmm.bit p = true := by
    rw [h.tracks.bit p (hlt.trans_le c.pmm.pages_le_bits)]
    exact fun hmem => (Finset.mem_sdiff.1 hmem).2 (Inv.mem_heldPages haddr hheld)
  exact ⟨_, (pmmFreePage_eq_ok_iff addr c.pmm _).2 ⟨p, hlt, haddr, hbit, rfl⟩⟩

/-- Releasing all held addresses, in any order, ends with none held. -/
theorem Inv.free_all (l : List UInt64) (h : Inv st c) (hnodup : l.Nodup)
    (hheld : l.toFinset = c.held) :
    ∃ st', l.foldlM (fun s a => pmmFreePage a s) c.pmm = .ok st' ∧ Inv st ⟨st', ∅⟩ := by
  induction l generalizing c with
  | nil =>
    refine ⟨c.pmm, rfl, ?_⟩
    have hnone : c.held = ∅ := by rw [← hheld, List.toFinset_nil]
    rw [← hnone]
    exact h
  | cons addr rest ih =>
    have hmem : addr ∈ c.held := by
      rw [← hheld]
      exact List.mem_toFinset.2 List.mem_cons_self
    obtain ⟨st₁, hst₁⟩ := h.free_ok hmem
    have hrest : rest.toFinset = c.held.erase addr := by
      rw [← hheld, List.toFinset_cons, Finset.erase_insert]
      exact fun hin => (List.nodup_cons.1 hnodup).1 (List.mem_toFinset.1 hin)
    obtain ⟨st', hfold, hinv⟩ := ih (h.free hmem hst₁) (List.nodup_cons.1 hnodup).2 hrest
    refine ⟨st', ?_, hinv⟩
    rw [List.foldlM_cons, hst₁]
    exact hfold

/-- With nothing held, the bitmap and the counter are as at the start. -/
theorem Inv.restored (hst : Ready st) {st' : Pmm} (h : Inv st ⟨st', ∅⟩) :
    (∀ a ∈ st.storage, st'.ram.mem a = st.ram.mem a) ∧ st'.freePages = st.freePages := by
  have htracks := h.tracks
  rw [heldPages, Finset.image_empty, Finset.sdiff_empty] at htracks
  constructor
  · rintro a ⟨hlo, hhi⟩
    obtain ⟨k, rfl⟩ := Nat.exists_eq_add_of_le hlo
    have hbitmap : st'.bitmap = st.bitmap := h.bitmap
    refine byte_eq_of_bits fun i hi => ?_
    have hin : i < st.bits := by unfold Pmm.bits; omega
    have hnew := htracks.bit i (h.bits_eq ▸ hin)
    have hold := hst.tracks.bit i hin
    rw [Pmm.bit, hbitmap] at hnew
    exact Bool.eq_iff_iff.2 (hnew.trans hold.symm)
  · exact UInt64.toNat_inj.1 (htracks.count.trans hst.count.symm)

end Client

/-- Exclusive ownership: in every state of a run, the clear pages are those of the start that
    are not held, an allocation hands out one of them or none is left, and releasing what is
    held cannot fail and restores the start. -/
theorem client_owns_exclusively (st : Pmm) (hst : Ready st) (c : Client)
    (hrun : Relation.ReflTransGen Client.Step ⟨st, ∅⟩ c) :
    Ready c.pmm ∧
    c.pmm.clearPages = st.clearPages \ c.heldPages ∧
    c.held.card ≤ st.clearPages.card ∧
    c.pmm.freePages.toNat = st.clearPages.card - c.held.card ∧
    ((pmmAllocPage c.pmm).1 ≠ 0 →
      ∃ p ∈ st.clearPages, (pmmAllocPage c.pmm).1.toNat = 4096 * p ∧
        (pmmAllocPage c.pmm).1 ∉ c.held) ∧
    ((pmmAllocPage c.pmm).1 = 0 ↔ c.heldPages = st.clearPages) ∧
    (∀ addr ∈ c.held, ∃ st', pmmFreePage addr c.pmm = .ok st') ∧
    ∀ l : List UInt64, l.Nodup → l.toFinset = c.held →
      ∃ st', l.foldlM (fun s a => pmmFreePage a s) c.pmm = .ok st' ∧
        (∀ a ∈ st.storage, st'.ram.mem a = st.ram.mem a) ∧ st'.freePages = st.freePages := by
  have h := Client.Inv.run hst hrun
  have hsub := h.heldPages_subset
  have hout := h.outcome hst
  have hcard : c.pmm.freePages.toNat = st.clearPages.card - c.held.card := by
    rw [h.tracks.count, Finset.card_sdiff_of_subset hsub, h.card_heldPages]
  refine ⟨h.ready hst, h.tracks.clearPages_eq, ?_, hcard, ?_, ?_, fun _ => h.free_ok, ?_⟩
  · rw [← h.card_heldPages]
    exact Finset.card_le_card hsub
  · generalize pmmAllocPage c.pmm = r at hout
    obtain ⟨addr, st'⟩ := r
    cases hout with
    | exhausted => exact fun hne => absurd rfl hne
    | @page p _ _ _ hfit haddr =>
      obtain ⟨hp, hnot⟩ := Finset.mem_sdiff.1 hfit.1
      exact fun _ => ⟨p, hp, haddr, Client.Inv.notMem_held haddr hnot⟩
  · generalize pmmAllocPage c.pmm = r at hout
    obtain ⟨addr, st'⟩ := r
    cases hout with
    | exhausted hnone =>
      exact iff_of_true rfl (hsub.antisymm (Finset.sdiff_eq_empty_iff_subset.1 hnone))
    | @page p _ _ _ hfit haddr =>
      obtain ⟨hp, hnot⟩ := Finset.mem_sdiff.1 hfit.1
      exact iff_of_false (Client.addr_ne_zero haddr (hst.low_le hp)) fun heq => hnot (heq ▸ hp)
  · intro l hnodup hheld
    obtain ⟨st', hfold, hinv⟩ := h.free_all l hnodup hheld
    exact ⟨st', hfold, hinv.restored hst⟩

theorem lastPageFree_ready : Ready lastPageFree where
  cursor_lt := by decide
  pages_gt := by decide
  low := by decide +kernel
  padding := lastPageFree_padding
  count := by decide +kernel

/-- A client that gets a page may release it and ask again. -/
theorem Client.alloc_free_alloc {st : Pmm} (hst : Ready st) {addr : UInt64}
    (hheld : (Client.alloc ⟨st, ∅⟩).held = {addr}) :
    ∃ st', pmmFreePage addr (Client.alloc ⟨st, ∅⟩).pmm = .ok st' ∧
      Relation.ReflTransGen Client.Step ⟨st, ∅⟩ (Client.alloc ⟨st', ∅⟩) := by
  have halloc : Relation.ReflTransGen Client.Step ⟨st, ∅⟩ (Client.alloc ⟨st, ∅⟩) :=
    .single (.alloc _)
  have hin : addr ∈ (Client.alloc ⟨st, ∅⟩).held := by
    rw [hheld]
    exact Finset.mem_singleton_self addr
  obtain ⟨st', hst'⟩ := (Inv.run hst halloc).free_ok hin
  have hreleased := halloc.tail (.free hin hst')
  rw [hheld, Finset.erase_singleton] at hreleased
  exact ⟨st', hst', hreleased.tail (.alloc _)⟩

theorem lastPageFree_held : (Client.alloc ⟨lastPageFree, ∅⟩).held = {0x100000} := by
  have haddr : (pmmAllocPage lastPageFree).1 = 0x100000 := by decide +kernel
  unfold Client.alloc
  dsimp only
  rw [haddr, if_neg (by decide)]
  rfl

/-- Its page is allocated, released and allocated again. -/
theorem lastPageFree_run : ∃ st,
    pmmFreePage 0x100000 (Client.alloc ⟨lastPageFree, ∅⟩).pmm = .ok st ∧
    Ready (Client.alloc ⟨st, ∅⟩).pmm ∧
    (Client.alloc ⟨st, ∅⟩).pmm.clearPages =
      lastPageFree.clearPages \ (Client.alloc ⟨st, ∅⟩).heldPages ∧
    (Client.alloc ⟨st, ∅⟩).held.card ≤ lastPageFree.clearPages.card := by
  obtain ⟨st, hfree, hrun⟩ := Client.alloc_free_alloc lastPageFree_ready lastPageFree_held
  have h := client_owns_exclusively lastPageFree lastPageFree_ready _ hrun
  exact ⟨st, hfree, h.1, h.2.1, h.2.2.1⟩

end Sypas
