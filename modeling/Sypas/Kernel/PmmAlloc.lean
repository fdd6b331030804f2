import Sypas.Kernel.FreeSet

/-!
# Allocation and release of one page

`pmm_alloc_page` returns the first free page in cyclic order from the cursor, and
0 only when no page is free: the byte-skipping scan never passes over a free page.
`pmm_free_page` puts an allocated page back, and panics on everything else.

## Main definitions

- `Sypas.NextFit` — the first free page in cyclic order
- `Sypas.AllocOutcome` — the result of an allocation
- `Sypas.Pmm.FirstClear` — the first clear page in cyclic order

## Main results

- `Sypas.pmmAllocPage_spec` — allocation is next-fit
- `Sypas.pmmAllocPage_nextFit` — the same, read off the bitmap
- `Sypas.pmmFreePage_eq_ok_iff` — which releases succeed, and their effect
-/

namespace Sypas

open Ram Prog Bitmap

/-- Page `p` is the first page of `free` in the cyclic order from `cursor`. -/
def NextFit (pages : ℕ) (free : Finset ℕ) (cursor p : ℕ) : Prop :=
  p ∈ free ∧ ∃ k < pages, p = (cursor + k) % pages ∧ ∀ j < k, (cursor + j) % pages ∉ free

/-- What an allocation in state `st` with free pages `free` returns and leaves, when
    its scan starts from `start`. -/
inductive AllocOutcome (st : Pmm) (free : Finset ℕ) (start : ℕ) : UInt64 → Pmm → Prop
  | exhausted {r : Ram} {c : UInt64} (hfree : free = ∅) (hmem : r.mem = st.ram.mem)
      (hwithin : Within st.storage st.ram r) (hcursor : c.toNat < st.pages) :
      AllocOutcome st free start 0 { st with ram := r, cursor := c }
  | page {p : ℕ} {r : Ram} {c addr : UInt64} (hfit : NextFit st.pages free start p)
      (haddr : addr.toNat = 4096 * p)
      (hmem : r.mem = setBit st.ram.mem st.bitmap.toNat p)
      (hwithin : Within st.storage st.ram r) (hcursor : c.toNat = (p + 1) % st.pages) :
      AllocOutcome st free start addr
        { st with ram := r, cursor := c, freePages := st.freePages - 1 }

/-- The rounds before the last one only move the cursor and read the bitmap. -/
theorem AllocOutcome.rebase {st st' : Pmm} {free : Finset ℕ} {start : ℕ} {addr : UInt64} {r : Ram}
    {c : UInt64} (h : AllocOutcome { st with ram := r, cursor := c } free start addr st')
    (hmem : r.mem = st.ram.mem) (hwithin : Within st.storage st.ram r) :
    AllocOutcome st free start addr st' := by
  cases h with
  | exhausted hfree hmem' hwithin' hcursor =>
    exact .exhausted hfree (hmem'.trans hmem) (hwithin.trans hwithin') hcursor
  | page hfit haddr hmem' hwithin' hcursor =>
    refine .page hfit haddr (hmem'.trans ?_) (hwithin.trans hwithin') hcursor
    dsimp only
    rw [hmem]

/-! ## The scan -/

/-- The test for a full byte changes nothing. -/
theorem byteFull_mem (st : Pmm) (p : UInt64) :
    ∃ r, byteFull p st = (decide (p.toNat % 8 = 0 ∧
        st.ram.mem (st.bitmap.toNat + p.toNat / 8) = 0xFF), st.withRam r) ∧
      r.mem = st.ram.mem ∧
      (r.log = st.ram.log ∨ r.log = st.access false p.toNat :: st.ram.log) := by
  have hseven : p &&& 7 = 0 ↔ p.toNat % 8 = 0 := by
    rw [← UInt64.toNat_inj, toNat_and_seven, UInt64.toNat_zero]
  unfold byteFull
  by_cases haligned : p &&& 7 = 0
  · refine ⟨⟨st.ram.mem, st.access false p.toNat :: st.ram.log⟩, ?_, rfl, .inr rfl⟩
    rw [if_pos haligned]
    have hval : (decide (st.ram.mem (bitmapAddr st p) = 0xFF)) = decide (p.toNat % 8 = 0 ∧
        st.ram.mem (st.bitmap.toNat + p.toNat / 8) = 0xFF) := by
      rw [bitmapAddr_eq, decide_eq_decide]
      exact (and_iff_right (hseven.1 haligned)).symm
    rw [← hval, Pmm.access, ← bitmapAddr_eq]
    rfl
  · refine ⟨st.ram, ?_, rfl, .inl rfl⟩
    rw [if_neg haligned, decide_eq_false fun h => haligned (hseven.2 h.1)]
    rfl

/-- For a page of the bitmap it reads at most that byte of it. -/
theorem byteFull_run (st : Pmm) {p : UInt64} (hp : p.toNat < st.bits) :
    ∃ r, byteFull p st = (decide (p.toNat % 8 = 0 ∧
        st.ram.mem (st.bitmap.toNat + p.toNat / 8) = 0xFF), st.withRam r) ∧
      r.mem = st.ram.mem ∧ Within st.storage st.ram r := by
  obtain ⟨⟨mem, log⟩, hrun, hmem, hlog⟩ := byteFull_mem st p
  refine ⟨⟨mem, log⟩, hrun, hmem, ?_⟩
  dsimp only at hmem hlog
  subst hmem
  obtain rfl | rfl := hlog
  · exact .refl _ _
  · exact st.within_read hp

/-- One round of the scan. -/
theorem allocScan_succ (fuel : ℕ) (scanned : UInt64) (st : Pmm) :
    allocScan (fuel + 1) scanned st =
      if scanned < st.highestPage then
        let r₁ := byteFull st.cursor { st with cursor := (st.cursor + 1) % st.highestPage }
        if r₁.1 then
          allocScan fuel (scanned + 8) { r₁.2 with cursor := (st.cursor + 8) % r₁.2.highestPage }
        else
          let r₂ := bitTest st.cursor r₁.2
          if !r₂.1 then
            let st₃ := (bitSet st.cursor r₂.2).2
            (st.cursor * pageSize, { st₃ with freePages := st₃.freePages - 1 })
          else allocScan fuel (scanned + 1) r₂.2
      else (0, st) := by
  rw [allocScan]
  simp only [bind_run, ite_run]
  rfl

/-- Every page is at some offset from the start of the scan. -/
theorem exists_offset {pages start p : ℕ} (hstart : start < pages) (hp : p < pages) :
    ∃ j < pages, (start + j) % pages = p := by
  rcases Nat.lt_or_ge p start with hlt | hge
  · refine ⟨p + pages - start, by omega, ?_⟩
    rw [show start + (p + pages - start) = p + pages by omega, Nat.add_mod_right,
      Nat.mod_eq_of_lt hp]
  · refine ⟨p - start, by omega, ?_⟩
    rw [Nat.add_sub_cancel' hge, Nat.mod_eq_of_lt hp]

/-- Stepping the cursor modulo the number of pages. -/
theorem toNat_cursor_add (st : Pmm) {c d : UInt64} (hc : c.toNat ≤ st.pages) (hd : d.toNat ≤ 8) :
    ((c + d) % st.highestPage).toNat = (c.toNat + d.toNat) % st.pages := by
  have hlt := st.pages_lt
  rw [UInt64.toNat_mod, Word.toNat_add_of_lt (by omega)]
  rfl

/-- When all offsets have been scanned, no page is free. -/
theorem AllocOutcome.of_done {free : Finset ℕ} {start n : ℕ} {st : Pmm} (h : Marks st free)
    (hstart : start < st.pages) (hcursor : st.cursor.toNat < st.pages)
    (hdone : ∀ j < n, (start + j) % st.pages ∉ free) (hn : st.pages ≤ n) :
    AllocOutcome st free start 0 st := by
  refine .exhausted ?_ rfl (Within.refl _ _) hcursor
  rw [Finset.eq_empty_iff_forall_notMem]
  intro p hp
  obtain ⟨j, hj, rfl⟩ := exists_offset hstart (h.lt p hp)
  exact hdone j (hj.trans_le hn) hp

/-- No page that a skip passes is free: those in the byte have their bits set, and those
    past the last page are low ones. -/
theorem skipped_not_free {free : Finset ℕ} {st : Pmm} (h : Marks st free)
    (hlow : ∀ p ∈ free, 256 ≤ p) (hpages : 256 < st.pages) {p : ℕ} (hp : p < st.pages)
    (haligned : p % 8 = 0) (hones : st.ram.mem (st.bitmap.toNat + p / 8) = 0xFF) {i : ℕ}
    (hi : i < 8) : (p + i) % st.pages ∉ free := by
  intro hmem
  rcases Nat.lt_or_ge (p + i) st.pages with hin | hout
  · rw [Nat.mod_eq_of_lt hin] at hmem
    have hbit : st.bit (p + i) = true := bitAt_of_ones hones (by omega)
    rw [h.bit_eq_false hmem] at hbit
    cases hbit
  · have hge := hlow _ hmem
    rw [Nat.mod_eq_sub_mod hout, Nat.mod_eq_of_lt (by omega)] at hge
    omega

/-- Passing `k` pages that are not free moves the cursor and the offset together. -/
theorem scan_advance {free : Finset ℕ} {st : Pmm} {start : ℕ} {scanned k : UInt64}
    (hpages : 0 < st.pages) (hscanned : scanned.toNat < st.pages) (hk : k.toNat ≤ 8)
    (hcursor : st.cursor.toNat = (start + scanned.toNat) % st.pages)
    (hdone : ∀ j < scanned.toNat, (start + j) % st.pages ∉ free)
    (hpassed : ∀ i < k.toNat, (st.cursor.toNat + i) % st.pages ∉ free) :
    ((st.cursor + k) % st.highestPage).toNat = (start + (scanned + k).toNat) % st.pages ∧
      (∀ j < (scanned + k).toNat, (start + j) % st.pages ∉ free) ∧
      (scanned + k).toNat = scanned.toNat + k.toNat := by
  have hlt := st.pages_lt
  have hscan : (scanned + k).toNat = scanned.toNat + k.toNat := Word.toNat_add_of_lt (by omega)
  have hle : st.cursor.toNat ≤ st.pages := hcursor ▸ (Nat.mod_lt _ hpages).le
  rw [hscan]
  refine ⟨?_, fun j hj => ?_, rfl⟩
  · rw [toNat_cursor_add st hle hk, hcursor, Nat.mod_add_mod, Nat.add_assoc]
  · rcases Nat.lt_or_ge j scanned.toNat with hold | hnew
    · exact hdone j hold
    · have hnot := hpassed (j - scanned.toNat) (by omega)
      rwa [hcursor, Nat.mod_add_mod, Nat.add_assoc, Nat.add_sub_cancel' hnew] at hnot

/-- The scan from offset `scanned` on, where everything before it is allocated. -/
theorem allocScan_spec {free : Finset ℕ} (hlow : ∀ p ∈ free, 256 ≤ p) {start : ℕ} (fuel : ℕ)
    (scanned : UInt64) (st : Pmm) (h : Marks st free) (hpages : 256 < st.pages)
    (hstart : start < st.pages) (hcursor : st.cursor.toNat = (start + scanned.toNat) % st.pages)
    (hdone : ∀ j < scanned.toNat, (start + j) % st.pages ∉ free)
    (hfuel : st.pages ≤ scanned.toNat + fuel) :
    AllocOutcome st free start (allocScan fuel scanned st).1 (allocScan fuel scanned st).2 := by
  induction fuel generalizing scanned st with
  | zero =>
    exact .of_done h hstart (hcursor ▸ Nat.mod_lt _ (by omega)) hdone (by omega)
  | succ fuel ih =>
    have hlt := st.pages_lt
    have hcur : st.cursor.toNat < st.pages := hcursor ▸ Nat.mod_lt _ (by omega)
    have h1 : (1 : UInt64).toNat = 1 := rfl
    have h8 : (8 : UInt64).toNat = 8 := rfl
    rw [allocScan_succ]
    by_cases hmore : scanned < st.highestPage
    swap
    · rw [if_neg hmore]
      exact .of_done h hstart hcur hdone (not_lt.1 (mt UInt64.lt_iff_toNat_lt.2 hmore))
    have hscan : scanned.toNat < st.pages := UInt64.lt_iff_toNat_lt.1 hmore
    rw [if_pos hmore]
    set st₁ : Pmm := { st with cursor := (st.cursor + 1) % st.highestPage } with hst₁
    have hmarks₁ : Marks st₁ free := h.congr rfl fun _ _ => rfl
    have hbits : st.cursor.toNat < st₁.bits := hcur.trans_le st.pages_le_bits
    obtain ⟨r₁, hfull, hmem₁, hwithin₁⟩ := byteFull_run st₁ hbits
    dsimp only
    rw [hfull]
    dsimp only
    -- a full byte under a cursor at a multiple of 8 is skipped as a whole
    by_cases hskip : st.cursor.toNat % 8 = 0 ∧
        st₁.ram.mem (st₁.bitmap.toNat + st.cursor.toNat / 8) = 0xFF
    · rw [if_pos (decide_eq_true hskip)]
      obtain ⟨hcur₈, hdone₈, hscan₈⟩ := scan_advance (k := 8) (by omega) hscan h8.le hcursor hdone
        fun i hi => skipped_not_free h hlow hpages hcur hskip.1 hskip.2 hi
      refine AllocOutcome.rebase (ih (scanned + 8) _ ((hmarks₁.withMem hmem₁).congr rfl
        fun _ _ => rfl) hpages hstart hcur₈ hdone₈ ?_) hmem₁ hwithin₁
      change st.pages ≤ _
      omega
    rw [if_neg (by rwa [decide_eq_true_eq])]
    rw [bitTest_run]
    dsimp only
    have hbit : (st₁.withRam r₁).bit st.cursor.toNat = st.bit st.cursor.toNat := by
      rw [Pmm.bit, Pmm.withRam_ram, hmem₁]
      rfl
    have hcur₁ : ((st.cursor + 1) % st.highestPage).toNat = (st.cursor.toNat + 1) % st.pages :=
      toNat_cursor_add st hcur.le (by omega)
    have hread := hwithin₁.trans ((st₁.withRam r₁).within_read hbits)
    rw [hbit]
    set st₂ := (st₁.withRam r₁).withRam ⟨(st₁.withRam r₁).ram.mem,
      (st₁.withRam r₁).access false st.cursor.toNat :: (st₁.withRam r₁).ram.log⟩
    -- otherwise one bit: an allocated page is passed by, a free one is taken
    by_cases hset : st.bit st.cursor.toNat = true
    · rw [hset, if_neg (by decide)]
      obtain ⟨hcur₁, hdone₁, hscan₁⟩ := scan_advance (k := 1) (by omega) hscan (by decide) hcursor
        hdone fun i hi => by
          obtain rfl : i = 0 := Nat.lt_one_iff.1 hi
          rw [Nat.add_zero, Nat.mod_eq_of_lt hcur]
          exact (h.bit _ (hcur.trans_le st.pages_le_bits)).1 hset
      refine AllocOutcome.rebase (ih (scanned + 1) _ ((hmarks₁.withMem hmem₁).withMem rfl) hpages
        hstart hcur₁ hdone₁ ?_) hmem₁ hread
      change st.pages ≤ _
      omega
    rw [Bool.not_eq_true] at hset
    rw [hset, if_pos (by decide), bitSet_run]
    have hfree : st.cursor.toNat ∈ free := by
      by_contra hnot
      rw [(h.bit _ (hcur.trans_le st.pages_le_bits)).2 hnot] at hset
      cases hset
    have hpage : pageSize.toNat = 4096 := rfl
    refine .page ⟨hfree, scanned.toNat, hscan, hcursor, hdone⟩ ?_ ?_ ?_ hcur₁
    · rw [Word.toNat_mul_of_lt (by rw [hpage]; omega), hpage, Nat.mul_comm]
    · change setBit r₁.mem _ _ = _
      rw [hmem₁]
      rfl
    · exact hread.trans (st₂.within_update hbits _)

/-- `pmm_alloc_page` is next-fit: it returns the first free page in cyclic order from the
    cursor and steps past it, or 0 when no page is free. -/
theorem pmmAllocPage_spec {free : Finset ℕ} {st : Pmm} (h : Marks st free)
    (hlow : ∀ p ∈ free, 256 ≤ p) (hpages : 256 < st.pages) (hcursor : st.cursor.toNat < st.pages) :
    AllocOutcome st free st.cursor.toNat (pmmAllocPage st).1 (pmmAllocPage st).2 := by
  refine allocScan_spec hlow st.pages 0 st h hpages hcursor ?_ ?_ ?_
  · rw [UInt64.toNat_zero, Nat.add_zero, Nat.mod_eq_of_lt hcursor]
  · exact fun j hj => absurd hj (Nat.not_lt_zero j)
  · rw [UInt64.toNat_zero, Nat.zero_add]

/-- A scan that starts just past the last page, at a bit that is set, goes on at one of the low
    pages, none of which is free. -/
theorem pmmAllocPage_spec_past {free : Finset ℕ} {st : Pmm} (h : Marks st free)
    (hlow : ∀ p ∈ free, 256 ≤ p) (hpages : 256 < st.pages) (hcursor : st.cursor.toNat = st.pages)
    (hset : st.bit st.pages = true) :
    ∃ (r : Ram) (c : UInt64), r.mem = st.ram.mem ∧
      AllocOutcome { st with ram := r, cursor := c } free 0
        (pmmAllocPage st).1 (pmmAllocPage st).2 := by
  obtain ⟨fuel, hfuel⟩ : ∃ fuel, st.pages = fuel + 1 := ⟨st.pages - 1, by omega⟩
  have hrun : pmmAllocPage st = allocScan (fuel + 1) 0 st := by
    rw [← hfuel]
    rfl
  have hlt := st.pages_lt
  have hmore : (0 : UInt64) < st.highestPage := by
    rw [UInt64.lt_iff_toNat_lt, UInt64.toNat_zero]
    exact Nat.zero_lt_of_lt hpages
  -- the scan from offset `n` on, when the first round stepped over `n` low pages
  have hgo (n : UInt64) (hn : n.toNat ≤ 8) (hpos : 0 < n.toNat) (r : Ram)
      (hr : r.mem = st.ram.mem) (c : UInt64) (hc : c = (st.cursor + n) % st.highestPage) :
      AllocOutcome { st with ram := r, cursor := c } free 0
        (allocScan fuel n { st with ram := r, cursor := c }).1
        (allocScan fuel n { st with ram := r, cursor := c }).2 := by
    have hcur : ((st.cursor + n) % st.highestPage).toNat = n.toNat % st.pages := by
      rw [toNat_cursor_add st hcursor.le hn, hcursor, Nat.add_mod_left]
    refine allocScan_spec hlow fuel n _ ((h.withMem hr).congr rfl fun _ _ => rfl) hpages
      (show 0 < st.pages by omega) ?_ ?_ ?_
    · rw [Nat.zero_add, hc]
      exact hcur
    · intro j hj hmem
      have hge : 256 ≤ (0 + j) % st.pages := hlow _ hmem
      have hle := Nat.mod_le (0 + j) st.pages
      omega
    · change st.pages ≤ _
      omega
  rw [hrun, allocScan_succ, if_pos hmore]
  obtain ⟨r, hfull, hmem, -⟩ :=
    byteFull_mem { st with cursor := (st.cursor + 1) % st.highestPage } st.cursor
  dsimp only
  rw [hfull]
  dsimp only
  split
  · exact ⟨r, _, hmem, hgo 8 le_rfl (by decide) r hmem _ rfl⟩
  · rw [bitTest_run]
    dsimp only
    have hbit : (Pmm.withRam { st with cursor := (st.cursor + 1) % st.highestPage } r).bit
        st.cursor.toNat = true := by
      rw [hcursor, ← hset, Pmm.bit, Pmm.withRam_ram, hmem]
      rfl
    have hone : (0 : UInt64) + 1 = 1 := rfl
    rw [hbit, if_neg (by decide), hone]
    set r' : Ram := ⟨r.mem, st.access false st.cursor.toNat :: r.log⟩
    exact ⟨r', _, hmem, hgo 1 (by decide) (by decide) r' hmem _ rfl⟩

/-- What an allocation leaves, whichever way it ends. -/
theorem AllocOutcome.frame {free : Finset ℕ} {start : ℕ} {st st' : Pmm} {addr : UInt64}
    (h : AllocOutcome st free start addr st') (hpages : 0 < st.pages) :
    st'.bitmap = st.bitmap ∧ st'.highestPage = st.highestPage ∧
    st'.allocatorPages = st.allocatorPages ∧ st'.cursor.toNat < st.pages ∧
    Within st.storage st.ram st'.ram := by
  cases h with
  | exhausted hfree hmem hwithin hcursor => exact ⟨rfl, rfl, rfl, hcursor, hwithin⟩
  | page hfit haddr hmem hwithin hcursor =>
    exact ⟨rfl, rfl, rfl, hcursor ▸ Nat.mod_lt _ hpages, hwithin⟩

/-! ## Next-fit, in terms of the bitmap -/

/-- Page `p` is the first clear page in the cyclic order that starts at the cursor. -/
def Pmm.FirstClear (st : Pmm) (p : ℕ) : Prop :=
  st.bit p = false ∧ ∃ k < st.pages, p = (st.cursor.toNat + k) % st.pages ∧
    ∀ j < k, st.bit ((st.cursor.toNat + j) % st.pages) = true

theorem NextFit.firstClear {st : Pmm} {p : ℕ} (hpages : 0 < st.pages)
    (h : NextFit st.pages st.clearPages st.cursor.toNat p) : st.FirstClear p := by
  obtain ⟨hp, k, hk, rfl, hbefore⟩ := h
  refine ⟨(Finset.mem_filter.1 hp).2, k, hk, rfl, fun j hj => ?_⟩
  have hnot := hbefore j hj
  rw [Pmm.clearPages, Finset.mem_filter, Finset.mem_range, not_and, Bool.not_eq_false] at hnot
  exact hnot (Nat.mod_lt _ hpages)

/-- The byte-skipping scan is plain next-fit, whatever the number of pages. -/
theorem pmmAllocPage_nextFit (st : Pmm) (hcursor : st.cursor < st.highestPage)
    (hpages : 256 < st.pages) (hlow : ∀ p < 256, st.bit p = true)
    (hpadding : ∀ p, st.pages ≤ p → p < st.bits → st.bit p = true) :
    ((∃ p < st.pages, st.bit p = false) →
      ∃ p < st.pages, st.FirstClear p ∧ (pmmAllocPage st).1.toNat = 4096 * p ∧
        (∀ q, (pmmAllocPage st).2.bit q = (decide (q = p) || st.bit q)) ∧
        (∀ a ∉ st.storage, (pmmAllocPage st).2.ram.mem a = st.ram.mem a) ∧
        (pmmAllocPage st).2 = { st with
          ram := (pmmAllocPage st).2.ram
          cursor := (pmmAllocPage st).2.cursor
          freePages := st.freePages - 1 } ∧
        (pmmAllocPage st).2.cursor.toNat = (p + 1) % st.pages) ∧
    ((∀ p < st.pages, st.bit p = true) →
      (pmmAllocPage st).1 = 0 ∧ (pmmAllocPage st).2.ram.mem = st.ram.mem ∧
        (pmmAllocPage st).2 = { st with
          ram := (pmmAllocPage st).2.ram
          cursor := (pmmAllocPage st).2.cursor } ∧
        (pmmAllocPage st).2.cursor < st.highestPage) := by
  have hmarks := st.marks_clearPages hpadding
  have hfree : ∀ p ∈ st.clearPages, 256 ≤ p := by
    intro p hp
    by_contra hlt
    have hclear := hmarks.bit_eq_false hp
    rw [hlow p (not_le.1 hlt)] at hclear
    cases hclear
  have hout := pmmAllocPage_spec hmarks hfree hpages (UInt64.lt_iff_toNat_lt.1 hcursor)
  cases hrun : pmmAllocPage st with
  | mk addr st' =>
  rw [hrun] at hout
  cases hout with
  | exhausted hnone hmem hwithin hcur =>
    constructor
    · -- an exhausted scan leaves no clear page
      rintro ⟨p, hp, hbit⟩
      have hin : p ∈ st.clearPages := Finset.mem_filter.2 ⟨Finset.mem_range.2 hp, hbit⟩
      rw [hnone] at hin
      cases hin
    · exact fun _ => ⟨rfl, hmem, rfl, UInt64.lt_iff_toNat_lt.2 hcur⟩
  | @page p _ _ _ hfit haddr hmem hwithin hcur =>
    have hp := hmarks.lt p hfit.1
    constructor
    · refine fun _ => ⟨p, hp, hfit.firstClear (by omega), haddr, fun q => ?_, hwithin.2, rfl, hcur⟩
      rw [Pmm.bit, Pmm.bit]
      dsimp only
      rw [hmem, bitAt_setBit]
    · intro hall
      have hclear := hmarks.bit_eq_false hfit.1
      rw [hall p hp] at hclear
      cases hclear

/-- 257 pages, of which only page 256 is free: one bit of the partial last byte. -/
def lastPageFree : Pmm where
  ram := ⟨fun a => if a = 32 then 0xFE else 0xFF, []⟩
  bitmap := 0
  bitmapBytes := 33
  highestPage := 257
  freePages := 1
  usablePages := 1
  allocatorPages := 1
  cursor := 3
  usableBytes := 0
  reservedBytes := 0
  mmioBytes := 0
  highestPage_lt := by decide

theorem lastPageFree_padding (p : ℕ) (hge : lastPageFree.pages ≤ p) (hlt : p < lastPageFree.bits) :
    lastPageFree.bit p = true := by
  have hlo : 257 ≤ p := hge
  have hhi : p < 264 := hlt
  interval_cases p <;> rfl

theorem lastPageFree_nextFit :
    ∃ p < lastPageFree.pages, lastPageFree.FirstClear p ∧
      (pmmAllocPage lastPageFree).1.toNat = 4096 * p := by
  obtain ⟨p, hp, hfirst, haddr, -⟩ :=
    (pmmAllocPage_nextFit lastPageFree (by decide) (by decide) (by decide +kernel)
      lastPageFree_padding).1 ⟨256, by decide, by decide⟩
  exact ⟨p, hp, hfirst, haddr⟩

/-! ## Release -/

/-- A release succeeds exactly on the address of an allocated page, and frees it. -/
theorem pmmFreePage_eq_ok_iff (addr : UInt64) (st st' : Pmm) :
    pmmFreePage addr st = .ok st' ↔
      ∃ p < st.pages, addr.toNat = 4096 * p ∧ st.bit p = true ∧
        st' = { st with
          ram := ⟨clearBit st.ram.mem st.bitmap.toNat p, st.access true p ::
            st.access false p :: st.access false p :: st.ram.log⟩
          freePages := st.freePages + 1 } := by
  have hmask : (pageSize - 1).toNat = 2 ^ 12 - 1 := by decide
  have hpage : pageSize.toNat = 4096 := rfl
  have halign : addr &&& (pageSize - 1) = 0 ↔ addr.toNat % 4096 = 0 := by
    rw [← UInt64.toNat_inj, Word.toNat_and_mask addr hmask, UInt64.toNat_zero]
    norm_num
  have hdiv : (addr / pageSize).toNat = addr.toNat / 4096 := by rw [UInt64.toNat_div, hpage]
  unfold pmmFreePage
  dsimp only
  split
  -- an address inside a page
  · next hbad =>
    refine iff_of_false nofun ?_
    rintro ⟨p, -, hp, -⟩
    exact hbad (halign.2 (by omega))
  next hgood =>
  rw [ne_eq, not_not, halign] at hgood
  split
  -- a page behind the last
  · next hbig =>
    refine iff_of_false nofun ?_
    rintro ⟨p, hlt, hp, -⟩
    rw [ge_iff_le, UInt64.le_iff_toNat_le, hdiv] at hbig
    unfold Pmm.pages at hlt
    omega
  next hsmall =>
  rw [ge_iff_le, UInt64.le_iff_toNat_le, hdiv] at hsmall
  have hlt : addr.toNat / 4096 < st.pages := not_le.1 hsmall
  rw [bitTest_run, hdiv]
  dsimp only
  -- a page that is free already is refused
  cases hbit : st.bit (addr.toNat / 4096) with
  | false =>
    rw [if_pos (by decide)]
    refine iff_of_false nofun ?_
    rintro ⟨p, -, hp, hset, -⟩
    rw [show addr.toNat / 4096 = p by omega, hset] at hbit
    cases hbit
  | true =>
    rw [if_neg (by decide), bitClear_run, hdiv, Except.ok.injEq]
    constructor
    · rintro rfl
      exact ⟨_, hlt, by omega, hbit, rfl⟩
    · rintro ⟨p, -, hp, -, rfl⟩
      obtain rfl : p = addr.toNat / 4096 := by omega
      rfl

end Sypas
