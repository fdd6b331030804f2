import Sypas.Kernel.PmmRuns

/-!
# The allocator's self-test (`kernel/mm/pmm.c`, `pmm_selftest`)

The self-test is a client of the allocator: it allocates 512 pages, writes a word into each, reads
the words back and releases the pages. The words go to the memory that also holds the bitmap. The
time stamps only appear in what is printed.

## Main definitions

- `Sypas.pmmSelftest` — the self-test

## Main results

- `Sypas.selftestAlloc_ok`, `Sypas.selftestAlloc_exhausted` — the allocations
- `Sypas.selftestWrite_run`, `Sypas.selftestCheck_run` — the words
- `Sypas.pmmSelftest_transparent` — when it succeeds, and that it then leaves no trace
-/

namespace Sypas

open Ram Prog Bitmap

/-! ## The model -/

def stPages : ℕ := 512

/-- What the self-test writes to a page. -/
def stPattern (page : UInt64) : UInt64 := 0x5350415359 ^^^ page

/-- A call of `kprintf`: its format and the values it prints. -/
structure Printed where
  format : String
  args : List UInt64
deriving DecidableEq, Repr

/-- The first loop with `n` rounds to go, when `i` pages are allocated: the pages, or the count at
    which the allocator is exhausted. -/
def selftestAlloc : ℕ → ℕ → StateM Pmm (Except ℕ (List UInt64))
  | 0, _ => pure (.ok [])
  | n + 1, i => do
    let page ← pmmAllocPage
    if page = 0 then pure (.error i)
    else do
      let rest ← selftestAlloc n (i + 1)
      pure (rest.map (page :: ·))

/-- The second loop: write to each page and look for it among the later ones. The result is the
    first page found twice. -/
def selftestWrite : List UInt64 → StateM Pmm (Option UInt64)
  | [] => pure none
  | page :: rest => do
    onRam (write64 page.toNat (stPattern page))
    if page ∈ rest then pure (some page)
    else selftestWrite rest

/-- The third loop: the first page whose word is not what was written. -/
def selftestCheck : List UInt64 → StateM Pmm (Option UInt64)
  | [] => pure none
  | page :: rest => do
    let word ← onRam (read64 page.toNat)
    if word ≠ stPattern page then pure (some page)
    else selftestCheck rest

/-- The fourth loop. -/
def selftestFree (got : List UInt64) (st : Pmm) : Except Panic Pmm :=
  got.foldlM (fun st page => pmmFreePage page st) st

/-- `pmm_selftest`: its verdict, what it prints and the state it leaves. `t0` to `t3` are what
    `rdtsc` returns. -/
def pmmSelftest (t0 t1 t2 t3 : UInt64) (st : Pmm) : Except Panic (Bool × Printed × Pmm) :=
  let before := st.freePages
  let r := selftestAlloc stPages 0 st
  match r.1 with
  | .error i => .ok (false, ⟨"[pmm ] selftest: exhausted at %d pages\n", [UInt64.ofNat i]⟩, r.2)
  | .ok got =>
    let w := selftestWrite got r.2
    match w.1 with
    | some page => .ok (false, ⟨"[pmm ] selftest: duplicate page %lx\n", [page]⟩, w.2)
    | none =>
      let c := selftestCheck got w.2
      match c.1 with
      | some page => .ok (false, ⟨"[pmm ] selftest: pattern mismatch at %lx\n", [page]⟩, c.2)
      | none => do
        let st ← selftestFree got c.2
        if st.freePages ≠ before then
          .ok (false, ⟨"[pmm ] selftest: leak: %lu -> %lu pages\n", [before, st.freePages]⟩, st)
        else
          let pages := UInt64.ofNat stPages
          .ok (true, ⟨"[pmm ] selftest: %u alloc+free OK, ~%lu cycles/alloc, " ++
            "~%lu cycles/free (TSC, VM-measured)\n",
            [pages, (t1 - t0) / pages, (t3 - t2) / pages]⟩, st)

/-! ## The words -/

/-- The bytes of the word at the start of a page. -/
def wordOf (page : UInt64) : Set ℕ := {a | page.toNat ≤ a ∧ a < page.toNat + 8}

/-- Writing the words of distinct pages. -/
theorem selftestWrite_run (got : List UInt64) (hpages : ∀ g ∈ got, g.toNat % 4096 = 0)
    (hnodup : got.Nodup) (st : Pmm) :
    ∃ r, selftestWrite got st = (none, st.withRam r) ∧
      (∀ a, (∀ g ∈ got, a ∉ wordOf g) → r.mem a = st.ram.mem a) ∧
      ∀ g ∈ got, u64At r.mem g.toNat = stPattern g := by
  induction got generalizing st with
  | nil => exact ⟨st.ram, rfl, fun _ _ => rfl, fun g hg => nomatch hg⟩
  | cons page rest ih =>
    obtain ⟨hnot, hnodup⟩ := List.nodup_cons.1 hnodup
    set mem := storeLe st.ram.mem page.toNat 8 (stPattern page).toNat with hmem
    obtain ⟨r, hrun, hframe, hwords⟩ := ih (fun g hg => hpages g (List.mem_cons_of_mem _ hg)) hnodup
      (st.withRam ⟨mem, ⟨true, page.toNat, 8⟩ :: st.ram.log⟩)
    -- no later word overlaps the one just written
    have hkept : ∀ a ∈ wordOf page, r.mem a = mem a := by
      rintro a ⟨hlo, hhi⟩
      refine hframe a fun g hg hword => hnot ?_
      have hpage := hpages page List.mem_cons_self
      have hother := hpages g (List.mem_cons_of_mem _ hg)
      obtain ⟨hlo', hhi'⟩ := hword
      rwa [show page = g from UInt64.toNat_inj.1 (by omega)]
    refine ⟨r, ?_, ?_, ?_⟩
    · rw [selftestWrite, bind_run, if_neg hnot]
      exact hrun
    · intro a ha
      rw [hframe a fun g hg => ha g (List.mem_cons_of_mem _ hg)]
      have hout : a ∉ wordOf page := ha page List.mem_cons_self
      refine storeLe_outside ?_
      by_contra hin
      exact hout ⟨by omega, by omega⟩
    · intro g hg
      obtain rfl | hg := List.mem_cons.1 hg
      · have hsame : u64At r.mem g.toNat = u64At mem g.toNat := by
          rw [u64At, u64At, leNat_congr fun b hlo hhi => hkept b ⟨hlo, hhi⟩]
        rw [hsame, hmem, u64At_storeLe]
      · exact hwords g hg

/-- Reading back words that are all as written. -/
theorem selftestCheck_run (got : List UInt64) (st : Pmm)
    (hwords : ∀ g ∈ got, u64At st.ram.mem g.toNat = stPattern g) :
    ∃ log, selftestCheck got st = (none, st.withRam ⟨st.ram.mem, log⟩) := by
  induction got generalizing st with
  | nil => exact ⟨st.ram.log, rfl⟩
  | cons page rest ih =>
    obtain ⟨log, hrun⟩ := ih (st.withRam ⟨st.ram.mem, ⟨false, page.toNat, 8⟩ :: st.ram.log⟩)
      fun g hg => hwords g (List.mem_cons_of_mem _ hg)
    refine ⟨log, ?_⟩
    have hword : ¬ u64At st.ram.mem page.toNat ≠ stPattern page :=
      not_not.2 (hwords page List.mem_cons_self)
    rw [selftestCheck, bind_run]
    change (if u64At st.ram.mem page.toNat ≠ stPattern page then _ else selftestCheck rest) _ = _
    rw [if_neg hword]
    exact hrun

/-! ## The allocations -/

section Allocations

variable {st : Pmm} {c : Client}

/-- While the client holds fewer pages than were free, an allocation hands out another one. -/
theorem Client.Inv.alloc_page (hst : Ready st) (h : c.Inv st)
    (hlt : c.held.card < st.clearPages.card) :
    ∃ page st', pmmAllocPage c.pmm = (page, st') ∧ page ≠ 0 ∧ page ∉ c.held ∧
      Client.Inv st ⟨st', insert page c.held⟩ ∧
      ∀ a ∉ st.storage, st'.ram.mem a = c.pmm.ram.mem a := by
  have hout := h.outcome hst
  have hnext := h.alloc hst
  unfold Client.alloc at hnext
  generalize pmmAllocPage c.pmm = r at hout hnext
  obtain ⟨page, st'⟩ := r
  cases hout with
  | exhausted hnone =>
    have hsub := Finset.card_le_card (Finset.sdiff_eq_empty_iff_subset.1 hnone)
    rw [h.card_heldPages] at hsub
    omega
  | @page p r _ _ hfit haddr _ hwithin =>
    obtain ⟨hp, hnot⟩ := Finset.mem_sdiff.1 hfit.1
    have hne : page ≠ 0 := Client.addr_ne_zero haddr (hst.low_le hp)
    dsimp only at hnext
    rw [if_neg hne] at hnext
    rw [h.storage_eq] at hwithin
    exact ⟨page, _, rfl, hne, Client.Inv.notMem_held haddr hnot, hnext, hwithin.2⟩

/-- When the client holds every page that was free, an allocation fails. -/
theorem Client.Inv.alloc_exhausted (hst : Ready st) (h : c.Inv st)
    (hfull : st.clearPages.card ≤ c.held.card) : (pmmAllocPage c.pmm).1 = 0 := by
  have hout := h.outcome hst
  have hempty : st.clearPages \ c.heldPages = ∅ := by
    rw [← h.card_heldPages] at hfull
    rw [Finset.eq_of_subset_of_card_le h.heldPages_subset hfull, Finset.sdiff_self]
  generalize pmmAllocPage c.pmm = r at hout
  obtain ⟨page, st'⟩ := r
  cases hout with
  | exhausted => rfl
  | page hfit =>
    have hp := hfit.1
    rw [hempty] at hp
    exact absurd hp (Finset.notMem_empty _)

/-- With enough pages free, the first loop fills its table with distinct pages. -/
theorem selftestAlloc_ok (hst : Ready st) (n i : ℕ) (h : c.Inv st)
    (hle : c.held.card + n ≤ st.clearPages.card) :
    ∃ got st', selftestAlloc n i c.pmm = (.ok got, st') ∧ got.length = n ∧ got.Nodup ∧
      (∀ g ∈ got, g ∉ c.held) ∧ Client.Inv st ⟨st', got.toFinset ∪ c.held⟩ ∧
      ∀ a ∉ st.storage, st'.ram.mem a = c.pmm.ram.mem a := by
  induction n generalizing i c with
  | zero =>
    refine ⟨[], c.pmm, rfl, rfl, List.nodup_nil, fun g hg => (nomatch hg), ?_, fun _ _ => rfl⟩
    rw [List.toFinset_nil, Finset.empty_union]
    exact h
  | succ n ih =>
    obtain ⟨page, st₁, hpage, hne, hnew, hinv, hframe⟩ := h.alloc_page hst (by omega)
    have hcard : (insert page c.held).card = c.held.card + 1 := Finset.card_insert_of_notMem hnew
    obtain ⟨got, st', hrun, hlength, hnodup, hfresh, hinv', hframe'⟩ :=
      ih (i + 1) hinv (by dsimp only; omega)
    refine ⟨page :: got, st', ?_, by rw [List.length_cons, hlength], ?_, ?_, ?_, ?_⟩
    · rw [selftestAlloc, bind_run, hpage]
      dsimp only
      rw [if_neg hne, bind_run, hrun]
      rfl
    · exact List.nodup_cons.2
        ⟨fun hin => hfresh page hin (Finset.mem_insert_self page c.held), hnodup⟩
    · intro g hg
      obtain rfl | hg := List.mem_cons.1 hg
      · exact hnew
      · exact fun hin => hfresh g hg (Finset.mem_insert_of_mem hin)
    · rw [List.toFinset_cons, Finset.insert_union, ← Finset.union_insert]
      exact hinv'
    · exact fun a ha => (hframe' a ha).trans (hframe a ha)

/-- With too few pages free, the first loop stops. -/
theorem selftestAlloc_exhausted (hst : Ready st) (n i : ℕ) (h : c.Inv st)
    (hlt : st.clearPages.card < c.held.card + n) :
    ∃ k st', selftestAlloc n i c.pmm = (.error k, st') := by
  induction n generalizing i c with
  | zero =>
    have hsub := Finset.card_le_card h.heldPages_subset
    rw [h.card_heldPages] at hsub
    omega
  | succ n ih =>
    by_cases hfull : st.clearPages.card ≤ c.held.card
    · refine ⟨i, (pmmAllocPage c.pmm).2, ?_⟩
      rw [selftestAlloc, bind_run, h.alloc_exhausted hst hfull, if_pos rfl]
      rfl
    · obtain ⟨page, st₁, hpage, hne, hnew, hinv, -⟩ := h.alloc_page hst (not_le.1 hfull)
      have hcard : (insert page c.held).card = c.held.card + 1 := Finset.card_insert_of_notMem hnew
      obtain ⟨k, st', hrun⟩ := ih (i + 1) hinv (by dsimp only; omega)
      refine ⟨k, st', ?_⟩
      rw [selftestAlloc, bind_run, hpage]
      dsimp only
      rw [if_neg hne, bind_run, hrun]
      rfl

end Allocations

/-! ## The releases -/

/-- A release writes the bitmap only. -/
theorem pmmFreePage_frame {addr : UInt64} {st st' : Pmm} (h : pmmFreePage addr st = .ok st') :
    st'.storage = st.storage ∧ ∀ a ∉ st.storage, st'.ram.mem a = st.ram.mem a := by
  obtain ⟨p, hp, -, -, rfl⟩ := (pmmFreePage_eq_ok_iff addr st st').1 h
  refine ⟨rfl, fun a ha => Function.update_of_ne ?_ _ _⟩
  rintro rfl
  exact ha (st.byte_mem_storage (hp.trans_le st.pages_le_bits))

theorem selftestFree_frame (got : List UInt64) {st st' : Pmm} (h : selftestFree got st = .ok st') :
    ∀ a ∉ st.storage, st'.ram.mem a = st.ram.mem a := by
  induction got generalizing st with
  | nil =>
    obtain rfl : st = st' := Except.ok.inj h
    exact fun _ _ => rfl
  | cons page rest ih =>
    obtain ⟨st₁, hfirst, hrest⟩ := bind_eq_ok_iff.1 h
    obtain ⟨hstorage, hframe⟩ := pmmFreePage_frame hfirst
    intro a ha
    rw [ih hrest a (hstorage ▸ ha), hframe a ha]

/-! ## The self-test -/

/-- The pages that hold the bitmap are marked allocated, as far as they are tracked. -/
def Pmm.ReservesBitmap (st : Pmm) : Prop :=
  ∀ a ∈ st.storage, a / 4096 < st.pages → st.bit (a / 4096) = true

/-- No byte of the bitmap is in a page that was free. -/
theorem Pmm.ReservesBitmap.notMem_storage {st : Pmm} (h : st.ReservesBitmap) {g : UInt64}
    (hg : ∃ p ∈ st.clearPages, g.toNat = 4096 * p) {a : ℕ} (ha : g.toNat ≤ a)
    (ha' : a < g.toNat + 4096) : a ∉ st.storage := by
  obtain ⟨p, hp, haddr⟩ := hg
  obtain ⟨hlt, hclear⟩ := Finset.mem_filter.1 hp
  intro hin
  have hpage : a / 4096 = p := by omega
  have hset := h a hin (hpage ▸ Finset.mem_range.1 hlt)
  rw [hpage, hclear] at hset
  cases hset

/-- A run of the self-test with enough pages free. -/
theorem pmmSelftest_success {st : Pmm} (hst : Ready st) (hown : st.ReservesBitmap)
    (hcount : 512 ≤ st.freePages.toNat) (t0 t1 t2 t3 : UInt64) :
    ∃ printed st' got, pmmSelftest t0 t1 t2 t3 st = .ok (true, printed, st') ∧
      (selftestAlloc stPages 0 st).1 = .ok got ∧ got.length = 512 ∧ got.Nodup ∧
      (∀ g ∈ got, ∃ p ∈ st.clearPages, g.toNat = 4096 * p) ∧
      st'.bitmap = st.bitmap ∧ st'.highestPage = st.highestPage ∧
      st'.freePages = st.freePages ∧ (∀ a ∈ st.storage, st'.ram.mem a = st.ram.mem a) ∧
      ∀ a, (∀ g ∈ got, a < g.toNat ∨ g.toNat + 4096 ≤ a) → st'.ram.mem a = st.ram.mem a := by
  have hroom : (∅ : Finset UInt64).card + stPages ≤ st.clearPages.card := by
    rw [hst.count] at hcount
    simpa [stPages] using hcount
  obtain ⟨got, st₁, halloc, hlength, hnodup, -, hinv, hframe₁⟩ :=
    selftestAlloc_ok hst stPages 0 (.start hst) hroom
  rw [Finset.union_empty] at hinv
  dsimp only at halloc hframe₁
  have hgot : ∀ g ∈ got, ∃ p ∈ st.clearPages, g.toNat = 4096 * p :=
    fun g hg => hinv.held g (List.mem_toFinset.2 hg)
  have haligned : ∀ g ∈ got, g.toNat % 4096 = 0 := by
    intro g hg
    obtain ⟨p, -, hp⟩ := hgot g hg
    omega
  obtain ⟨r, hwrite, hframe₂, hwords⟩ := selftestWrite_run got haligned hnodup st₁
  obtain ⟨log, hcheck⟩ := selftestCheck_run got (st₁.withRam r) hwords
  have hstorage : st₁.storage = st.storage := hinv.storage_eq
  -- the words are outside the bitmap, so for the client they are writes elsewhere
  have hinv₂ : Client.Inv st ⟨st₁.withRam ⟨r.mem, log⟩, got.toFinset⟩ := by
    have hsame : ∀ a ∈ st₁.storage, r.mem a = st₁.ram.mem a := by
      intro a ha
      refine hframe₂ a fun g hg hword => ?_
      obtain ⟨hlo, hhi⟩ := hword
      exact hown.notMem_storage (hgot g hg) hlo (by omega) (hstorage ▸ ha)
    have hwritten := hinv.write hsame
    exact {
      bitmap := hwritten.bitmap
      highestPage := hwritten.highestPage
      cursor_lt := hwritten.cursor_lt
      held := hwritten.held
      tracks := hwritten.tracks.congr rfl (fun _ _ => rfl) rfl }
  obtain ⟨st', hfree, hdone⟩ := hinv₂.free_all got hnodup rfl
  obtain ⟨hbitmap, hfreePages⟩ := hdone.restored hst
  have hrun : ∃ printed, pmmSelftest t0 t1 t2 t3 st = .ok (true, printed, st') := by
    have hfree' : selftestFree got ((st₁.withRam r).withRam ⟨(st₁.withRam r).ram.mem, log⟩) =
        .ok st' := hfree
    rw [pmmSelftest, halloc]
    dsimp only
    rw [hwrite]
    dsimp only
    rw [hcheck]
    dsimp only
    rw [hfree']
    exact ⟨_, if_neg (not_not.2 hfreePages)⟩
  obtain ⟨printed, hrun⟩ := hrun
  refine ⟨printed, st', got, hrun, by rw [halloc], hlength, hnodup, hgot, hdone.bitmap,
    hdone.highestPage, hfreePages, hbitmap, fun a ha => ?_⟩
  by_cases hin : a ∈ st.storage
  · exact hbitmap a hin
  · have hlast := selftestFree_frame got hfree a (by rwa [hinv₂.storage_eq])
    have hword : r.mem a = st₁.ram.mem a := by
      refine hframe₂ a fun g hg hword => ?_
      obtain ⟨hlo, hhi⟩ := hword
      have hout := ha g hg
      omega
    rw [hlast, ← hframe₁ a hin, ← hword]
    rfl

/-- The self-test succeeds exactly when 512 pages are free, and then it leaves the bitmap, the
    counter and every byte outside the pages it allocated as they were. It never panics. -/
theorem pmmSelftest_transparent (st : Pmm) (hst : Ready st) (hown : st.ReservesBitmap)
    (t0 t1 t2 t3 : UInt64) :
    ∃ verdict printed st', pmmSelftest t0 t1 t2 t3 st = .ok (verdict, printed, st') ∧
      (verdict = true ↔ 512 ≤ st.freePages.toNat) ∧
      (verdict = true → ∃ got, (selftestAlloc stPages 0 st).1 = .ok got ∧
        got.length = 512 ∧ got.Nodup ∧
        (∀ g ∈ got, ∃ p ∈ st.clearPages, g.toNat = 4096 * p) ∧
        st'.bitmap = st.bitmap ∧ st'.highestPage = st.highestPage ∧
        st'.freePages = st.freePages ∧ (∀ a ∈ st.storage, st'.ram.mem a = st.ram.mem a) ∧
        ∀ a, (∀ g ∈ got, a < g.toNat ∨ g.toNat + 4096 ≤ a) → st'.ram.mem a = st.ram.mem a) := by
  by_cases hcount : 512 ≤ st.freePages.toNat
  · obtain ⟨printed, st', got, hrun, htrace⟩ := pmmSelftest_success hst hown hcount t0 t1 t2 t3
    exact ⟨true, printed, st', hrun, iff_of_true rfl hcount, fun _ => ⟨got, htrace⟩⟩
  · have hroom : st.clearPages.card < (∅ : Finset UInt64).card + stPages := by
      rw [hst.count] at hcount
      simpa [stPages] using hcount
    obtain ⟨i, st', halloc⟩ := selftestAlloc_exhausted hst stPages 0 (.start hst) hroom
    dsimp only at halloc
    have hrun : ∃ printed, pmmSelftest t0 t1 t2 t3 st = .ok (false, printed, st') := by
      rw [pmmSelftest, halloc]
      exact ⟨_, rfl⟩
    obtain ⟨printed, hrun⟩ := hrun
    exact ⟨false, printed, st', hrun, iff_of_false nofun hcount, nofun⟩

/-- 798 pages; the bitmap's own page and the low 256 are reserved, the other 541 free. -/
def roomyAllocator : Pmm where
  ram := ⟨fun a => if a < 0x100000 + 32 then 0xFF else if a = 0x100000 + 32 then 0x01
    else if a = 0x100000 + 99 then 0xC0 else 0, []⟩
  bitmap := 0x100000
  bitmapBytes := 100
  highestPage := 798
  freePages := 541
  usablePages := 541
  allocatorPages := 541
  cursor := 797
  usableBytes := 0
  reservedBytes := 0
  mmioBytes := 0
  highestPage_lt := by decide

theorem roomyAllocator_ready : Ready roomyAllocator where
  cursor_lt := by decide
  pages_gt := by decide
  low := by decide +kernel
  padding := by
    intro p hge hlt
    have hlo : 798 ≤ p := hge
    have hhi : p < 800 := hlt
    interval_cases p <;> rfl
  count := by decide +kernel

theorem roomyAllocator_reservesBitmap : roomyAllocator.ReservesBitmap := by
  rintro a ⟨hlo, hhi⟩ -
  have hlo' : 0x100000 ≤ a := hlo
  have hhi' : a < 0x100000 + 100 := hhi
  rw [show a / 4096 = 256 by omega]
  rfl

theorem roomyAllocator_selftest :
    ∃ verdict printed st', pmmSelftest 0 1000 2000 3000 roomyAllocator =
      .ok (verdict, printed, st') ∧ verdict = true ∧ st'.freePages = 541 := by
  obtain ⟨verdict, printed, st', hrun, hverdict, htrace⟩ :=
    pmmSelftest_transparent roomyAllocator roomyAllocator_ready roomyAllocator_reservesBitmap
      0 1000 2000 3000
  have htrue : verdict = true := hverdict.2 (by decide)
  obtain ⟨-, -, -, -, -, -, -, hfree, -⟩ := htrace htrue
  exact ⟨verdict, printed, st', hrun, htrue, hfree⟩

end Sypas
