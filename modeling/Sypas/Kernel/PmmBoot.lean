import Sypas.Kernel.PmmInit
import Sypas.Kernel.PmmRuns

/-!
# The allocator from boot onwards

Runs that start in the state `pmm_init` leaves. Its cursor is the end of the bitmap's
own pages, and when these are the last usable pages that is no page: the scan then
begins outside the bitmap. And a release only tests the bit of its page, which a
reserved page has set as well.

## Main definitions

- `Sypas.BitmapAtTop` — the bitmap's pages are the last usable ones
- `Sypas.AllocatorBounds` — what has to hold in every state of a run
- `Sypas.Session.Step` — calls with any address
- `Sypas.Careful` — the calls that keep reserved memory reserved

## Main results

- `Sypas.pmmInit_bounds_iff` — the bounds hold exactly when the bitmap is not at the top
- `Sypas.careful_reserved_stays` — careful runs never free or hand out reserved memory
-/

namespace Sypas

open Ram Prog Bitmap

/-- The bitmap's pages are the last usable ones. -/
def BitmapAtTop (map : List MemmapEntry) : Prop :=
  ∃ e, FirstFit (bitmapSize map) map e ∧ e.stop = usableTop map ∧
    e.aboveLow ≤ (bitmapSize map + 4095) / 4096 * 4096

variable {map : List MemmapEntry} {st st₀ : Pmm}

/-- What `pmm_init` leaves, with the entry that holds the bitmap. -/
theorem pmmInit_ok (hmap : LoaderForm map) (hok : pmmInit map st = .ok st₀) :
    ∃ e, FirstFit (bitmapSize map) map e ∧ 0 < usableTop map ∧
      st₀.bitmap.toNat = max e.base.toNat 0x100000 ∧ Initialised map st₀ ∧
      st₀.cursor.toNat = (st₀.bitmap.toNat + st₀.bitmapBytes.toNat + 4095) / 4096 ∧
      Within st₀.storage st.ram st₀.ram := by
  obtain ⟨⟨p, herr⟩, -⟩ | ⟨st', e, hok', hrest⟩ := pmmInit_spec map hmap st
  · rw [hok] at herr
    cases herr
  · rw [hok] at hok'
    cases hok'
    exact ⟨e, hrest⟩

/-- The cursor is a page unless the bitmap is at the top, and then it is the first page that
    is not tracked. -/
theorem pmmInit_cursor (hmap : LoaderForm map) (hok : pmmInit map st = .ok st₀) :
    st₀.cursor.toNat ≤ st₀.pages ∧ (st₀.cursor.toNat < st₀.pages ↔ ¬BitmapAtTop map) := by
  obtain ⟨e, hfit, htop, hplace, hinit, hcursor, -⟩ := pmmInit_ok hmap hok
  obtain ⟨hin, -, hdvd, hle, hbase⟩ := hfit.bounds hmap htop
  have htopDvd := hmap.usableTop_dvd
  have hbytes : st₀.bitmapBytes.toNat = bitmapSize map := by
    rw [hinit.bytes_eq, hinit.pages_eq, bitmapSize]
  rw [hcursor, hinit.pages_eq, hbytes, hplace]
  refine ⟨by omega, ?_⟩
  have habove : e.aboveLow = e.stop - max e.base.toNat 0x100000 := rfl
  constructor
  · rintro hlt ⟨f, hfit', hstop, hsmall⟩
    obtain rfl := hfit.unique hfit'
    omega
  · intro hnot
    by_contra hge
    exact hnot ⟨e, hfit, by omega, by omega⟩

theorem mem_initialFree {p : ℕ} : p ∈ initialFree map st ↔
    p ∈ usablePages map ∧ 256 ≤ p ∧ p ∉ st.bitmapPages := Finset.mem_filter

theorem Initialised.tracks (h : Initialised map st) : Tracks st (initialFree map st) where
  lt := fun p hp => h.pages_eq ▸ lt_of_mem_usablePages (mem_initialFree.1 hp).1
  bit := fun p hp => by rw [← not_iff_not, Bool.not_eq_true, not_not, h.bit p hp]
  count := h.free

/-- The bitmap is above 1 MiB, so there are more than 256 pages. -/
theorem Initialised.pages_gt (h : Initialised map st) : 256 < st.pages := by
  obtain ⟨e, he, husable, -, hlow, hin⟩ := h.bitmap_inside
  have hle := le_usableTop he husable
  have hbytes := h.bytes_eq
  have hpages := h.pages_eq
  omega

theorem Initialised.ready (h : Initialised map st) (hcursor : st.cursor.toNat < st.pages) :
    Ready st :=
  h.tracks.ready hcursor h.pages_gt fun _ hp => (mem_initialFree.1 hp).2.1

/-- The bytes of a usable page lie in a usable entry. -/
theorem usable_page_inside (hmap : LoaderForm map) {p : ℕ} (hp : p ∈ usablePages map) :
    ∃ e ∈ map, e.type = sypasMemUsable ∧ ∀ k < 4096, e.Has (4096 * p + k) := by
  obtain ⟨e, he, husable, hin⟩ := mem_usablePages.1 hp
  refine ⟨e, he, husable, fun k hk => ?_⟩
  have hbase := hmap.base_dvd e he
  have hstop := hmap.stop_dvd he
  rw [MemmapEntry.framePages, Finset.mem_Ico] at hin
  unfold MemmapEntry.stop at hin hstop
  unfold MemmapEntry.Has
  omega

/-! ## Bounds -/

/-- The bounds of the allocator in a state `c` of a run that boots in `st` and continues
    from `st₀`: the cursor is a page, only the bitmap has been accessed, the next page comes
    from a usable entry, and the counter does not wrap when it is handed out. -/
structure AllocatorBounds (map : List MemmapEntry) (st st₀ : Pmm) (c : Client) : Prop where
  cursor_lt : c.pmm.cursor < c.pmm.highestPage
  accesses : ∀ x ∈ c.pmm.ram.log, x ∈ st.ram.log ∨
    x.Inside {a | st₀.bitmap.toNat ≤ a ∧ a < st₀.bitmap.toNat + st₀.bitmapBytes.toNat}
  usable : (pmmAllocPage c.pmm).1 ≠ 0 →
    ∃ e ∈ map, e.type = sypasMemUsable ∧ ∀ k < 4096, e.Has ((pmmAllocPage c.pmm).1.toNat + k)
  noWrap : (pmmAllocPage c.pmm).1 ≠ 0 → 0 < c.pmm.freePages

/-- The calls of a run access only the bitmap. -/
theorem Client.Inv.accesses (hst : Ready st) {c : Client}
    (hrun : Relation.ReflTransGen Client.Step ⟨st, ∅⟩ c) :
    ∀ x ∈ c.pmm.ram.log, x ∈ st.ram.log ∨ x.Inside st.storage := by
  induction hrun with
  | refl => exact fun x hx => .inl hx
  | @tail b c hbefore hstep ih =>
    have h := Client.Inv.run hst hbefore
    have hlog : ∀ x ∈ c.pmm.ram.log, x ∈ b.pmm.ram.log ∨ x.Inside st.storage := by
      cases hstep with
      | alloc =>
        have hframe := (h.outcome hst).frame (by rw [h.pages_eq]; have := hst.pages_gt; omega)
        rw [← h.storage_eq]
        exact hframe.2.2.2.2.1
      | @free addr st' hheld hfree =>
        obtain ⟨p, hlt, -, -, rfl⟩ := (pmmFreePage_eq_ok_iff addr b.pmm st').1 hfree
        have hin := hlt.trans_le b.pmm.pages_le_bits
        have hread := b.pmm.within_read hin
        have hupdate := (b.pmm.withRam ⟨b.pmm.ram.mem,
          b.pmm.access false p :: b.pmm.ram.log⟩).within_update hin
        rw [← h.storage_eq]
        exact (hread.trans (hupdate _)).1
      | write => exact fun x hx => .inl hx
    intro x hx
    obtain hx | hx := hlog x hx
    · exact ih x hx
    · exact .inr hx

theorem Initialised.storage_eq (h : Initialised map st) : st.storage =
    {a | st.bitmap.toNat ≤ a ∧ a < st.bitmap.toNat + st.bitmapBytes.toNat} := by
  rw [Pmm.storage, h.bytes_eq]

/-- From an initialised state whose cursor is a page, the bounds hold along every run. -/
theorem Initialised.bounds (hmap : LoaderForm map) (h : Initialised map st₀)
    (hcursor : st₀.cursor.toNat < st₀.pages) (hwithin : Within st₀.storage st.ram st₀.ram)
    {c : Client} (hrun : Relation.ReflTransGen Client.Step ⟨st₀, ∅⟩ c) :
    AllocatorBounds map st st₀ c := by
  have hready := h.ready hcursor
  have hinv := Client.Inv.run hready hrun
  have hout := hinv.outcome hready
  refine ⟨?_, ?_, ?_, ?_⟩
  · rw [UInt64.lt_iff_toNat_lt]
    exact hinv.cursor_lt.trans_eq hinv.pages_eq.symm
  · rw [← h.storage_eq]
    intro x hx
    obtain hx | hx := Client.Inv.accesses hready hrun x hx
    · exact hwithin.1 x hx
    · exact .inr hx
  · generalize pmmAllocPage c.pmm = r at hout
    obtain ⟨addr, st'⟩ := r
    cases hout with
    | exhausted => exact fun hne => absurd rfl hne
    | @page p _ _ _ hfit haddr =>
      have hp := (Finset.mem_sdiff.1 hfit.1).1
      rw [h.clear, mem_initialFree] at hp
      dsimp only
      rw [haddr]
      exact fun _ => usable_page_inside hmap hp.1
  · generalize pmmAllocPage c.pmm = r at hout
    obtain ⟨addr, st'⟩ := r
    cases hout with
    | exhausted => exact fun hne => absurd rfl hne
    | page hfit =>
      intro _
      rw [UInt64.lt_iff_toNat_lt, UInt64.toNat_zero, hinv.tracks.count]
      exact Finset.card_pos.2 ⟨_, hfit.1⟩

/-- The allocator keeps its bounds in every run from boot on exactly when the bitmap is not
    at the top of usable memory. -/
theorem pmmInit_bounds_iff (map : List MemmapEntry) (hmap : LoaderForm map) (st st₀ : Pmm)
    (hok : pmmInit map st = .ok st₀) :
    (∀ c, Relation.ReflTransGen Client.Step ⟨st₀, ∅⟩ c → AllocatorBounds map st st₀ c) ↔
      ¬BitmapAtTop map := by
  obtain ⟨e, -, -, -, hinit, -, hwithin⟩ := pmmInit_ok hmap hok
  rw [← (pmmInit_cursor hmap hok).2]
  constructor
  · intro hall
    exact UInt64.lt_iff_toNat_lt.1 (hall _ .refl).cursor_lt
  · exact fun hcursor c hrun => hinit.bounds hmap hcursor hwithin hrun

/-- Three usable pages above 1 MiB, the first of which becomes the bitmap. -/
def threePages : List MemmapEntry := [⟨0x100000, 0x3000, sypasMemUsable, 0⟩]

theorem threePages_loaderForm : LoaderForm threePages where
  base_dvd := by decide
  length_dvd := by decide
  noWrap := by decide
  disjoint := List.pairwise_singleton _ _

theorem threePages_boots (st : Pmm) : ∃ st₀, pmmInit threePages st = .ok st₀ := by
  obtain ⟨-, hbad⟩ | ⟨st₀, e, hok, -⟩ := pmmInit_spec threePages threePages_loaderForm st
  · exact absurd hbad (by decide)
  · exact ⟨st₀, hok⟩

theorem threePages_not_atTop : ¬BitmapAtTop threePages := by
  rintro ⟨e, hfit, -, hsmall⟩
  have he := hfit.mem
  rw [threePages, List.mem_singleton] at he
  subst he
  revert hsmall
  decide

theorem threePages_bounds :
    ∃ st₀, pmmInit threePages (.zeroed ⟨fun _ => 0, []⟩) = .ok st₀ ∧
      ∀ c, Relation.ReflTransGen Client.Step ⟨st₀, ∅⟩ c →
        AllocatorBounds threePages (.zeroed ⟨fun _ => 0, []⟩) st₀ c := by
  obtain ⟨st₀, hok⟩ := threePages_boots (.zeroed ⟨fun _ => 0, []⟩)
  exact ⟨st₀, hok, (pmmInit_bounds_iff threePages threePages_loaderForm _ st₀ hok).2
    threePages_not_atTop⟩

/-- One usable page above 1 MiB, which becomes the bitmap. -/
def topMap : List MemmapEntry := [⟨0x107000, 0x1000, sypasMemUsable, 0⟩]

theorem topMap_loaderForm : LoaderForm topMap where
  base_dvd := by decide
  length_dvd := by decide
  noWrap := by decide
  disjoint := List.pairwise_singleton _ _

/-- Booted on it, the cursor is no page, and the first allocation hands out memory past the
    end of every entry and wraps the counter. -/
theorem topMap_out_of_bounds : LoaderForm topMap ∧
    ∃ st₀, pmmInit topMap (.zeroed ⟨fun _ => 0, []⟩) = .ok st₀ ∧
      ¬st₀.cursor < st₀.highestPage ∧ (pmmAllocPage st₀).1 = 0x108000 ∧
      (∀ e ∈ topMap, ¬e.Has 0x108000) ∧
      (pmmAllocPage st₀).2.freePages = 0xFFFFFFFFFFFFFFFF ∧
      ¬AllocatorBounds topMap (.zeroed ⟨fun _ => 0, []⟩) st₀ ⟨st₀, ∅⟩ := by
  have hrun : ((pmmInit topMap (.zeroed ⟨fun _ => 0, []⟩)).toOption.map fun s =>
      (s.cursor, s.highestPage, (pmmAllocPage s).1, (pmmAllocPage s).2.freePages)) =
      some (264, 264, 0x108000, 0xFFFFFFFFFFFFFFFF) := by decide +kernel
  refine ⟨topMap_loaderForm, ?_⟩
  cases hok : pmmInit topMap (.zeroed ⟨fun _ => 0, []⟩) with
  | error =>
    rw [hok] at hrun
    cases hrun
  | ok st₀ =>
    rw [hok] at hrun
    obtain ⟨hcur, hhigh, haddr, hfree⟩ :
        st₀.cursor = 264 ∧ st₀.highestPage = 264 ∧ (pmmAllocPage st₀).1 = 0x108000 ∧
          (pmmAllocPage st₀).2.freePages = 0xFFFFFFFFFFFFFFFF := by
      simpa [Except.toOption] using hrun
    have hcursor : ¬st₀.cursor < st₀.highestPage := by
      rw [hcur, hhigh]
      decide
    exact ⟨st₀, rfl, hcursor, haddr, by decide, hfree, fun h => hcursor h.cursor_lt⟩

/-! ## Calls with any address -/

/-- A call of the allocator. -/
inductive Call where
  | alloc
  | free (addr : UInt64)

/-- The allocator, and everything that `pmm_alloc_page` has returned. -/
structure Session where
  pmm : Pmm
  returned : List UInt64

namespace Session

/-- One allowed call that does not panic, or a write elsewhere. -/
inductive Step (allowed : Pmm → Call → Prop) : Session → Session → Prop
  | alloc {s : Session} (hallowed : allowed s.pmm .alloc) :
      Step allowed s ⟨(pmmAllocPage s.pmm).2, (pmmAllocPage s.pmm).1 :: s.returned⟩
  | free {s : Session} {addr : UInt64} {st : Pmm} (hallowed : allowed s.pmm (.free addr))
      (hfree : pmmFreePage addr s.pmm = .ok st) : Step allowed s ⟨st, s.returned⟩
  | write {s : Session} {mem : ℕ → UInt8}
      (hmem : ∀ a ∈ s.pmm.storage, mem a = s.pmm.ram.mem a) :
      Step allowed s ⟨s.pmm.withRam ⟨mem, s.pmm.ram.log⟩, s.returned⟩

end Session

/-- A page that is never to be handed out: below 1 MiB, in the bitmap's own storage, or not
    usable. -/
def ReservedPage (map : List MemmapEntry) (st₀ : Pmm) (p : ℕ) : Prop :=
  p < 256 ∨ p ∈ st₀.bitmapPages ∨ p ∉ usablePages map

theorem reservedPage_iff {p : ℕ} : ReservedPage map st₀ p ↔ p ∉ initialFree map st₀ := by
  rw [ReservedPage, mem_initialFree]
  constructor
  · rintro (hlow | hown | hother) ⟨hp, hge, hnot⟩
    · omega
    · exact hnot hown
    · exact hother hp
  · intro hnot
    by_contra hcon
    push Not at hcon
    exact hnot ⟨hcon.2.2, by omega, hcon.2.1⟩

/-- Reserved memory is reserved in state `s` of a run from `st₀`. -/
structure ReservedStays (map : List MemmapEntry) (st₀ : Pmm) (s : Session) : Prop where
  marked : ∀ p < s.pmm.pages, ReservedPage map st₀ p → s.pmm.bit p = true
  returned : ∀ a ∈ s.returned, a ≠ 0 → ¬ReservedPage map st₀ (a.toNat / 4096)
  free_le : s.pmm.freePages ≤ s.pmm.allocatorPages

/-- The calls that keep reserved memory reserved: an allocation whose scan starts at a page
    or at a bit that is set, and a release of a page that was free at first. -/
def Careful (map : List MemmapEntry) (st₀ st : Pmm) : Call → Prop
  | .alloc => st.cursor < st.highestPage ∨ st.bit st.pages = true
  | .free addr => ¬ReservedPage map st₀ (addr.toNat / 4096)

/-- What an allocation does to the set of free pages. -/
theorem Tracks.alloc {free : Finset ℕ} {start : ℕ} {st st' : Pmm} {addr : UInt64}
    (h : Tracks st free) (hout : AllocOutcome st free start addr st') :
    ∃ free' ⊆ free, Tracks st' free' ∧ (addr ≠ 0 → addr.toNat / 4096 ∈ free) := by
  cases hout with
  | exhausted hnone hmem =>
    refine ⟨free, Finset.Subset.refl _, h.congr rfl (fun p _ => ?_) rfl, fun hne => absurd rfl hne⟩
    rw [Pmm.bit, Pmm.bit]
    dsimp only
    rw [hmem]
  | @page p _ _ _ hfit haddr hmem =>
    refine ⟨free.erase p, Finset.erase_subset _ _, h.take hfit.1 rfl rfl hmem rfl, fun _ => ?_⟩
    rw [haddr, Nat.mul_div_cancel_left p (by decide)]
    exact hfit.1

namespace Session

/-- What holds along a careful run from `st₀`. -/
structure Inv (map : List MemmapEntry) (st₀ : Pmm) (s : Session) : Prop where
  highestPage : s.pmm.highestPage = st₀.highestPage
  allocator : s.pmm.allocatorPages = st₀.allocatorPages
  cursor_le : s.pmm.cursor.toNat ≤ st₀.pages
  tracks : ∃ free ⊆ initialFree map st₀, Tracks s.pmm free
  returned : ∀ a ∈ s.returned, a ≠ 0 → ¬ReservedPage map st₀ (a.toNat / 4096)

variable {s s' : Session}

theorem Inv.pages_eq (h : Inv map st₀ s) : s.pmm.pages = st₀.pages := by
  rw [Pmm.pages, Pmm.pages, h.highestPage]

theorem Inv.start (hinit : Initialised map st₀) (hcursor : st₀.cursor.toNat ≤ st₀.pages) :
    Inv map st₀ ⟨st₀, []⟩ where
  highestPage := rfl
  allocator := rfl
  cursor_le := hcursor
  tracks := ⟨_, Finset.Subset.refl _, hinit.tracks⟩
  returned := fun _ ha => absurd ha List.not_mem_nil

/-- A scan that starts at a page or at a set bit finds a page of the set or nothing. -/
theorem Inv.outcome (hinit : Initialised map st₀) (h : Inv map st₀ s)
    (hcareful : Careful map st₀ s.pmm .alloc) {free : Finset ℕ} (hsub : free ⊆ initialFree map st₀)
    (htracks : Tracks s.pmm free) :
    ∃ (r : Ram) (c : UInt64) (start : ℕ), r.mem = s.pmm.ram.mem ∧
      AllocOutcome { s.pmm with ram := r, cursor := c } free start
        (pmmAllocPage s.pmm).1 (pmmAllocPage s.pmm).2 := by
  have hlow : ∀ p ∈ free, 256 ≤ p := fun p hp => (mem_initialFree.1 (hsub hp)).2.1
  have hpages : 256 < s.pmm.pages := h.pages_eq ▸ hinit.pages_gt
  by_cases hcursor : s.pmm.cursor < s.pmm.highestPage
  · exact ⟨s.pmm.ram, s.pmm.cursor, _, rfl,
      pmmAllocPage_spec htracks.toMarks hlow hpages (UInt64.lt_iff_toNat_lt.1 hcursor)⟩
  · have hpast : s.pmm.cursor.toNat = s.pmm.pages := by
      refine le_antisymm (h.cursor_le.trans_eq h.pages_eq.symm) ?_
      exact not_lt.1 (mt UInt64.lt_iff_toNat_lt.2 hcursor)
    obtain ⟨r, c, hr, hout⟩ := pmmAllocPage_spec_past htracks.toMarks hlow hpages hpast
      (hcareful.resolve_left hcursor)
    exact ⟨r, c, 0, hr, hout⟩

/-- Every careful step keeps the free pages among the initial ones. -/
theorem Inv.step (hinit : Initialised map st₀) (h : Inv map st₀ s)
    (hstep : Step (Careful map st₀) s s') : Inv map st₀ s' := by
  obtain ⟨free, hsub, htracks⟩ := h.tracks
  cases hstep with
  | alloc hcareful =>
    obtain ⟨r, c, start, hr, hout⟩ := h.outcome hinit hcareful hsub htracks
    have htracks₁ : Tracks { s.pmm with ram := r, cursor := c } free :=
      htracks.congr rfl (fun p _ => by rw [Pmm.bit, Pmm.bit]; dsimp only; rw [hr]) rfl
    obtain ⟨-, hhigh, halloc, hcur, -⟩ := hout.frame
      (show 0 < s.pmm.pages by have := hinit.pages_gt; have := h.pages_eq; omega)
    obtain ⟨free', hsub', htracks', haddr⟩ := htracks₁.alloc hout
    refine ⟨hhigh.trans h.highestPage, halloc.trans h.allocator, ?_,
      ⟨free', hsub'.trans hsub, htracks'⟩, ?_⟩
    · exact hcur.le.trans_eq h.pages_eq
    · intro a ha hne
      obtain rfl | ha := List.mem_cons.1 ha
      · rw [reservedPage_iff, not_not]
        exact hsub (haddr hne)
      · exact h.returned a ha hne
  | @free addr st' hcareful hfree =>
    obtain ⟨p, hlt, haddr, hset, rfl⟩ := (pmmFreePage_eq_ok_iff addr s.pmm st').1 hfree
    have hpage : addr.toNat / 4096 = p := by omega
    have hp : p ∈ initialFree map st₀ := by
      rw [← not_not (a := p ∈ _), ← reservedPage_iff, ← hpage]
      exact hcareful
    have hnot := (htracks.bit p (hlt.trans_le s.pmm.pages_le_bits)).1 hset
    exact ⟨h.highestPage, h.allocator, h.cursor_le, ⟨insert p free,
      Finset.insert_subset hp hsub, htracks.give hnot hlt rfl rfl rfl rfl⟩, h.returned⟩
  | write hmem =>
    refine ⟨h.highestPage, h.allocator, h.cursor_le, ⟨free, hsub, ?_⟩, h.returned⟩
    refine htracks.congr rfl (fun p hp => ?_) rfl
    unfold Pmm.bit bitAt
    dsimp only [Pmm.withRam]
    rw [hmem _ (s.pmm.byte_mem_storage hp)]

theorem Inv.run (hinit : Initialised map st₀) (hcursor : st₀.cursor.toNat ≤ st₀.pages)
    (hrun : Relation.ReflTransGen (Step (Careful map st₀)) ⟨st₀, []⟩ s) : Inv map st₀ s := by
  induction hrun with
  | refl => exact .start hinit hcursor
  | tail _ hstep ih => exact ih.step hinit hstep

theorem Inv.reservedStays (hinit : Initialised map st₀) (h : Inv map st₀ s) :
    ReservedStays map st₀ s := by
  obtain ⟨free, hsub, htracks⟩ := h.tracks
  refine ⟨fun p hp hreserved => ?_, h.returned, ?_⟩
  · rw [htracks.bit p (hp.trans_le s.pmm.pages_le_bits)]
    exact fun hmem => reservedPage_iff.1 hreserved (hsub hmem)
  · rw [UInt64.le_iff_toNat_le, htracks.count, h.allocator, hinit.allocator, hinit.free]
    exact Finset.card_le_card hsub

end Session

/-- Reserved memory stays reserved in every run of careful calls. -/
theorem careful_reserved_stays (map : List MemmapEntry) (hmap : LoaderForm map) (st st₀ : Pmm)
    (hok : pmmInit map st = .ok st₀) (s : Session)
    (hrun : Relation.ReflTransGen (Session.Step (Careful map st₀)) ⟨st₀, []⟩ s) :
    ReservedStays map st₀ s := by
  obtain ⟨e, -, -, -, hinit, -⟩ := pmmInit_ok hmap hok
  exact (Session.Inv.run hinit (pmmInit_cursor hmap hok).1 hrun).reservedStays hinit

/-- A page is allocated and released. -/
theorem threePages_reserved_stays :
    ∃ st₀ st₁, pmmInit threePages (.zeroed ⟨fun _ => 0, []⟩) = .ok st₀ ∧
      (pmmAllocPage st₀).1 = 0x101000 ∧ pmmFreePage 0x101000 (pmmAllocPage st₀).2 = .ok st₁ ∧
      ReservedStays threePages st₀ ⟨st₁, [(pmmAllocPage st₀).1]⟩ := by
  obtain ⟨st₀, hok⟩ := threePages_boots (.zeroed ⟨fun _ => 0, []⟩)
  have hcursor := (pmmInit_cursor threePages_loaderForm hok).2.2 threePages_not_atTop
  have hcalls : ((pmmInit threePages (.zeroed ⟨fun _ => 0, []⟩)).toOption.map fun st₀ =>
      ((pmmAllocPage st₀).1, (pmmFreePage 0x101000 (pmmAllocPage st₀).2).toOption.isSome)) =
        some (0x101000, true) := by decide +kernel
  rw [hok] at hcalls
  obtain ⟨haddr, hsome⟩ := Prod.ext_iff.1 (Option.some.inj hcalls)
  have halloc : Relation.ReflTransGen (Session.Step (Careful threePages st₀)) ⟨st₀, []⟩
      ⟨(pmmAllocPage st₀).2, [(pmmAllocPage st₀).1]⟩ :=
    .single (.alloc (.inl (UInt64.lt_iff_toNat_lt.2 hcursor)))
  cases hfree : pmmFreePage 0x101000 (pmmAllocPage st₀).2 with
  | error => simp [Except.toOption, hfree] at hsome
  | ok st₁ =>
    -- the page that was handed out is not reserved, so it may be released
    have hnot : ¬ReservedPage threePages st₀ ((0x101000 : UInt64).toNat / 4096) :=
      (careful_reserved_stays threePages threePages_loaderForm _ st₀ hok _ halloc).returned _
        (List.mem_singleton.2 haddr.symm) (by decide)
    exact ⟨st₀, st₁, hok, haddr, hfree, careful_reserved_stays threePages threePages_loaderForm _
      st₀ hok _ (halloc.tail (.free hnot hfree))⟩

/-- Releasing page 1, which was never handed out, does not panic and makes it free. -/
theorem threePages_frees_reserved :
    ∃ st₀ st₁, pmmInit threePages (.zeroed ⟨fun _ => 0, []⟩) = .ok st₀ ∧
      pmmFreePage 0x1000 st₀ = .ok st₁ ∧
      Session.Step (fun _ _ => True) ⟨st₀, []⟩ ⟨st₁, []⟩ ∧
      ReservedPage threePages st₀ 1 ∧ st₁.bit 1 = false ∧
      st₁.allocatorPages < st₁.freePages ∧
      ¬ReservedStays threePages st₀ ⟨st₁, []⟩ := by
  obtain ⟨st₀, hok⟩ := threePages_boots (.zeroed ⟨fun _ => 0, []⟩)
  have hrun : ((pmmInit threePages (.zeroed ⟨fun _ => 0, []⟩)).toOption.map fun st₀ =>
      (pmmFreePage 0x1000 st₀).toOption.map fun st₁ =>
        (st₁.bit 1, st₁.allocatorPages, st₁.freePages)) = some (some (false, 2, 3)) := by
    decide +kernel
  rw [hok] at hrun
  cases hfree : pmmFreePage 0x1000 st₀ with
  | error => simp [Except.toOption, hfree] at hrun
  | ok st₁ =>
    obtain ⟨hbit, halloc, hcount⟩ :
        st₁.bit 1 = false ∧ st₁.allocatorPages = 2 ∧ st₁.freePages = 3 := by
      simpa [Except.toOption, hfree] using hrun
    have hlt : st₁.allocatorPages < st₁.freePages := by
      rw [halloc, hcount]
      decide
    refine ⟨st₀, st₁, hok, hfree, .free trivial hfree, .inl (by decide), hbit, hlt, fun h => ?_⟩
    exact absurd (UInt64.le_iff_toNat_le.1 h.free_le) (not_le.2 (UInt64.lt_iff_toNat_lt.1 hlt))

end Sypas
