import Sypas.Kernel.BootMap
import Sypas.Kernel.FreeSet

/-!
# Initialisation of the page allocator

The passes of `pmm_init` over the bitmap, each as an operation on the set of free
pages: filling it empties the set, freeing the usable entries adds their pages, and
the two reservation loops take intervals out of it.

## Main definitions

- `Sypas.Kept` — only the bitmap and the counter may have changed
- `Sypas.Initialised` — the state that `pmm_init` leaves

## Main results

- `Sypas.freeEntries_spec`, `Sypas.reservePages_spec` — the passes
- `Sypas.pmmInit_spec` — `pmm_init` panics or leaves an initialised state
- `Sypas.pmmInit_exact` — when it panics, and what it leaves otherwise
-/

namespace Sypas

open Ram Prog Bitmap

/-- From `st` to `t` only memory and `free_pages` changed, and only the bitmap's bytes
    were accessed. -/
structure Kept (st t : Pmm) : Prop where
  eq : t = { st with ram := t.ram, freePages := t.freePages }
  within : Within st.storage st.ram t.ram

theorem Kept.refl (st : Pmm) : Kept st st := ⟨rfl, Within.refl _ _⟩

theorem Kept.highestPage {st t : Pmm} (h : Kept st t) : t.highestPage = st.highestPage := by
  rw [h.eq]

theorem Kept.bitmap {st t : Pmm} (h : Kept st t) : t.bitmap = st.bitmap := by
  rw [h.eq]

theorem Kept.pages {st t : Pmm} (h : Kept st t) : t.pages = st.pages := by
  rw [Pmm.pages, Pmm.pages, h.highestPage]

theorem Kept.bits {st t : Pmm} (h : Kept st t) : t.bits = st.bits := Pmm.bits_eq h.highestPage

theorem Kept.storage {st t : Pmm} (h : Kept st t) : t.storage = st.storage := by
  rw [Pmm.storage, Pmm.storage, h.bitmap, h.pages]

theorem Kept.trans {st t u : Pmm} (h₁ : Kept st t) (h₂ : Kept t u) : Kept st u := by
  constructor
  · rw [h₂.eq, h₁.eq]
  · have hwithin := h₂.within
    rw [h₁.storage] at hwithin
    exact h₁.within.trans hwithin

variable {st : Pmm} {free : Finset ℕ}

/-! ## Freeing the usable entries -/

theorem freeCandidate_zero (st : Pmm) : freeCandidate 0 st = ((), st) := rfl

theorem freeCandidate_run (st : Pmm) {p : UInt64} (hp : p ≠ 0) :
    freeCandidate p st = ((), { st with
      ram := ⟨clearBit st.ram.mem st.bitmap.toNat p.toNat,
        st.access true p.toNat :: st.access false p.toNat :: st.ram.log⟩
      freePages := st.freePages + 1 }) := by
  rw [freeCandidate, if_neg hp, bind_run, bitClear_run]
  rfl

/-- Freeing a candidate puts it into the set, unless it is page 0. -/
theorem freeCandidate_spec (h : Tracks st free) {p : UInt64} (hlt : p.toNat < st.pages)
    (hp : p.toNat ∉ free) :
    Tracks (freeCandidate p st).2 (free ∪ ({p.toNat} : Finset ℕ).erase 0) ∧
      Kept st (freeCandidate p st).2 := by
  by_cases hzero : p = 0
  · subst hzero
    rw [freeCandidate_zero, UInt64.toNat_zero, Finset.erase_singleton, Finset.union_empty]
    exact ⟨h, .refl st⟩
  · have hne : p.toNat ≠ 0 := fun heq => hzero (UInt64.toNat_inj.1 heq)
    have hset : free ∪ ({p.toNat} : Finset ℕ).erase 0 = insert p.toNat free := by
      rw [Finset.erase_eq_of_notMem (by simpa using hne.symm), Finset.union_comm]
      rfl
    rw [freeCandidate_run st hzero, hset]
    exact ⟨h.give hp hlt rfl rfl rfl rfl, rfl, st.within_update (hlt.trans_le st.pages_le_bits) _⟩

/-- The loop over the pages of one entry. -/
theorem freePages_spec (h : Tracks st free) {first last : ℕ} (hle : first ≤ last)
    (hlast : last ≤ st.pages) (hfree : Disjoint (Finset.Ico first last) free) :
    Tracks (forRange first last (fun p => freeCandidate (UInt64.ofNat p)) st).2
        (free ∪ (Finset.Ico first last).erase 0) ∧
      Kept st (forRange first last (fun p => freeCandidate (UInt64.ofNat p)) st).2 := by
  have hpages := st.pages_lt
  refine forRange_invariant
    (fun i t => Tracks t (free ∪ (Finset.Ico first i).erase 0) ∧ Kept st t) hle ?_ ?_
  · rw [Finset.Ico_self, Finset.erase_eq_of_notMem (Finset.notMem_empty 0), Finset.union_empty]
    exact ⟨h, .refl st⟩
  · rintro i t hlo hhi ⟨htracks, hkept⟩
    have hi : (UInt64.ofNat i).toNat = i := Word.toNat_ofNat_of_lt (by omega)
    have hnew : i ∉ free ∪ (Finset.Ico first i).erase 0 := by
      rw [Finset.mem_union, Finset.mem_erase, Finset.mem_Ico, not_or]
      refine ⟨fun hmem => ?_, fun hmem => by omega⟩
      exact Finset.disjoint_left.1 hfree (Finset.mem_Ico.2 ⟨hlo, hhi⟩) hmem
    have hlt : (UInt64.ofNat i).toNat < t.pages := by
      rw [hi, hkept.pages]
      exact hhi.trans_le hlast
    obtain ⟨htracks', hkept'⟩ := freeCandidate_spec htracks hlt (by rwa [hi])
    have hset : free ∪ (Finset.Ico first (i + 1)).erase 0 =
        free ∪ (Finset.Ico first i).erase 0 ∪ ({i} : Finset ℕ).erase 0 := by
      rw [Finset.union_assoc]
      congr 1
      ext q
      simp only [Finset.mem_union, Finset.mem_erase, Finset.mem_Ico, Finset.mem_singleton]
      omega
    rw [hset]
    rw [hi] at htracks'
    exact ⟨htracks', hkept.trans hkept'⟩

theorem alignUp_toNat {x a : UInt64} {k : ℕ} (ha : (a - 1).toNat = 2 ^ k - 1)
    (h : x.toNat + (2 ^ k - 1) < 2 ^ 64) :
    (alignUp x a).toNat = (x.toNat + (2 ^ k - 1)) / 2 ^ k * 2 ^ k := by
  rw [alignUp, Word.toNat_and_not_mask _ ha, Word.toNat_add_of_lt (by rw [ha]; exact h), ha]

theorem alignDown_toNat {x a : UInt64} {k : ℕ} (ha : (a - 1).toNat = 2 ^ k - 1) :
    (alignDown x a).toNat = x.toNat / 2 ^ k * 2 ^ k := Word.toNat_and_not_mask _ ha

theorem toNat_pageSize : pageSize.toNat = 4096 := rfl

theorem toNat_pageSize_sub : (pageSize - 1).toNat = 2 ^ 12 - 1 := by decide

/-- Where the loop over an aligned entry begins. -/
theorem firstPage_eq {x : UInt64} (h : 4096 ∣ x.toNat) :
    (alignUp x pageSize / pageSize).toNat = x.toNat / 4096 := by
  have hx := x.toNat_lt
  rw [UInt64.toNat_div, toNat_pageSize, alignUp_toNat toNat_pageSize_sub (by omega)]
  omega

/-- Where it ends. -/
theorem lastPage_eq (x : UInt64) :
    (alignDown x pageSize / pageSize).toNat = x.toNat / 4096 := by
  rw [UInt64.toNat_div, toNat_pageSize, alignDown_toNat toNat_pageSize_sub]
  omega

/-- Freeing the entries of a loader map adds their pages but for page 0. -/
theorem freeEntries_spec (map : List MemmapEntry) (hmap : LoaderForm map) (h : Tracks st free)
    (htop : usableTop map / 4096 ≤ st.pages) (hfree : Disjoint (usablePages map) free) :
    Tracks (freeEntries map st).2 (free ∪ (usablePages map).erase 0) ∧
      Kept st (freeEntries map st).2 := by
  induction map generalizing st free with
  | nil =>
    rw [usablePages, Finset.erase_eq_of_notMem (Finset.notMem_empty 0), Finset.union_empty]
    exact ⟨h, .refl st⟩
  | cons e rest ih =>
    rw [freeEntries, bind_run, freeEntry]
    by_cases husable : e.type = sypasMemUsable
    swap
    · rw [usableTop, if_neg husable] at htop
      rw [usablePages, if_neg husable] at hfree ⊢
      rw [if_pos husable]
      exact ih hmap.tail h htop hfree
    have hfirst := firstPage_eq (hmap.base_dvd e List.mem_cons_self)
    have hlast := lastPage_eq (e.base + e.length)
    rw [toNat_stop (hmap.noWrap e List.mem_cons_self)] at hlast
    rw [usableTop, if_pos husable] at htop
    rw [usablePages, if_pos husable, Finset.disjoint_union_left] at hfree
    rw [usablePages, if_pos husable, if_neg (not_not.2 husable), hfirst, hlast]
    obtain ⟨htracks, hkept⟩ := freePages_spec h (Nat.div_le_div_right (Nat.le_add_right _ _))
      (show e.stop / 4096 ≤ st.pages by omega) hfree.1
    have hset : free ∪ (e.framePages ∪ usablePages rest).erase 0 =
        free ∪ e.framePages.erase 0 ∪ (usablePages rest).erase 0 := by
      rw [Finset.erase_union_distrib, Finset.union_assoc]
    have hrest : Disjoint (usablePages rest) (free ∪ e.framePages.erase 0) := by
      rw [Finset.disjoint_union_right]
      exact ⟨hfree.2, (hmap.disjoint_usablePages.mono_left (Finset.erase_subset _ _)).symm⟩
    obtain ⟨htracks', hkept'⟩ := ih hmap.tail htracks (by rw [hkept.pages]; omega) hrest
    rw [hset]
    exact ⟨htracks', hkept.trans hkept'⟩

/-! ## The reservations -/

theorem reservePage_of_set {p : UInt64} (hp : st.bit p.toNat = true) :
    reservePage p st =
      ((), st.withRam ⟨st.ram.mem, st.access false p.toNat :: st.ram.log⟩) := by
  rw [reservePage, bind_run, bitTest_run, hp]
  rfl

theorem reservePage_of_clear {p : UInt64} (hp : st.bit p.toNat = false) :
    reservePage p st = ((), { st with
      ram := ⟨setBit st.ram.mem st.bitmap.toNat p.toNat, st.access true p.toNat ::
        st.access false p.toNat :: st.access false p.toNat :: st.ram.log⟩
      freePages := st.freePages - 1 }) := by
  rw [reservePage, bind_run, bitTest_run, hp]
  dsimp only
  rw [if_pos (by decide), bind_run, bitSet_run]
  rfl

/-- Reserving a page takes it out of the set. -/
theorem reservePage_spec (h : Tracks st free) {p : UInt64} (hlt : p.toNat < st.bits) :
    Tracks (reservePage p st).2 (free.erase p.toNat) ∧ Kept st (reservePage p st).2 := by
  by_cases hp : p.toNat ∈ free
  · have hread := st.within_read hlt
    rw [reservePage_of_clear (h.bit_eq_false hp)]
    refine ⟨h.take hp rfl rfl rfl rfl, rfl, hread.trans ?_⟩
    exact (st.withRam ⟨st.ram.mem, st.access false p.toNat :: st.ram.log⟩).within_update hlt _
  · rw [reservePage_of_set ((h.bit p.toNat hlt).2 hp), Finset.erase_eq_of_notMem hp]
    exact ⟨h.congr rfl (fun _ _ => rfl) rfl, rfl, st.within_read hlt⟩

/-- A loop of reservations takes an interval out. -/
theorem reservePages_spec (h : Tracks st free) {lo hi : ℕ} (hle : lo ≤ hi) (hhi : hi ≤ st.bits) :
    Tracks (forRange lo hi (fun p => reservePage (UInt64.ofNat p)) st).2
        (free \ Finset.Ico lo hi) ∧
      Kept st (forRange lo hi (fun p => reservePage (UInt64.ofNat p)) st).2 := by
  have hpages := st.pages_lt
  have hbits : st.bits < 2 ^ 64 := by unfold Pmm.bits; omega
  refine forRange_invariant
    (fun i t => Tracks t (free \ Finset.Ico lo i) ∧ Kept st t) hle ?_ ?_
  · rw [Finset.Ico_self, Finset.sdiff_empty]
    exact ⟨h, .refl st⟩
  · rintro i t hlo hlt ⟨htracks, hkept⟩
    have hi : (UInt64.ofNat i).toNat = i := Word.toNat_ofNat_of_lt (by omega)
    obtain ⟨htracks', hkept'⟩ := reservePage_spec htracks (p := UInt64.ofNat i)
      (by rw [hi, hkept.bits]; omega)
    have hset : free \ Finset.Ico lo (i + 1) = (free \ Finset.Ico lo i).erase i := by
      ext q
      simp only [Finset.mem_sdiff, Finset.mem_erase, Finset.mem_Ico]
      constructor
      · rintro ⟨hq, hnot⟩
        exact ⟨by omega, hq, by omega⟩
      · rintro ⟨hne, hq, hnot⟩
        exact ⟨hq, by omega⟩
    rw [hset]
    rw [hi] at htracks'
    exact ⟨htracks', hkept.trans hkept'⟩

/-! ## The whole of it -/

/-- A bitmap of ones represents the empty set. -/
theorem fill_spec (st : Pmm) (hbytes : st.bitmapBytes.toNat = (st.pages + 7) / 8)
    (hcount : st.freePages = 0) :
    Tracks (onRam (fillUp st.bitmap.toNat 0xFF st.bitmapBytes.toNat) st).2 ∅ ∧
      Kept st (onRam (fillUp st.bitmap.toNat 0xFF st.bitmapBytes.toNat) st).2 := by
  have hwithin : Within st.storage st.ram
      (fillUp st.bitmap.toNat 0xFF st.bitmapBytes.toNat st.ram).2 :=
    fillUp_confined (S := st.storage) _ _ _ (fun a hlo hhi => ⟨hlo, by rwa [← hbytes]⟩) st.ram
  refine ⟨⟨⟨fun p hp => absurd hp (Finset.notMem_empty p), fun p hp => ?_⟩, ?_⟩, rfl, hwithin⟩
  · refine iff_of_true ?_ (Finset.notMem_empty p)
    have hin := st.byte_mem_storage hp
    refine bitAt_of_ones ?_ rfl
    change (fillUp st.bitmap.toNat 0xFF st.bitmapBytes.toNat st.ram).2.mem _ = _
    rw [fillUp_mem, hbytes]
    exact if_pos hin
  · change st.freePages.toNat = _
    rw [hcount]
    rfl

/-- The state after `buildBitmap`, for a bitmap that has its place. -/
theorem buildBitmap_spec (st : Pmm) (map : List MemmapEntry) (hmap : LoaderForm map)
    (hbytes : st.bitmapBytes.toNat = (st.pages + 7) / 8) (hcount : st.freePages = 0)
    (htop : usableTop map / 4096 ≤ st.pages) (hplace : (bitmapLast st).toNat ≤ st.bits)
    (hfirst : st.bitmap.toNat / 4096 ≤ (bitmapLast st).toNat) :
    ∃ r n u, (buildBitmap map st).2 = { st with
        ram := r
        freePages := n
        usablePages := u
        allocatorPages := n
        cursor := bitmapLast st } ∧
      u.toNat = ((usablePages map).erase 0).card ∧
      Within st.storage st.ram r ∧
      Tracks { st with ram := r, freePages := n }
        (((usablePages map).erase 0 \ Finset.Ico (st.bitmap.toNat / 4096) (bitmapLast st).toNat) \
          Finset.Ico 0 (min 256 st.pages)) := by
  obtain ⟨htracks₁, hkept₁⟩ := fill_spec st hbytes hcount
  set st₁ := (onRam (fillUp st.bitmap.toNat 0xFF st.bitmapBytes.toNat) st).2
  obtain ⟨htracks₂, hkept₂⟩ := freeEntries_spec map hmap htracks₁ (by rwa [hkept₁.pages])
    (Finset.disjoint_empty_right _)
  rw [Finset.empty_union] at htracks₂
  set st₂ := (freeEntries map st₁).2
  have hkept₂ := hkept₁.trans hkept₂
  -- `usable_pages` is not one of the fields that the passes look at
  set st₃ : Pmm := { st₂ with usablePages := st₂.freePages }
  have htracks₃ : Tracks st₃ ((usablePages map).erase 0) :=
    htracks₂.congr rfl (fun _ _ => rfl) rfl
  have hbits₃ : st₃.bits = st.bits := hkept₂.bits
  have hbmFirst : (st.bitmap / pageSize).toNat = st.bitmap.toNat / 4096 := by
    rw [UInt64.toNat_div, toNat_pageSize]
  obtain ⟨htracks₄, hkept₄⟩ := reservePages_spec htracks₃ hfirst (by rwa [hbits₃])
  obtain ⟨htracks₅, hkept₅⟩ := reservePages_spec htracks₄ (Nat.zero_le (min 256 st.pages))
    (by rw [hkept₄.bits, hbits₃]; have := st.pages_le_bits; omega)
  set st₄ := (forRange (st.bitmap.toNat / 4096) (bitmapLast st).toNat
    (fun p => reservePage (UInt64.ofNat p)) st₃).2 with hst₄
  set st₅ := (forRange 0 (min 256 st.pages) (fun p => reservePage (UInt64.ofNat p)) st₄).2 with hst₅
  have hrun : (buildBitmap map st).2 =
      { st₅ with allocatorPages := st₅.freePages, cursor := bitmapLast st } := by
    rw [hst₅, hst₄, ← hbmFirst]
    rfl
  have hkept := hkept₄.trans hkept₅
  have hst : st₅ = { st with
      ram := st₅.ram, freePages := st₅.freePages, usablePages := st₂.freePages } := by
    rw [hkept.eq]
    change ({ st₂ with ram := _, freePages := _, usablePages := _ } : Pmm) = _
    rw [hkept₂.eq]
  refine ⟨st₅.ram, st₅.freePages, st₂.freePages, ?_, htracks₂.count, ?_, ?_⟩
  · rw [hrun, hst]
  · have hwithin := hkept.within
    rw [show st₃.storage = st.storage from hkept₂.storage] at hwithin
    exact hkept₂.within.trans hwithin
  · refine htracks₅.congr ?_ (fun p _ => ?_) rfl
    · rw [hst]
    · rw [hst]
      rfl

/-- The pages of the bitmap's own storage. -/
def Pmm.bitmapPages (st : Pmm) : Finset ℕ :=
  Finset.Ico (st.bitmap.toNat / 4096) ((st.bitmap.toNat + st.bitmapBytes.toNat + 4095) / 4096)

/-- The pages that are free at first: the usable ones above 1 MiB outside the bitmap. -/
def initialFree (map : List MemmapEntry) (st : Pmm) : Finset ℕ :=
  (usablePages map).filter fun p => 256 ≤ p ∧ p ∉ st.bitmapPages

/-- The state that `pmm_init` leaves for a loader map. -/
structure Initialised (map : List MemmapEntry) (st : Pmm) : Prop where
  pages_eq : st.pages = usableTop map / 4096
  bytes_eq : st.bitmapBytes.toNat = (st.pages + 7) / 8
  bitmap_dvd : 4096 ∣ st.bitmap.toNat
  bitmap_inside : ∃ e ∈ map, e.type = sypasMemUsable ∧ e.base.toNat ≤ st.bitmap.toNat ∧
    0x100000 ≤ st.bitmap.toNat ∧
    (st.bitmap.toNat + st.bitmapBytes.toNat + 4095) / 4096 * 4096 ≤ e.stop
  bit : ∀ p < st.bits, st.bit p = false ↔ p ∈ initialFree map st
  clear : st.clearPages = initialFree map st
  free : st.freePages.toNat = (initialFree map st).card
  allocator : st.allocatorPages = st.freePages
  usable : st.usablePages.toNat = ((usablePages map).erase 0).card
  sum : st.usableBytes.toNat + st.reservedBytes.toNat + st.mmioBytes.toNat =
    (map.map fun e => e.length.toNat).sum

/-- Where the bitmap's own pages end, when it lies below the end of an entry. -/
theorem bitmapLast_toNat (st : Pmm) {stop : ℕ} (hstop : stop < 2 ^ 64) (hdvd : 4096 ∣ stop)
    (hle : st.bitmap.toNat + st.bitmapBytes.toNat ≤ stop) :
    (bitmapLast st).toNat = (st.bitmap.toNat + st.bitmapBytes.toNat + 4095) / 4096 := by
  have hsum : (st.bitmap + st.bitmapBytes).toNat = st.bitmap.toNat + st.bitmapBytes.toNat :=
    Word.toNat_add_of_lt (by omega)
  rw [bitmapLast, UInt64.toNat_div, toNat_pageSize,
    alignUp_toNat toNat_pageSize_sub (by rw [hsum]; omega), hsum]
  omega

/-- `ALIGN_UP(highest_page, 8) / 8` -/
theorem bitmapBytes_toNat {x : UInt64} (hx : x.toNat < 2 ^ 52) :
    (alignUp x 8 / 8).toNat = (x.toNat + 7) / 8 := by
  have h8 : (8 : UInt64).toNat = 8 := rfl
  have hmask : ((8 : UInt64) - 1).toNat = 2 ^ 3 - 1 := rfl
  rw [UInt64.toNat_div, h8, alignUp_toNat hmask (by omega)]
  omega

/-- The reservation loops leave the initial set. -/
theorem initialFree_eq (map : List MemmapEntry) (st : Pmm)
    (hpages : st.pages = usableTop map / 4096) :
    ((usablePages map).erase 0 \ st.bitmapPages) \ Finset.Ico 0 (min 256 st.pages) =
      initialFree map st := by
  ext p
  rw [Finset.mem_sdiff, Finset.mem_sdiff, Finset.mem_erase, initialFree, Finset.mem_filter,
    Finset.mem_Ico]
  constructor
  · rintro ⟨⟨⟨-, hp⟩, hnot⟩, hlow⟩
    have hlt := lt_of_mem_usablePages hp
    exact ⟨hp, by omega, hnot⟩
  · rintro ⟨hp, hge, hnot⟩
    exact ⟨⟨⟨by omega, hp⟩, hnot⟩, by omega⟩

/-- A state that tracks the initial set is initialised. -/
theorem Initialised.of_tracks {map : List MemmapEntry} {st : Pmm} {e : MemmapEntry}
    (hpages : st.pages = usableTop map / 4096) (hbytes : st.bitmapBytes.toNat = bitmapSize map)
    (he : e ∈ map) (husable : e.type = sypasMemUsable)
    (hplace : st.bitmap.toNat = max e.base.toNat 0x100000) (hbase : 4096 ∣ st.bitmap.toNat)
    (hstop : 4096 ∣ e.stop) (hin : st.bitmap.toNat + bitmapSize map ≤ e.stop)
    (htracks : Tracks st (initialFree map st)) (hallocator : st.allocatorPages = st.freePages)
    (husable' : st.usablePages.toNat = ((usablePages map).erase 0).card)
    (hsum : st.usableBytes.toNat + st.reservedBytes.toNat + st.mmioBytes.toNat =
      (map.map fun e => e.length.toNat).sum) : Initialised map st where
  pages_eq := hpages
  bytes_eq := by rw [hbytes, hpages, bitmapSize]
  bitmap_dvd := hbase
  bitmap_inside := ⟨e, he, husable, by omega, by omega, by omega⟩
  bit := fun p hp => by
    rw [← Bool.not_eq_true, htracks.bit p hp, not_not]
  clear := htracks.clearPages_eq
  free := htracks.count
  allocator := hallocator
  usable := husable'
  sum := hsum

/-- The first fit for the bitmap of a loader map, and where the bitmap ends in it. -/
theorem FirstFit.bounds {map : List MemmapEntry} {e : MemmapEntry} (hmap : LoaderForm map)
    (htop : 0 < usableTop map) (h : FirstFit (bitmapSize map) map e) :
    max e.base.toNat 0x100000 + bitmapSize map ≤ e.stop ∧ e.stop < 2 ^ 64 ∧ 4096 ∣ e.stop ∧
      e.stop ≤ usableTop map ∧ 4096 ∣ max e.base.toNat 0x100000 := by
  have he := h.mem
  obtain ⟨_, _, _, _, husable, hfit⟩ := h
  have hdvd := hmap.usableTop_dvd
  have hbase := hmap.base_dvd e he
  unfold bitmapSize at hfit ⊢
  unfold MemmapEntry.aboveLow at hfit
  refine ⟨by omega, hmap.noWrap e he, hmap.stop_dvd he, le_usableTop he husable, by omega⟩

/-- `pmm_init` on a loader map panics, or its bitmap is in the first fit and the state it
    leaves is initialised, with the cursor behind the bitmap. -/
theorem pmmInit_spec (map : List MemmapEntry) (hmap : LoaderForm map) (st : Pmm) :
    ((∃ p, pmmInit map st = .error p) ∧
      ((∀ e ∈ map, e.type = sypasMemUsable → e.length = 0) ∨
        ∀ e ∈ map, e.type = sypasMemUsable → e.aboveLow < bitmapSize map)) ∨
    ∃ st' e, pmmInit map st = .ok st' ∧ FirstFit (bitmapSize map) map e ∧
      0 < usableTop map ∧
      st'.bitmap.toNat = max e.base.toNat 0x100000 ∧ Initialised map st' ∧
      st'.cursor.toNat = (st'.bitmap.toNat + st'.bitmapBytes.toNat + 4095) / 4096 ∧
      Within st'.storage st.ram st'.ram := by
  have hmax := tally_maxAddr hmap.noWrap
  have hsum := tally_sum hmap
  have htopLt := hmap.usableTop_lt
  have hhigh : ((tally map).maxAddr / pageSize).toNat = usableTop map / 4096 := by
    rw [UInt64.toNat_div, toNat_pageSize, hmax]
  have hbytes : (alignUp ((tally map).maxAddr / pageSize) 8 / 8).toNat = bitmapSize map := by
    rw [bitmapBytes_toNat (div_pageSize_lt _), hhigh]
    rfl
  unfold pmmInit
  dsimp only
  -- the first panic: no usable memory
  by_cases hzero : (tally map).maxAddr = 0
  · rw [if_pos hzero]
    refine .inl ⟨⟨_, rfl⟩, .inl fun e he husable => ?_⟩
    have hle := le_usableTop he husable
    rw [← hmax, hzero, UInt64.toNat_zero, MemmapEntry.stop] at hle
    exact UInt64.toNat_inj.1 (by rw [UInt64.toNat_zero]; omega)
  rw [if_neg hzero]
  have htop : 0 < usableTop map := by
    rw [← hmax]
    exact Nat.pos_of_ne_zero fun h => hzero (UInt64.toNat_inj.1 h)
  have hsize : 0 < bitmapSize map := by
    have hdvd := hmap.usableTop_dvd
    unfold bitmapSize
    omega
  -- the second: no entry has room for the bitmap
  obtain ⟨hnone, hall⟩ | ⟨e, hfit, hplace⟩ := placeBitmap_spec
    (alignUp ((tally map).maxAddr / pageSize) 8 / 8) (hbytes ▸ hsize) map
  · rw [if_pos hnone]
    rw [hbytes] at hall
    exact .inl ⟨⟨_, rfl⟩, .inr hall⟩
  rw [hbytes] at hfit
  obtain ⟨hin, hstop, hdvd, hle, hbase⟩ := hfit.bounds hmap htop
  rw [if_neg fun h => by
    rw [h, UInt64.toNat_zero] at hplace
    omega]
  set bitmap := placeBitmap (alignUp ((tally map).maxAddr / pageSize) 8 / 8) map
  set st₀ : Pmm :=
    { ram := st.ram
      bitmap := bitmap
      bitmapBytes := alignUp ((tally map).maxAddr / pageSize) 8 / 8
      highestPage := (tally map).maxAddr / pageSize
      freePages := 0
      usablePages := 0
      allocatorPages := 0
      cursor := st.cursor
      usableBytes := (tally map).usableBytes
      reservedBytes := (tally map).reservedBytes
      mmioBytes := (tally map).mmioBytes
      highestPage_lt := div_pageSize_lt (tally map).maxAddr } with hst₀
  have hpages : st₀.pages = usableTop map / 4096 := hhigh
  have hlast := bitmapLast_toNat st₀ hstop hdvd
    (show bitmap.toNat + _ ≤ e.stop by rw [hplace]; exact hbytes ▸ hin)
  have hbytes₀ : st₀.bitmapBytes.toNat = bitmapSize map := hbytes
  have hbitmap₀ : st₀.bitmap.toNat = max e.base.toNat 0x100000 := hplace
  have hbits := st₀.pages_le_bits
  -- the bitmap lies inside its entry, so the pages are marked without a wrap
  obtain ⟨r, n, u, hrun, hu, hwithin, htracks⟩ := buildBitmap_spec st₀ map hmap
    (by rw [hbytes₀, hpages, bitmapSize]) rfl hpages.ge
    (by rw [hlast, hbytes₀, hbitmap₀]; omega) (by rw [hlast]; omega)
  rw [hrun]
  set st' : Pmm := { st₀ with
    ram := r
    freePages := n
    usablePages := u
    allocatorPages := n
    cursor := bitmapLast st₀ }
  have hown : st'.bitmapPages = Finset.Ico (st₀.bitmap.toNat / 4096) (bitmapLast st₀).toNat := by
    rw [hlast]
    rfl
  have htracks' : Tracks st' (initialFree map st') := by
    rw [← initialFree_eq map st' hpages, hown]
    exact htracks.congr rfl (fun _ _ => rfl) rfl
  refine .inr ⟨st', e, rfl, hfit, htop, hplace, ?_, hlast, hwithin⟩
  exact .of_tracks hpages hbytes hfit.mem hfit.usable hplace (hplace ▸ hbase) hdvd
    (hbitmap₀ ▸ hin) htracks' rfl hu hsum

/-- `pmm_init` is exact: it panics exactly when there is no usable memory or no room for the
    bitmap above 1 MiB, and otherwise the free pages are the usable ones above 1 MiB but for
    those of the bitmap. -/
theorem pmmInit_exact (map : List MemmapEntry) (hmap : LoaderForm map) (st : Pmm) :
    ((∃ p, pmmInit map st = .error p) ↔
      (∀ e ∈ map, e.type = sypasMemUsable → e.length = 0) ∨
        ∀ e ∈ map, e.type = sypasMemUsable → e.aboveLow < bitmapSize map) ∧
    ∀ st', pmmInit map st = .ok st' → Initialised map st' := by
  obtain ⟨⟨p, herr⟩, hbad⟩ | ⟨st', e, hok, hfit, htop, -, hinit, -, -⟩ := pmmInit_spec map hmap st
  · refine ⟨iff_of_true ⟨p, herr⟩ hbad, fun st' hok => ?_⟩
    rw [herr] at hok
    cases hok
  · constructor
    · refine iff_of_false ?_ ?_
      · rintro ⟨p, herr⟩
        rw [hok] at herr
        cases herr
      · have hbounds := hfit.bounds hmap htop
        rintro (hempty | hsmall)
        · -- the first fit has room for at least one byte
          have hlen := hempty e hfit.mem hfit.usable
          have hdvd := hmap.usableTop_dvd
          have hstop : e.stop = e.base.toNat := by
            rw [MemmapEntry.stop, hlen, UInt64.toNat_zero, Nat.add_zero]
          unfold bitmapSize at hbounds
          omega
        · exact absurd (hsmall e hfit.mem hfit.usable) (not_lt.2 hfit.room)
    · intro st'' hok'
      rw [hok] at hok'
      cases hok'
      exact hinit

/-- Two usable regions out of order, and device memory above them. -/
def unorderedMap : List MemmapEntry :=
  [⟨0x200000, 0x300000, sypasMemUsable, 0⟩, ⟨0, 0x9F000, sypasMemUsable, 0⟩,
    ⟨0xFE000000, 0x1000, sypasMemMmio, 0⟩]

theorem unorderedMap_loaderForm : LoaderForm unorderedMap where
  base_dvd := by decide
  length_dvd := by decide
  noWrap := by decide
  disjoint := LoaderForm.disjoint_of_stops (by decide)

theorem unorderedMap_exact :
    ¬∃ p, pmmInit unorderedMap (.zeroed ⟨fun _ => 0, []⟩) = .error p := by
  rw [(pmmInit_exact unorderedMap unorderedMap_loaderForm _).1]
  decide

end Sypas
