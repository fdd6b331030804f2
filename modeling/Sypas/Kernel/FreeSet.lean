import Sypas.Kernel.Pmm
import Sypas.Lib.Bitmap
import Sypas.Lib.Word

/-!
# The allocator as a set of free pages

The abstract state of the allocator is the finite set of its free pages. The
bitmap represents it, padding bits included, and `free_pages` is its size.

## Main definitions

- `Sypas.Pmm.bit` — the bitmap's bit of a page
- `Sypas.Pmm.storage` — the addresses of the bitmap's bytes
- `Sypas.Marks` — the bitmap represents a set of free pages
- `Sypas.Tracks` — the bitmap and the counter represent a set of free pages

## Main results

- `Sypas.bitTest_run`, `Sypas.bitSet_run`, `Sypas.bitClear_run` — the bit operations
- `Sypas.Tracks.take`, `Sypas.Tracks.give` — taking a page out of the set, and
  putting one in
-/

namespace Sypas

open Ram Prog Bitmap

namespace Pmm

/-- The number of tracked pages. -/
def pages (st : Pmm) : ℕ := st.highestPage.toNat

/-- The tracked pages, rounded up to whole bytes of the bitmap. -/
def bits (st : Pmm) : ℕ := (st.pages + 7) / 8 * 8

/-- The bitmap's bit of page `p`. -/
def bit (st : Pmm) (p : ℕ) : Bool := bitAt st.ram.mem st.bitmap.toNat p

/-- The addresses of the bitmap's bytes. -/
def storage (st : Pmm) : Set ℕ :=
  {a | st.bitmap.toNat ≤ a ∧ a < st.bitmap.toNat + (st.pages + 7) / 8}

/-- The state after memory operations. -/
def withRam (st : Pmm) (r : Ram) : Pmm := { st with ram := r }

@[simp] theorem withRam_ram (st : Pmm) (r : Ram) : (st.withRam r).ram = r := rfl

theorem pages_lt (st : Pmm) : st.pages < 2 ^ 52 := st.highestPage_lt

theorem pages_le_bits (st : Pmm) : st.pages ≤ st.bits := by
  unfold bits
  omega

/-- The byte of a page below the bitmap's end is one of its bytes. -/
theorem byte_mem_storage (st : Pmm) {p : ℕ} (hp : p < st.bits) :
    st.bitmap.toNat + p / 8 ∈ st.storage := by
  unfold bits at hp
  exact ⟨Nat.le_add_right _ _, by omega⟩

end Pmm

/-! ## The bit operations -/

theorem toNat_shift_three (page : UInt64) : (page >>> 3).toNat = page.toNat / 8 := by
  have h3 : (3 : UInt64).toNat % 64 = 3 := rfl
  rw [UInt64.toNat_shiftRight, h3, Nat.shiftRight_eq_div_pow]

theorem toNat_and_seven (page : UInt64) : (page &&& 7).toNat = page.toNat % 8 := by
  have h7 : (7 : UInt64).toNat = 2 ^ 3 - 1 := rfl
  rw [Word.toNat_and_mask page h7]
  norm_num

theorem bitmapAddr_eq (st : Pmm) (page : UInt64) :
    bitmapAddr st page = st.bitmap.toNat + page.toNat / 8 := by
  rw [bitmapAddr, toNat_shift_three]

theorem pageBit_eq_mask (page : UInt64) : pageBit page = mask (page.toNat % 8) := by
  have hlt : page.toNat % 8 < 256 := by omega
  have hshift : (page &&& 7).toUInt8 = UInt8.ofNat (page.toNat % 8) := by
    rw [← UInt8.toNat_inj, UInt64.toNat_toUInt8, toNat_and_seven, UInt8.toNat_ofNat',
      Nat.mod_eq_of_lt hlt]
  rw [pageBit, mask, hshift]

/-- The log entry of an access to a page's byte. -/
def Pmm.access (st : Pmm) (isWrite : Bool) (p : ℕ) : Access :=
  ⟨isWrite, st.bitmap.toNat + p / 8, 1⟩

theorem bitTest_run (page : UInt64) (st : Pmm) :
    bitTest page st = (st.bit page.toNat,
      st.withRam ⟨st.ram.mem, st.access false page.toNat :: st.ram.log⟩) := by
  have htest : (decide (st.ram.mem (bitmapAddr st page) &&& pageBit page ≠ 0)) =
      st.bit page.toNat := by
    rw [bitmapAddr_eq, pageBit_eq_mask, Pmm.bit, bitAt, Bool.eq_iff_iff, decide_eq_true_eq]
    exact and_mask_ne_zero_iff _ (Nat.mod_lt _ (by decide))
  rw [← htest, Pmm.access, ← bitmapAddr_eq]
  rfl

theorem bitSet_run (page : UInt64) (st : Pmm) :
    bitSet page st = ((), st.withRam ⟨setBit st.ram.mem st.bitmap.toNat page.toNat,
      st.access true page.toNat :: st.access false page.toNat :: st.ram.log⟩) := by
  rw [Pmm.access, Pmm.access, setBit, ← pageBit_eq_mask, ← bitmapAddr_eq]
  rfl

theorem bitClear_run (page : UInt64) (st : Pmm) :
    bitClear page st = ((), st.withRam ⟨clearBit st.ram.mem st.bitmap.toNat page.toNat,
      st.access true page.toNat :: st.access false page.toNat :: st.ram.log⟩) := by
  rw [Pmm.access, Pmm.access, clearBit, ← pageBit_eq_mask, ← bitmapAddr_eq]
  rfl

/-- An access to the byte of a page is inside the bitmap. -/
theorem Pmm.access_inside (st : Pmm) (isWrite : Bool) {p : ℕ} (hp : p < st.bits) :
    (st.access isWrite p).Inside st.storage := by
  intro a hlo hhi
  obtain rfl : a = st.bitmap.toNat + p / 8 := by
    unfold Pmm.access at hlo hhi
    dsimp only at hlo hhi
    omega
  exact st.byte_mem_storage hp

/-- Reading the byte of a page accesses only the bitmap. -/
theorem Pmm.within_read (st : Pmm) {p : ℕ} (hp : p < st.bits) :
    Within st.storage st.ram ⟨st.ram.mem, st.access false p :: st.ram.log⟩ := by
  refine ⟨fun x hx => ?_, fun _ _ => rfl⟩
  rcases List.mem_cons.1 hx with rfl | hx
  · exact Or.inr (st.access_inside false hp)
  · exact Or.inl hx

/-- Rewriting the byte of a page accesses and changes only the bitmap. -/
theorem Pmm.within_update (st : Pmm) {p : ℕ} (hp : p < st.bits) (b : UInt8) :
    Within st.storage st.ram ⟨Function.update st.ram.mem (st.bitmap.toNat + p / 8) b,
      st.access true p :: st.access false p :: st.ram.log⟩ := by
  refine ⟨fun x hx => ?_, fun a ha => Function.update_of_ne ?_ _ _⟩
  · rcases List.mem_cons.1 hx with rfl | hx
    · exact Or.inr (st.access_inside true hp)
    rcases List.mem_cons.1 hx with rfl | hx
    · exact Or.inr (st.access_inside false hp)
    · exact Or.inl hx
  · rintro rfl
    exact ha (st.byte_mem_storage hp)

/-! ## The set of free pages -/

/-- The bitmap is clear exactly on the pages of `free`, its padding included. -/
structure Marks (st : Pmm) (free : Finset ℕ) : Prop where
  lt : ∀ p ∈ free, p < st.pages
  bit : ∀ p < st.bits, st.bit p = true ↔ p ∉ free

/-- Besides, `free_pages` counts them. -/
structure Tracks (st : Pmm) (free : Finset ℕ) : Prop extends Marks st free where
  count : st.freePages.toNat = free.card

/-- The pages whose bit is clear. -/
def Pmm.clearPages (st : Pmm) : Finset ℕ :=
  (Finset.range st.pages).filter fun p => st.bit p = false

variable {st : Pmm} {free : Finset ℕ}

theorem Marks.bit_eq_false (h : Marks st free) {p : ℕ} (hp : p ∈ free) : st.bit p = false := by
  rw [← Bool.not_eq_true, h.bit p ((h.lt p hp).trans_le st.pages_le_bits), not_not]
  exact hp

/-- The represented set is determined by the bitmap. -/
theorem Marks.clearPages_eq (h : Marks st free) : st.clearPages = free := by
  ext p
  rw [Pmm.clearPages, Finset.mem_filter, Finset.mem_range]
  constructor
  · rintro ⟨hlt, hbit⟩
    by_contra hp
    rw [(h.bit p (hlt.trans_le st.pages_le_bits)).2 hp] at hbit
    cases hbit
  · exact fun hp => ⟨h.lt p hp, h.bit_eq_false hp⟩

/-- With its padding set, a bitmap represents the set of its clear pages. -/
theorem Pmm.marks_clearPages (hpadding : ∀ p, st.pages ≤ p → p < st.bits → st.bit p = true) :
    Marks st st.clearPages where
  lt := fun p hp => Finset.mem_range.1 (Finset.mem_filter.1 hp).1
  bit := by
    intro p hp
    rw [Pmm.clearPages, Finset.mem_filter, Finset.mem_range, not_and, Bool.not_eq_false]
    constructor
    · exact fun hbit _ => hbit
    · intro hbit
      rcases Nat.lt_or_ge p st.pages with hlt | hge
      · exact hbit hlt
      · exact hpadding p hge hp

/-- The bitmap of a state with as many pages has as many bits. -/
theorem Pmm.bits_eq {st' : Pmm} (hpages : st'.highestPage = st.highestPage) :
    st'.bits = st.bits := by
  rw [Pmm.bits, Pmm.bits, Pmm.pages, Pmm.pages, hpages]

/-- Only the bitmap's bytes matter. -/
theorem Marks.congr {st' : Pmm} (h : Marks st free) (hpages : st'.highestPage = st.highestPage)
    (hbit : ∀ p < st.bits, st'.bit p = st.bit p) : Marks st' free where
  lt := by
    unfold Pmm.pages
    rw [hpages]
    exact h.lt
  bit := by
    intro p hp
    rw [Pmm.bits_eq hpages] at hp
    rw [hbit p hp]
    exact h.bit p hp

theorem Marks.withMem (h : Marks st free) {r : Ram} (hr : r.mem = st.ram.mem) :
    Marks (st.withRam r) free := by
  refine h.congr rfl fun p _ => ?_
  rw [Pmm.bit, Pmm.bit, Pmm.withRam_ram, hr]
  rfl

/-- Setting the bit of a page takes it out of the set. -/
theorem Marks.take (h : Marks st free) (p : ℕ) {st' : Pmm}
    (hpages : st'.highestPage = st.highestPage) (hbitmap : st'.bitmap = st.bitmap)
    (hmem : st'.ram.mem = setBit st.ram.mem st.bitmap.toNat p) : Marks st' (free.erase p) where
  lt := by
    intro q hq
    unfold Pmm.pages
    rw [hpages]
    exact h.lt q (Finset.mem_of_mem_erase hq)
  bit := by
    intro q hq
    rw [Pmm.bits_eq hpages] at hq
    rw [Pmm.bit, hbitmap, hmem, bitAt_setBit, Bool.or_eq_true, decide_eq_true_eq,
      Finset.mem_erase, not_and_or, not_not]
    exact or_congr Iff.rfl (h.bit q hq)

/-- Clearing the bit of a page puts it into the set. -/
theorem Marks.give (h : Marks st free) {p : ℕ} (hlt : p < st.pages) {st' : Pmm}
    (hpages : st'.highestPage = st.highestPage) (hbitmap : st'.bitmap = st.bitmap)
    (hmem : st'.ram.mem = clearBit st.ram.mem st.bitmap.toNat p) : Marks st' (insert p free) where
  lt := by
    intro q hq
    unfold Pmm.pages
    rw [hpages]
    rcases Finset.mem_insert.1 hq with rfl | hq
    · exact hlt
    · exact h.lt q hq
  bit := by
    intro q hq
    rw [Pmm.bits_eq hpages] at hq
    rw [Pmm.bit, hbitmap, hmem, bitAt_clearBit, Bool.and_eq_true, Bool.not_eq_true',
      decide_eq_false_iff_not, Finset.mem_insert, not_or]
    exact and_congr_right fun _ => h.bit q hq

/-- There are no more free pages than pages. -/
theorem Marks.card_le (h : Marks st free) : free.card ≤ st.pages := by
  have hsub : free ⊆ Finset.range st.pages := fun p hp => Finset.mem_range.2 (h.lt p hp)
  simpa using Finset.card_le_card hsub

theorem Tracks.congr {st' : Pmm} (h : Tracks st free) (hpages : st'.highestPage = st.highestPage)
    (hbit : ∀ p < st.bits, st'.bit p = st.bit p) (hcount : st'.freePages = st.freePages) :
    Tracks st' free :=
  ⟨h.toMarks.congr hpages hbit, hcount ▸ h.count⟩

/-- Setting the bit of a free page and counting down. -/
theorem Tracks.take {p : ℕ} (h : Tracks st free) (hp : p ∈ free) {st' : Pmm}
    (hpages : st'.highestPage = st.highestPage) (hbitmap : st'.bitmap = st.bitmap)
    (hmem : st'.ram.mem = setBit st.ram.mem st.bitmap.toNat p)
    (hcount : st'.freePages = st.freePages - 1) : Tracks st' (free.erase p) := by
  refine ⟨h.toMarks.take p hpages hbitmap hmem, ?_⟩
  have hpos : 1 ≤ free.card := Finset.card_pos.2 ⟨p, hp⟩
  have hone : (1 : UInt64).toNat = 1 := rfl
  have hle : 1 ≤ st.freePages := by
    rw [UInt64.le_iff_toNat_le, h.count, hone]
    exact hpos
  rw [hcount, UInt64.toNat_sub_of_le _ _ hle, h.count, hone, Finset.card_erase_of_mem hp]

/-- Clearing the bit of an allocated page and counting up. -/
theorem Tracks.give {p : ℕ} (h : Tracks st free) (hp : p ∉ free) (hlt : p < st.pages) {st' : Pmm}
    (hpages : st'.highestPage = st.highestPage) (hbitmap : st'.bitmap = st.bitmap)
    (hmem : st'.ram.mem = clearBit st.ram.mem st.bitmap.toNat p)
    (hcount : st'.freePages = st.freePages + 1) : Tracks st' (insert p free) := by
  have hcard := h.toMarks.card_le
  have hpagesLt := st.pages_lt
  have hone : (1 : UInt64).toNat = 1 := rfl
  refine ⟨h.toMarks.give hlt hpages hbitmap hmem, ?_⟩
  rw [hcount, Word.toNat_add_of_lt (by rw [h.count, hone]; omega), h.count, hone,
    Finset.card_insert_of_notMem hp]

end Sypas
