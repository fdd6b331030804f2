import Sypas.BootProto
import Sypas.Lib.Layout

/-!
# The boot information (`bootloader/protocols/sypas_bootproto.h`)

The record that the loader fills in field by field and the kernel reads, and the array
of memory-map entries that it points to.

## Main definitions

- `Sypas.sypasBootinfo` — the layout of `sypas_bootinfo_t`
- `Sypas.storeEntries`, `Sypas.entriesAt` — the array of entries

## Main results

- `Sypas.entriesAt_storeEntries` — a stored array is read back
-/

namespace Sypas

open Ram

def sypasBootMagic : UInt64 := 0x3150425341505953
def sypasBootVersionMajor : UInt16 := 1
def sypasBootVersionMinor : UInt16 := 0

/-- The fields of `sypas_bootinfo_t` before the command line. -/
inductive BootinfoField where
  | magic
  | versionMajor
  | versionMinor
  | size
  | memmap
  | memmapCount
  | fbBase
  | fbWidth
  | fbHeight
  | fbPitch
  | fbFormat
  | acpiRsdp
  | efiSystemTable
  | kernelPhysBase
  | kernelSize
  | stackBase
  | stackSize
deriving DecidableEq

/-- `sizeof(sypas_bootinfo_t)`: `cmdline` takes the 256 bytes from offset 104 on. -/
def sizeofBootinfo : UInt32 := 360

/-- The offset and the width of a field. -/
def BootinfoField.place : BootinfoField → ℕ × ℕ
  | magic => (0, 8)
  | versionMajor => (8, 2)
  | versionMinor => (10, 2)
  | size => (12, 4)
  | memmap => (16, 8)
  | memmapCount => (24, 8)
  | fbBase => (32, 8)
  | fbWidth => (40, 4)
  | fbHeight => (44, 4)
  | fbPitch => (48, 4)
  | fbFormat => (52, 4)
  | acpiRsdp => (56, 8)
  | efiSystemTable => (64, 8)
  | kernelPhysBase => (72, 8)
  | kernelSize => (80, 8)
  | stackBase => (88, 8)
  | stackSize => (96, 8)

/-- `sypas_bootinfo_t`, as its static assertions lay it out. -/
def sypasBootinfo : Layout BootinfoField where
  offset f := f.place.1
  width f := f.place.2
  size := 360
  inside := by rintro ⟨⟩ <;> decide
  apart := by rintro ⟨⟩ ⟨⟩ h <;> first | exact absurd rfl h | decide

/-! ## The array of entries -/

/-- The fields of `sypas_memmap_entry_t`. -/
inductive MemmapField where
  | base
  | length
  | type
  | reserved
deriving DecidableEq

def MemmapField.place : MemmapField → ℕ × ℕ
  | base => (0, 8)
  | length => (8, 8)
  | type => (16, 4)
  | reserved => (20, 4)

/-- `sypas_memmap_entry_t`. -/
def sypasMemmapEntry : Layout MemmapField where
  offset f := f.place.1
  width f := f.place.2
  size := 24
  inside := by rintro ⟨⟩ <;> decide
  apart := by rintro ⟨⟩ ⟨⟩ h <;> first | exact absurd rfl h | decide

/-- The entry at `a`. -/
def MemmapEntry.at (mem : ℕ → UInt8) (a : ℕ) : MemmapEntry where
  base := UInt64.ofNat (sypasMemmapEntry.get mem a .base)
  length := UInt64.ofNat (sypasMemmapEntry.get mem a .length)
  type := UInt32.ofNat (sypasMemmapEntry.get mem a .type)
  reserved := UInt32.ofNat (sypasMemmapEntry.get mem a .reserved)

/-- The `n` entries from `a` on. -/
def entriesAt (mem : ℕ → UInt8) (a n : ℕ) : List MemmapEntry :=
  (List.range n).map fun i => MemmapEntry.at mem (a + 24 * i)

/-- Store one entry, field by field. -/
def storeEntry (a : ℕ) (e : MemmapEntry) : StateM Ram Unit := do
  sypasMemmapEntry.assign a .base e.base.toNat
  sypasMemmapEntry.assign a .length e.length.toNat
  sypasMemmapEntry.assign a .type e.type.toNat
  sypasMemmapEntry.assign a .reserved e.reserved.toNat

/-- Store the entries of an array. -/
def storeEntries (a : ℕ) : List MemmapEntry → StateM Ram Unit
  | [] => pure ()
  | e :: rest => do
    storeEntry a e
    storeEntries (a + 24) rest

theorem storeEntry_outside {a b : ℕ} (e : MemmapEntry) (s : Ram) (h : b < a ∨ a + 24 ≤ b) :
    (storeEntry a e s).2.mem b = s.mem b := by
  unfold storeEntry
  simp only [Prog.bind_run, Layout.assign_mem]
  iterate 4 rw [Layout.set_outside _ _ _ h]

/-- An entry depends only on its 24 bytes. -/
theorem MemmapEntry.at_congr {mem mem' : ℕ → UInt8} {a : ℕ}
    (h : ∀ b, a ≤ b → b < a + 24 → mem' b = mem b) :
    MemmapEntry.at mem' a = MemmapEntry.at mem a := by
  unfold MemmapEntry.at
  simp only [sypasMemmapEntry.get_congr h]

/-- A stored entry is read back. -/
theorem at_storeEntry (a : ℕ) (e : MemmapEntry) (s : Ram) :
    MemmapEntry.at (storeEntry a e s).2.mem a = e := by
  unfold storeEntry MemmapEntry.at
  simp [Layout.assign_mem, Layout.get_set, sypasMemmapEntry, MemmapField.place]

theorem storeEntries_outside {a b : ℕ} {entries : List MemmapEntry} (s : Ram)
    (h : b < a ∨ a + 24 * entries.length ≤ b) :
    (storeEntries a entries s).2.mem b = s.mem b := by
  induction entries generalizing a s with
  | nil => rfl
  | cons e rest ih =>
    rw [List.length_cons] at h
    simp only [storeEntries, Prog.bind_run]
    rw [ih _ (by omega), storeEntry_outside e s (by omega)]

/-- The first entry of an array, and the others. -/
theorem entriesAt_succ (mem : ℕ → UInt8) (a n : ℕ) :
    entriesAt mem a (n + 1) = MemmapEntry.at mem a :: entriesAt mem (a + 24) n := by
  rw [entriesAt, List.range_succ_eq_map, List.map_cons, List.map_map, Nat.mul_zero, Nat.add_zero,
    entriesAt]
  refine congrArg _ (List.map_congr_left fun i _ => ?_)
  rw [Function.comp_apply, Nat.mul_succ, Nat.add_comm (24 * i), Nat.add_assoc]

/-- A stored array is read back. -/
theorem entriesAt_storeEntries (a : ℕ) (entries : List MemmapEntry) (s : Ram) :
    entriesAt (storeEntries a entries s).2.mem a entries.length = entries := by
  induction entries generalizing a s with
  | nil => rfl
  | cons e rest ih =>
    rw [List.length_cons, entriesAt_succ]
    simp only [storeEntries, Prog.bind_run]
    -- the rest of the array is stored behind the first entry
    rw [ih, MemmapEntry.at_congr fun b _ hb => storeEntries_outside _ (Or.inl hb), at_storeEntry]

/-- An array depends only on its bytes. -/
theorem entriesAt_congr {mem mem' : ℕ → UInt8} {a n : ℕ}
    (h : ∀ b, a ≤ b → b < a + 24 * n → mem' b = mem b) :
    entriesAt mem' a n = entriesAt mem a n := by
  refine List.map_congr_left fun i hi => MemmapEntry.at_congr fun b hlo hhi => h b ?_ ?_
  · omega
  · have := List.mem_range.1 hi
    omega

/-- The array that the boot information at `bi` points to. -/
def bootMemmap (mem : ℕ → UInt8) (bi : UInt64) : List MemmapEntry :=
  entriesAt mem (sypasBootinfo.get mem bi.toNat .memmap)
    (sypasBootinfo.get mem bi.toNat .memmapCount)

end Sypas
