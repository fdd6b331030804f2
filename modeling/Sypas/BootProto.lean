import Mathlib

/-!
# The boot protocol's memory map (`bootloader/protocols/sypas_bootproto.h`)

The loader writes the map, the kernel reads it; both work in pages of 4 KiB.
-/

namespace Sypas

/-- `sypas_memmap_entry_t`. -/
structure MemmapEntry where
  base : UInt64
  length : UInt64
  type : UInt32
  reserved : UInt32
deriving DecidableEq, Repr

def sypasMemUsable : UInt32 := 1
def sypasMemReserved : UInt32 := 2
def sypasMemAcpiReclaim : UInt32 := 3
def sypasMemAcpiNvs : UInt32 := 4
def sypasMemMmio : UInt32 := 5
def sypasMemLoader : UInt32 := 6
def sypasMemKernel : UInt32 := 7
def sypasMemFirmware : UInt32 := 8

/-- `enum sypas_fb_format`. -/
def sypasFbNone : UInt32 := 0
def sypasFbXrgb8888 : UInt32 := 1
def sypasFbXbgr8888 : UInt32 := 2

/-- `PAGE_SIZE`, in the loader and in the kernel. -/
def pageSize : UInt64 := 4096

namespace MemmapEntry

/-- The entry's range contains address `a`. -/
def Has (e : MemmapEntry) (a : ℕ) : Prop :=
  e.base.toNat ≤ a ∧ a < e.base.toNat + e.length.toNat

instance (e : MemmapEntry) (a : ℕ) : Decidable (e.Has a) := inferInstanceAs (Decidable (_ ∧ _))

end MemmapEntry

end Sypas
