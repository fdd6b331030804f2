import Mathlib

/-!
# Firmware statuses and diagnostics (`bootloader/uefi/main.c`)

The loader's fatal paths, as the list of texts that they print.
-/

namespace Sypas

def efiPageSize : UInt64 := 4096

/-- `EFI_ERROR`: the status is negative as a signed word. -/
def efiError (status : UInt64) : Bool := status.toInt64 < 0

def efiLoadError : UInt64 := 0x8000000000000001

/-- The text that `print_hex` prints. -/
def printHex (v : UInt64) : String :=
  let hexdig := "0123456789ABCDEF".toList
  String.ofList ('0' :: 'x' ::
    (List.range 16).map fun i => hexdig.getD (v.toNat / 2 ^ (60 - 4 * i) % 16) '0')

/-- The texts that `die` prints before it stalls for ever. -/
def die (msg : String) (st : UInt64) : List String :=
  ["\r\nSYPAS loader error: ", msg, " (status ", printHex st, ")\r\nSystem halted.\r\n"]

/-- The texts of `die_ascii`; its buffer takes 63 characters of the detail. -/
def dieAscii (msg detail : String) (st : UInt64) : List String :=
  ["\r\nSYPAS loader error: ", msg, ": "] ++ die (String.ofList (detail.toList.take 63)) st

end Sypas
