import Sypas.Lib.Interaction
import Sypas.Loader.Acpi
import Sypas.Loader.ExitBoot

/-!
# The firmware services (`bootloader/uefi/efi.h`)

The calls that the loader makes, and the contract that it shares with the firmware. The
ledger is the ghost state: it lists the loader's live allocations, so that the loader
can promise to change no other byte and to give back only what it holds, and can rely
on the firmware to leave those bytes alone and to hand out none of them twice.

## Main definitions

- `Sypas.FirmwareCall` — the calls, with their arguments
- `Sypas.Ledger` — the ghost state and how a call changes it
- `Sypas.services` — the contract
-/

namespace Sypas

def efiBufferTooSmall : UInt64 := 0x8000000000000005

def gLoadedImage : EfiGuid :=
  ⟨0x5B1B31A1, 0x9562, 0x11d2, #v[0x8E, 0x3F, 0x00, 0xA0, 0xC9, 0x69, 0x72, 0x3B]⟩

def gSfs : EfiGuid :=
  ⟨0x964e5b22, 0x6459, 0x11d2, #v[0x8e, 0x39, 0x00, 0xa0, 0xc9, 0x69, 0x72, 0x3b]⟩

def gFileInfo : EfiGuid :=
  ⟨0x09576e92, 0x6d3f, 0x11d2, #v[0x8e, 0x39, 0x00, 0xa0, 0xc9, 0x69, 0x72, 0x3b]⟩

def gGop : EfiGuid :=
  ⟨0x9042a9de, 0x23dc, 0x4a38, #v[0x96, 0xfb, 0x7a, 0xde, 0xd0, 0x80, 0x51, 0x6a]⟩

/-! ## Calls and answers -/

/-- `EFI_ALLOCATE_TYPE`, as far as the loader uses it. -/
inductive AllocateType where
  | anyPages
  | address
deriving DecidableEq

/-- The calls of the loader. What a call returns through a pointer to a local variable is
    part of its answer; a buffer in memory is an argument. -/
inductive FirmwareCall where
  | outputString (text : String)
  | setWatchdogTimer (timeout code dataSize data : UInt64)
  | handleProtocol (handle : UInt64) (protocol : EfiGuid)
  | openVolume (fs : UInt64)
  | openFile (root : UInt64) (name : String) (mode attributes : UInt64)
  | getInfo (file : UInt64) (type : EfiGuid) (size : UInt64)
  | allocatePool (type : UInt32) (size : UInt64)
  | read (file size buffer : UInt64)
  | closeFile (file : UInt64)
  | freePool (buffer : UInt64)
  | allocatePages (kind : AllocateType) (type : UInt32) (pages memory : UInt64)
  | freePages (memory pages : UInt64)
  | locateProtocol (protocol : EfiGuid)
  | getMemoryMap (size buffer : UInt64)
  | exitBootServices (image key : UInt64)

/-- A status and the value of the one output variable after the call: an interface, a
    handle, an address, the size read, or `FileSize` of the file information. -/
structure Reply where
  status : UInt64
  value : UInt64

/-- The status of `GetMemoryMap` and its output variables after the call. -/
structure MapReply where
  status : UInt64
  size : UInt64
  key : UInt64
  stride : UInt64

/-- What a call returns. -/
@[reducible] def FirmwareCall.Answer : FirmwareCall → Type
  | handleProtocol .. | openVolume .. | openFile .. | getInfo .. | allocatePool .. | read ..
  | allocatePages .. | locateProtocol .. => Reply
  | getMemoryMap .. => MapReply
  | _ => UInt64

namespace FirmwareCall

/-- The calls that may follow a first `ExitBootServices`. -/
def MayFollowExit : FirmwareCall → Prop
  | getMemoryMap .. | exitBootServices .. => True
  | _ => False

/-- The bytes that the loader passes as a buffer. -/
def InBuffer : FirmwareCall → ℕ → Prop
  | read _ size buffer, a | getMemoryMap size buffer, a =>
    buffer.toNat ≤ a ∧ a < buffer.toNat + size.toNat
  | _, _ => False

end FirmwareCall

/-! ## Allocations -/

/-- A live allocation: pages, or bytes of the pool. -/
inductive Block where
  | pages (memory count : UInt64)
  | pool (buffer size : UInt64)
deriving DecidableEq

namespace Block

def start : Block → ℕ
  | pages memory _ => memory.toNat
  | pool buffer _ => buffer.toNat

def bytes : Block → ℕ
  | pages _ count => 4096 * count.toNat
  | pool _ size => size.toNat

/-- The block contains address `a`. -/
def Has (b : Block) (a : ℕ) : Prop := b.start ≤ a ∧ a < b.start + b.bytes

/-- No two blocks of the list share a byte. -/
def Apart (b b' : Block) : Prop := ∀ a, b.Has a → ¬b'.Has a

/-- A pool buffer at this address. -/
def IsPool (buffer : UInt64) : Block → Bool
  | pool buffer' _ => buffer' = buffer
  | pages .. => false

/-- The block ends inside the address space; pages start on a page. -/
structure Placed (b : Block) : Prop where
  stop_le : b.start + b.bytes < 2 ^ 64
  aligned : ∀ memory count, b = .pages memory count → memory.toNat % 4096 = 0

end Block

/-- One of the blocks contains address `a`. -/
def Owned (live : List Block) (a : ℕ) : Prop := ∃ b ∈ live, b.Has a

/-! ## The ledger -/

/-- A search for a protocol: the memory before and after it, and the answer. -/
structure Located where
  before : ℕ → UInt8
  reply : Reply
  after : ℕ → UInt8

/-- The ghost state: the live allocations, latest first; the memory after the last answer; the
    last memory map with its key; the last search for a protocol; what has been printed; and
    whether an exit from boot services has been tried. -/
structure Ledger where
  live : List Block
  mem : ℕ → UInt8
  map : Option (UInt64 × List EfiMemoryDescriptor)
  located : Option Located
  printed : List String
  exiting : Bool

namespace Ledger

variable (g : Ledger) (mem : ℕ → UInt8)

/-- The allocations after a call. -/
def liveAfter : (c : FirmwareCall) → c.Answer → List Block
  | .allocatePool _ size, r =>
    if efiError r.status then g.live else .pool r.value size :: g.live
  | .allocatePages _ _ pages _, r =>
    if efiError r.status then g.live else .pages r.value pages :: g.live
  | .freePool buffer, _ => g.live.filter fun b => !b.IsPool buffer
  | .freePages memory pages, _ => g.live.erase (.pages memory pages)
  | _, _ => g.live

/-- The last memory map, with its key. -/
def mapAfter (after : ℕ → UInt8) :
    (c : FirmwareCall) → c.Answer → Option (UInt64 × List EfiMemoryDescriptor)
  | .getMemoryMap _ buffer, r =>
    if efiError r.status then g.map
    else some (r.key,
      inputDescriptors after buffer.toNat r.size r.stride)
  | _, _ => g.map

/-- The last search for a protocol. -/
def locatedAfter (after : ℕ → UInt8) : (c : FirmwareCall) → c.Answer → Option Located
  | .locateProtocol _, r => some ⟨mem, r, after⟩
  | _, _ => g.located

/-- The ledger after a call on `mem` that left the memory `after`. -/
def next (c : FirmwareCall) (r : c.Answer) (after : ℕ → UInt8) : Ledger where
  live := g.liveAfter c r
  mem := after
  map := g.mapAfter after c r
  located := g.locatedAfter mem after c r
  printed := match c with
    | .outputString text => g.printed ++ [text]
    | _ => g.printed
  exiting := match c with
    | .exitBootServices .. => true
    | _ => g.exiting

/-- What the arguments of a call have to be: only live allocations are given back or passed
    as buffers, boot services end on the last map, and nothing else follows. -/
def Legal : FirmwareCall → Prop
  | .freePool buffer => ∃ size, .pool buffer size ∈ g.live
  | .freePages memory pages => .pages memory pages ∈ g.live
  | .read _ size buffer => .pool buffer size ∈ g.live
  | .getMemoryMap size buffer => size = 0 ∧ buffer = 0 ∨
      ∃ count, .pages buffer count ∈ g.live ∧ size.toNat ≤ 4096 * count.toNat
  | .exitBootServices _ key => ∃ ds, g.map = some (key, ds)
  | _ => True

/-- What the loader guarantees at a call: since the last one it has changed only bytes of its
    allocations. -/
structure Permits (c : FirmwareCall) : Prop where
  frame : ∀ a, ¬Owned g.live a → mem a = g.mem a
  legal : g.Legal c
  quiet : g.exiting = true → c.MayFollowExit

/-- A new block does not reach into a live one. -/
structure Grants (b : Block) : Prop where
  placed : b.Placed
  apart : ∀ b' ∈ g.live, b.Apart b'

/-- The firmware's map lists every live page as LOADER data. -/
def Describes (ds : List EfiMemoryDescriptor) : Prop :=
  ∀ memory count, .pages memory count ∈ g.live → ∀ a, (Block.pages memory count).Has a →
    ∃ d ∈ ds, d.type = efiLoaderData ∧ d.Holds a

/-- What an answer means when the boot volume holds the kernel file `file`. -/
def Answers (file : List UInt8) (after : ℕ → UInt8) : (c : FirmwareCall) → c.Answer → Prop
  | .getInfo .., r => efiError r.status = false → r.value.toNat = file.length
  | .allocatePool _ size, r =>
    efiError r.status = false → g.Grants (.pool r.value size)
  | .read _ size buffer, r => efiError r.status = false →
    r.value.toNat ≤ size.toNat ∧
      Ram.bytesAt after buffer.toNat r.value.toNat = file.take r.value.toNat
  | .allocatePages kind _ pages memory, r => efiError r.status = false →
    g.Grants (.pages r.value pages) ∧ (kind = .address → r.value = memory)
  | .getMemoryMap size buffer, r => efiError r.status = false →
    r.size.toNat ≤ size.toNat ∧
      g.Describes (inputDescriptors after buffer.toNat r.size r.stride)
  | _, _ => True

end Ledger

/-- The contract with a firmware whose boot volume holds the kernel file `file`. -/
def services (file : List UInt8) :
    Interaction.Contract Ledger (ℕ → UInt8) FirmwareCall FirmwareCall.Answer where
  guarantee g mem c := g.Permits mem c
  rely g mem c r after g' :=
    (∀ a, Owned g.live a → ¬c.InBuffer a → after a = mem a) ∧ g.Answers file after c r ∧
      g' = g.next mem c r after

/-! ## Rules -/

/-- Between two calls: the loader has changed only its own blocks, which are apart. -/
structure Ledger.Consistent (g : Ledger) (mem : ℕ → UInt8) : Prop where
  frame : ∀ a, ¬Owned g.live a → mem a = g.mem a
  placed : ∀ b ∈ g.live, b.Placed
  apart : g.live.Pairwise Block.Apart

variable {g : Ledger} {mem after : ℕ → UInt8} {file : List UInt8}

theorem Block.Apart.symm {b b' : Block} (h : b.Apart b') : b'.Apart b := fun a ha hb => h a hb ha

theorem Ledger.Consistent.sub (h : g.Consistent mem) {g' : Ledger} (hmem : g'.mem = after)
    (hlive : g'.live.Sublist g.live) : g'.Consistent after where
  frame := fun _ _ => by rw [hmem]
  placed := fun b hb => h.placed b (hlive.subset hb)
  apart := h.apart.sublist hlive

theorem Ledger.Consistent.grant (h : g.Consistent mem) {g' : Ledger} {b : Block}
    (hmem : g'.mem = after) (hlive : g'.live = b :: g.live) (hgrant : g.Grants b) :
    g'.Consistent after where
  frame := fun _ _ => by rw [hmem]
  placed := by
    rw [hlive]
    exact List.forall_mem_cons.2 ⟨hgrant.placed, h.placed⟩
  apart := by
    rw [hlive]
    exact List.pairwise_cons.2 ⟨hgrant.apart, h.apart⟩

theorem Ledger.live_allocatePool (type : UInt32) (size : UInt64) (r : Reply) :
    (g.next mem (.allocatePool type size) r after).live =
      if efiError r.status then g.live else .pool r.value size :: g.live := rfl

theorem Ledger.live_allocatePages (kind : AllocateType) (type : UInt32) (pages memory : UInt64)
    (r : Reply) : (g.next mem (.allocatePages kind type pages memory) r after).live =
      if efiError r.status then g.live else .pages r.value pages :: g.live := rfl

/-- A call that is answered keeps the ledger consistent. -/
theorem Ledger.Consistent.next (h : g.Consistent mem) {c : FirmwareCall} {r : c.Answer}
    (hanswer : g.Answers file after c r) : (g.next mem c r after).Consistent after := by
  cases c with
  | allocatePool type size =>
    by_cases herror : efiError r.status = true
    · exact h.sub rfl (by rw [live_allocatePool, if_pos herror])
    · refine h.grant rfl ?_ (hanswer (Bool.not_eq_true _ ▸ herror))
      rw [live_allocatePool, if_neg herror]
  | allocatePages kind type pages memory =>
    by_cases herror : efiError r.status = true
    · exact h.sub rfl (by rw [live_allocatePages, if_pos herror])
    · refine h.grant rfl ?_ (hanswer (Bool.not_eq_true _ ▸ herror)).1
      rw [live_allocatePages, if_neg herror]
  | freePool buffer => exact h.sub rfl List.filter_sublist
  | freePages memory pages => exact h.sub rfl List.erase_sublist
  | _ => exact h.sub rfl (List.Sublist.refl _)

/-- The loader changes its own blocks only. -/
theorem Ledger.Consistent.write (h : g.Consistent mem)
    (hframe : ∀ a, ¬Owned g.live a → after a = mem a) : g.Consistent after :=
  ⟨fun a ha => (hframe a ha).trans (h.frame a ha), h.placed, h.apart⟩

end Sypas
