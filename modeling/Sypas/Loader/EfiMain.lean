import Sypas.BootInfo
import Sypas.Loader.KernelLoad
import Sypas.Loader.Services

/-!
# The loader (`bootloader/uefi/main.c`)

`efi_main` from its first call to the jump, with memory passed through every firmware
call. It never returns: it stalls after a report, halts, jumps to the kernel, or stays in
the translator.

## Main definitions

- `Sypas.readKernelFile`, `Sypas.loadKernel` — the kernel file and its segments
- `Sypas.fillBootinfo`, `Sypas.fillFramebuffer` — the boot information
- `Sypas.growMap`, `Sypas.handoffLoop` — the two loops around the memory map
- `Sypas.efiMain` — the whole loader
-/

namespace Sypas

open Program Ram

/-- How the loader ends: `BS->Stall` for ever, `cli; hlt` for ever, the translator that does
    not come back, or the jump. -/
inductive LoaderEnd where
  | stalled
  | halted
  | translating
  | jumped (rsp rdi rip : UInt64)

/-- Loader code over memory. -/
abbrev Loader (α : Type) : Type :=
  Program (ℕ → UInt8) FirmwareCall FirmwareCall.Answer LoaderEnd α

/-- Code that calls no service. -/
def onMemory {α : Type} (x : StateM Ram α) : Loader α :=
  compute fun mem => ((x ⟨mem, []⟩).1, (x ⟨mem, []⟩).2.mem)

/-- A value that is read from memory. -/
def peek {α : Type} (f : (ℕ → UInt8) → α) : Loader α := compute fun mem => (f mem, mem)

/-- A call of the firmware. -/
def service (c : FirmwareCall) : Loader c.Answer := ask c

/-- `print`. -/
def print (text : String) : Loader Unit := do
  let _ ← service (.outputString text)
  pure ()

def printAll : List String → Loader Unit
  | [] => pure ()
  | text :: texts => do
    print text
    printAll texts

/-- `die` and `die_ascii`, with the texts that they print. -/
def dieWith {α : Type} (texts : List String) : Loader α := do
  printAll texts
  exit .stalled

/-- `if (EFI_ERROR(st)) die(msg, st);` -/
def dieOnError (st : UInt64) (msg : String) : Loader Unit :=
  if efiError st then dieWith (die msg st) else pure ()

/-! ## The kernel file -/

def sypasMaxKernelFile : UInt64 := 64 * 1024 * 1024

def kernelPath : String := "\\SYPAS\\KERNEL.ELF"

def efiFileModeRead : UInt64 := 1

/-- `sizeof(infobuf)`. -/
def infobufSize : UInt64 := 344

/-- `DeviceHandle` of the `EFI_LOADED_IMAGE_PROTOCOL` at `li`. -/
def deviceHandle (li : UInt64) (mem : ℕ → UInt8) : UInt64 := u64At mem (li.toNat + 24)

/-- `read_kernel_file`: the buffer and the size of the file. -/
def readKernelFile (img : UInt64) : Loader (UInt64 × UInt64) := do
  let li : Reply ← service (.handleProtocol img gLoadedImage)
  dieOnError li.status "LoadedImage protocol missing"
  let device ← peek (deviceHandle li.value)
  let fs : Reply ← service (.handleProtocol device gSfs)
  dieOnError fs.status "boot volume has no filesystem"
  let root : Reply ← service (.openVolume fs.value)
  dieOnError root.status "OpenVolume failed"
  let f : Reply ← service (.openFile root.value kernelPath efiFileModeRead 0)
  dieOnError f.status "\\SYPAS\\KERNEL.ELF not found"
  let info : Reply ← service (.getInfo f.value gFileInfo infobufSize)
  dieOnError info.status "GetInfo failed"
  let fsize := info.value
  if fsize = 0 ∨ fsize > sypasMaxKernelFile then
    dieWith (die "kernel file size is outside loader policy" efiLoadError)
  else do
    let buf : Reply ← service (.allocatePool efiLoaderData fsize)
    dieOnError buf.status "out of memory for kernel file"
    let rd : Reply ← service (.read f.value fsize buf.value)
    if efiError rd.status ∨ rd.value ≠ fsize then
      dieWith (die "kernel read failed" rd.status)
    else do
      let _ ← service (.closeFile f.value)
      let _ ← service (.closeFile root.value)
      pure (buf.value, fsize)

/-- The body of the loop of `load_kernel_elf`, for pages that are allocated. -/
def placeSegment (file : ℕ) (seg : ElfSegment) : StateM Ram Unit := do
  fillUp seg.pageBase.toNat 0 (seg.pageEnd - seg.pageBase).toNat
  copyUp seg.paddr.toNat (file + seg.offset.toNat) seg.filesz.toNat

/-- The loop of `load_kernel_elf`. -/
def loadAll (file : UInt64) : List ElfSegment → Loader Unit
  | [] => pure ()
  | seg :: rest => do
    let r : Reply ← service (.allocatePages .address efiLoaderData
      ((seg.pageEnd - seg.pageBase) / efiPageSize) seg.pageBase)
    dieOnError r.status ("kernel load address is occupied " ++
      "(SYPAS v1 requires its fixed physical base to be free)")
    onMemory (placeSegment file.toNat seg)
    loadAll file rest

/-- `load_kernel_elf`: the plan, which holds the entry point. -/
def loadKernel (file fsize : UInt64) : Loader ElfLoadPlan := do
  let r ← onMemory (elfPlanLoad file.toNat fsize .empty)
  if r.1 ≠ .ok then
    dieWith (dieAscii "kernel image rejected" (elfStatusStr r.1) efiLoadError)
  else do
    loadAll file r.2.segs
    pure r.2

/-! ## The boot information -/

/-- The GUID at `a`. -/
def EfiGuid.at (mem : ℕ → UInt8) (a : ℕ) : EfiGuid where
  data1 := u32At mem a
  data2 := u16At mem (a + 4)
  data3 := u16At mem (a + 6)
  data4 := Vector.ofFn fun i => mem (a + 8 + i)

/-- The configuration table of the system table at `st`. -/
def configurationTable (mem : ℕ → UInt8) (st : UInt64) : List EfiConfigurationTable :=
  (List.range (u64At mem (st.toNat + 104)).toNat).map fun i =>
    { vendorGuid := .at mem ((u64At mem (st.toNat + 112)).toNat + 24 * i)
      vendorTable := u64At mem ((u64At mem (st.toNat + 112)).toNat + 24 * i + 16) }

/-- `EFI_GRAPHICS_PIXEL_FORMAT`, as far as the loader uses it. -/
def pixelRedGreenBlueReserved8BitPerColor : UInt32 := 0
def pixelBlueGreenRedReserved8BitPerColor : UInt32 := 1

/-- What the loader reads of the graphics mode. -/
structure GopMode where
  pixelFormat : UInt32
  horizontalResolution : UInt32
  verticalResolution : UInt32
  pixelsPerScanLine : UInt32
  frameBufferBase : UInt64

/-- The current mode of the protocol at `gop`, through its `Mode` and `Info` pointers. -/
def GopMode.at (mem : ℕ → UInt8) (gop : UInt64) : GopMode :=
  let mode := (u64At mem (gop.toNat + 24)).toNat
  let info := (u64At mem (mode + 8)).toNat
  { pixelFormat := u32At mem (info + 12)
    horizontalResolution := u32At mem (info + 4)
    verticalResolution := u32At mem (info + 8)
    pixelsPerScanLine := u32At mem (info + 32)
    frameBufferBase := u64At mem (mode + 24) }

/-- The first assignments to the boot information, in their order. -/
def firstFields (stackBase st : UInt64) (plan : ElfLoadPlan) : List (BootinfoField × ℕ) :=
  [(.magic, sypasBootMagic.toNat),
    (.versionMajor, sypasBootVersionMajor.toNat),
    (.versionMinor, sypasBootVersionMinor.toNat),
    (.size, sizeofBootinfo.toNat),
    (.kernelPhysBase, plan.physBase.toNat),
    (.kernelSize, (plan.physEnd - plan.physBase).toNat),
    (.stackBase, stackBase.toNat),
    (.stackSize, (16 * efiPageSize).toNat),
    (.efiSystemTable, st.toNat)]

/-- The boot information up to the assignment of `find_acpi_rsdp`. -/
def fillBootinfo (bi stackBase st : UInt64) (plan : ElfLoadPlan) : StateM Ram Unit := do
  fillUp bi.toNat 0 sizeofBootinfo.toNat
  sypasBootinfo.assignAll bi.toNat (firstFields stackBase st plan)
  let mem := (← get).mem
  sypasBootinfo.assign bi.toNat .acpiRsdp (findAcpiRsdp mem (configurationTable mem st)).toNat

/-- The assignments of `fill_framebuffer` for a mode with pixels of `format`. -/
def modeFields (format : UInt32) (mode : GopMode) : List (BootinfoField × ℕ) :=
  [(.fbFormat, format.toNat),
    (.fbBase, mode.frameBufferBase.toNat),
    (.fbWidth, mode.horizontalResolution.toNat),
    (.fbHeight, mode.verticalResolution.toNat),
    (.fbPitch, (mode.pixelsPerScanLine * 4).toNat)]

/-- `fill_framebuffer`. The source reads each field of the mode when it assigns it. That is the
    same as reading the mode first, as here, when the mode lies outside of the record at `bi`:
    it belongs to the firmware, and the record is in a page of the loader. -/
def fillFramebuffer (bi : UInt64) : Loader Unit := do
  onMemory (sypasBootinfo.assign bi.toNat .fbFormat sypasFbNone.toNat)
  let gop : Reply ← service (.locateProtocol gGop)
  if efiError gop.status ∨ gop.value = 0 then pure ()
  else do
    let mode ← peek (GopMode.at · gop.value)
    if mode.pixelFormat = pixelBlueGreenRedReserved8BitPerColor then
      onMemory (sypasBootinfo.assignAll bi.toNat (modeFields sypasFbXrgb8888 mode))
    else if mode.pixelFormat = pixelRedGreenBlueReserved8BitPerColor then
      onMemory (sypasBootinfo.assignAll bi.toNat (modeFields sypasFbXbgr8888 mode))
    else pure () -- unusable after ExitBootServices

/-! ## The memory map -/

/-- The growth loop with `n` rounds left: the buffer and its sizes. -/
def growMap : ℕ → (mmsize dsz : UInt64) → Loader (UInt64 × MapSizes)
  | 0, _, _ => dieWith (die "memory map keeps growing" efiBufferTooSmall)
  | n + 1, mmsize, dsz =>
    match mapSizes mmsize dsz with
    | none => dieWith (die "memory map size arithmetic overflow" efiLoadError)
    | some sizes => do
      let mm : Reply ← service (.allocatePages .anyPages efiLoaderData sizes.totalPages 0)
      dieOnError mm.status "memory map alloc failed"
      let r : MapReply ← service (.getMemoryMap sizes.mapBytes mm.value)
      if ¬efiError (r.status) ∧ r.stride = dsz then
        pure (mm.value, sizes)
      else if efiError (r.status) ∧ r.status ≠ efiBufferTooSmall then
        dieWith (die "GetMemoryMap failed" (r.status))
      else do
        let _ ← service (.freePages mm.value sizes.totalPages)
        growMap n r.size r.stride

/-- What happens when the last loop cannot go on: a report on the first attempt, silence
    after an exit has been tried. -/
def giveUp {α : Type} (attempt : ℕ) (texts : List String) : Loader α :=
  if attempt = 0 then dieWith texts else exit .halted

/-- The array of a successful translation and its place in the boot information. The array
    goes behind the raw map, so it may be stored when the map has been read. -/
def publishMap (setup : HandoffSetup) (res : MapResult) : StateM Ram Unit := do
  storeEntries setup.smap.toNat res.out
  sypasBootinfo.assign setup.bootinfo.toNat .memmap setup.smap.toNat
  sypasBootinfo.assign setup.bootinfo.toNat .memmapCount res.outCount.toNat

/-- One round of the last loop: whether boot services are gone. -/
def handoffRound (img : UInt64) (setup : HandoffSetup) (attempt : ℕ) : Loader Bool := do
  let r : MapReply ← service (.getMemoryMap setup.mapBytes setup.efimap)
  if efiError (r.status) then
    giveUp attempt (die "GetMemoryMap failed" (r.status))
  else do
    let result ← onMemory (setup.translate r.size r.stride)
    match result with
    | none => exit .translating
    | some res =>
      if res.status ≠ .ok then giveUp attempt (rejectedTexts res.status res.diagnostic)
      else do
        onMemory (publishMap setup res)
        let st : UInt64 ← service (.exitBootServices img r.key)
        if ¬efiError st then pure true
        else if attempt = 3 then exit .halted
        else pure false

/-- The last loop with `n` rounds left. -/
def handoffLoop (img : UInt64) (setup : HandoffSetup) : (n attempt : ℕ) → Loader Unit
  | 0, _ => exit .halted -- the fourth round has halted already
  | n + 1, attempt => do
    let gone ← handoffRound img setup attempt
    if gone then pure () else handoffLoop img setup n (attempt + 1)

/-- The jump: `stack_base + bi->stack_size`, the boot information and the entry point. -/
def jumpToKernel (setup : HandoffSetup) : Loader Empty := do
  let stackSize ← peek fun mem => sypasBootinfo.get mem setup.bootinfo.toNat .stackSize
  exit (.jumped (setup.stackBase + UInt64.ofNat stackSize) setup.bootinfo setup.entry)

/-- `efi_main` from its fixed allocations on. -/
def bootKernel (img st : UInt64) (plan : ElfLoadPlan) : Loader Empty := do
  let bi : Reply ← service (.allocatePages .anyPages efiLoaderData 1 0)
  dieOnError bi.status "bootinfo alloc failed"
  let stack : Reply ← service (.allocatePages .anyPages efiLoaderData 16 0)
  dieOnError stack.status "stack alloc failed"
  onMemory (fillBootinfo bi.value stack.value st plan)
  fillFramebuffer bi.value
  let q : MapReply ← service (.getMemoryMap 0 0)
  if q.status ≠ efiBufferTooSmall ∨ q.stride = 0 then
    dieWith (die "GetMemoryMap size query failed" q.status)
  else do
    let (efimap, sizes) ← growMap 4 q.size q.stride
    print "entering SYPAS kernel...\r\n\r\n"
    let setup : HandoffSetup :=
      { efimap, mapBytes := sizes.mapBytes, sypasCap := sizes.sypasCap, kernelPlan := plan,
        entry := plan.entry, bootinfo := bi.value, stackBase := stack.value,
        stackSize := 16 * efiPageSize }
    handoffLoop img setup 4 0
    jumpToKernel setup

/-- `efi_main`; `version` is the text of `SYPAS_VERSION_W`. -/
def efiMain (version : String) (img st : UInt64) : Loader Empty := do
  print ("SYPAS bootloader " ++ version ++ " (boot protocol v1)\r\n")
  let _ ← service (.setWatchdogTimer 0 0 0 0)
  let (file, fsize) ← readKernelFile img
  print "loaded \\SYPAS\\KERNEL.ELF, parsing...\r\n"
  let plan ← loadKernel file fsize
  let _ ← service (.freePool file)
  bootKernel img st plan

end Sypas
