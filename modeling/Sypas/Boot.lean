import Sypas.Handoff
import Sypas.Loader.EfiMainMay

/-!
# From the firmware to the kernel's allocator

The loader's last state is the kernel's first. What the loader has left in its own
blocks, the kernel's page allocator neither writes nor hands out, whatever the firmware
has answered and whatever the kernel asks for.

## Main definitions

- `Sypas.KeepsLoaderBlocks` — a state of the allocator that leaves the loader's blocks alone

## Main results

- `Sypas.KernelEntry.usable_apart` — the usable entries share no byte with a live block
- `Sypas.KernelEntry.pmmInit_map` — `pmm_init` leaves the map alone that it reads
- `Sypas.boot_keeps_blocks` — over every run of the loader and of the allocator after it
-/

namespace Sypas

open Interaction Program Ram

/-! ## The map at the jump -/

section Entry

variable {file : List UInt8} {st : UInt64} {plan : ElfLoadPlan} {stack smap : UInt64}
  {out : List MemmapEntry} {rsp rdi rip : UInt64} {mem : ℕ → UInt8} {g : Ledger}

/-- The kernel reads the array that the loader has built. -/
theorem KernelEntry.bootMemmap_eq
    (h : KernelEntry file st plan stack smap out rsp rdi rip mem g) : bootMemmap mem rdi = out := by
  obtain ⟨located, mid, -, -, hinfo⟩ := h.info
  obtain ⟨efimap, pages, hlive, hle, hstop⟩ := h.blocks
  have hplaced := (h.consistent.placed (.pages efimap pages) (by rw [hlive]; simp)).stop_le
  change efimap.toNat + 4096 * pages.toNat < 2 ^ 64 at hplaced
  have hlen : (UInt64.ofNat out.length).toNat = out.length := Nat.mod_eq_of_lt (by omega)
  unfold bootMemmap
  rw [hinfo .memmap, hinfo .memmapCount]
  change entriesAt mem smap.toNat (UInt64.ofNat out.length).toNat = out
  rw [hlen, h.array]

/-- Every live block consists of pages, which the firmware's map lists as LOADER data. -/
theorem KernelEntry.owned_loaderData
    (h : KernelEntry file st plan stack smap out rsp rdi rip mem g)
    {ds : List EfiMemoryDescriptor} (hdescribes : g.Describes ds) {a : ℕ} (ha : Owned g.live a) :
    ∃ d ∈ ds, d.type = efiLoaderData ∧ d.Holds a := by
  obtain ⟨b, hb, hin⟩ := ha
  cases b with
  | pages memory count => exact hdescribes memory count hb a hin
  | pool buffer size =>
    obtain ⟨efimap, pages, hlive, -, -⟩ := h.blocks
    rw [hlive] at hb
    simp [ElfSegment.block] at hb

/-- The usable bytes are conventional memory in the firmware's last map. -/
theorem KernelEntry.usable_conventional
    (h : KernelEntry file st plan stack smap out rsp rdi rip mem g) {e : MemmapEntry} (he : e ∈ out)
    (husable : e.type = sypasMemUsable) {a : ℕ} (ha : e.Has a) :
    ∃ key ds d, g.map = some (key, ds) ∧ d ∈ ds ∧ d.type = efiConventionalMemory ∧ d.Holds a := by
  obtain ⟨key, ds, hlast, -, hmap⟩ := h.map
  obtain ⟨d, hd, hin⟩ := (hmap.covers a).1 ⟨e, he, ha⟩
  have hnot : ¬InSegment plan.segs a := by
    rw [← hmap.kernel_iff e he a ha, husable]
    decide
  have hsource := hmap.source e he a ha hnot d hd hin
  exact ⟨key, ds, d, hlast, hd, (efiToSypasMemtype_eq_usable_iff _).1 (hsource ▸ husable), hin⟩

/-- The usable entries share no byte with a live block. -/
theorem KernelEntry.usable_apart
    (h : KernelEntry file st plan stack smap out rsp rdi rip mem g) {e : MemmapEntry} (he : e ∈ out)
    (husable : e.type = sypasMemUsable) {a : ℕ} (ha : e.Has a) : ¬Owned g.live a := by
  intro howned
  obtain ⟨key, ds, -, hdescribes, hmap⟩ := h.map
  obtain ⟨d, hd, htype, hin⟩ := h.owned_loaderData hdescribes howned
  have hnot : ¬InSegment plan.segs a := by
    rw [← hmap.kernel_iff e he a ha, husable]
    decide
  have hsource := hmap.source e he a ha hnot d hd hin
  rw [husable, htype] at hsource
  revert hsource
  decide

end Entry

/-! ## The allocator after the jump -/

/-- The allocator, booted to `st₀` on the memory of the jump and now in the state `c`, leaves
    alone what the loader has allocated. -/
structure KeepsLoaderBlocks (g : Ledger) (mem : ℕ → UInt8) (st₀ : Pmm) (c : Client) : Prop where
  booted : ∀ a, Owned g.live a → st₀.ram.mem a = mem a
  bitmap : ∀ a ∈ c.pmm.storage, ¬Owned g.live a
  accesses : ∀ x ∈ c.pmm.ram.log, x.Inside {a | ¬Owned g.live a}
  held : ∀ addr ∈ c.held, ∀ k < 4096, ¬Owned g.live (addr.toNat + k) ∧
    ∃ key ds d, g.map = some (key, ds) ∧ d ∈ ds ∧ d.type = efiConventionalMemory ∧
      d.Holds (addr.toNat + k)

section Allocator

variable {file : List UInt8} {st : UInt64} {plan : ElfLoadPlan} {stack smap : UInt64}
  {out : List MemmapEntry} {rsp rdi rip : UInt64} {mem : ℕ → UInt8} {g : Ledger} {st₀ : Pmm}

/-- The bitmap lies in a usable entry. -/
theorem KernelEntry.bitmap_apart (h : KernelEntry file st plan stack smap out rsp rdi rip mem g)
    (hinit : pmmInit out (.zeroed ⟨mem, []⟩) = .ok st₀) : ∀ a ∈ st₀.storage, ¬Owned g.live a := by
  obtain ⟨_, _, -, -, hownership⟩ := h.map
  obtain ⟨-, -, -, -, hstate, -⟩ := pmmInit_ok hownership.loaderForm hinit
  rw [hstate.storage_eq]
  rintro a ⟨hlo, hhi⟩
  obtain ⟨e, he, husable, hbase, -, hstop⟩ := hstate.bitmap_inside
  refine h.usable_apart he husable ⟨by omega, ?_⟩
  unfold MemmapEntry.stop at hstop
  omega

/-- `pmm_init` writes no byte of a live block. -/
theorem KernelEntry.pmmInit_frame (h : KernelEntry file st plan stack smap out rsp rdi rip mem g)
    (hinit : pmmInit out (.zeroed ⟨mem, []⟩) = .ok st₀) {a : ℕ} (ha : Owned g.live a) :
    st₀.ram.mem a = mem a := by
  obtain ⟨_, _, -, -, hownership⟩ := h.map
  obtain ⟨-, -, -, -, -, -, hwithin⟩ := pmmInit_ok hownership.loaderForm hinit
  exact hwithin.2 a fun hin => h.bitmap_apart hinit a hin ha

/-- The array lies in a live block: `pmm_init` reads the same map in all of its passes. -/
theorem KernelEntry.pmmInit_map (h : KernelEntry file st plan stack smap out rsp rdi rip mem g)
    (hinit : pmmInit out (.zeroed ⟨mem, []⟩) = .ok st₀) :
    (∀ a ∈ st₀.storage, a < smap.toNat ∨ smap.toNat + 24 * out.length ≤ a) ∧
      entriesAt st₀.ram.mem smap.toNat out.length = out := by
  obtain ⟨efimap, pages, hlive, hlow, hhigh⟩ := h.blocks
  have howned : ∀ a, smap.toNat ≤ a → a < smap.toNat + 24 * out.length → Owned g.live a := by
    rw [hlive]
    exact fun a hlo hhi => ⟨_, List.mem_cons_self, hlow.trans hlo, hhi.trans_le hhigh⟩
  refine ⟨fun a ha => ?_, ?_⟩
  · by_contra hin
    exact h.bitmap_apart hinit a ha (howned a (by omega) (by omega))
  · rw [entriesAt_congr fun a hlo hhi => h.pmmInit_frame hinit (howned a hlo hhi), h.array]

theorem KernelEntry.keepsLoaderBlocks
    (h : KernelEntry file st plan stack smap out rsp rdi rip mem g)
    (hinit : pmmInit out (.zeroed ⟨mem, []⟩) = .ok st₀) (htop : ¬BitmapAtTop out) {c : Client}
    (hclient : Relation.ReflTransGen Client.Step ⟨st₀, ∅⟩ c) : KeepsLoaderBlocks g mem st₀ c := by
  obtain ⟨_, _, -, -, hownership⟩ := h.map
  have hmap := hownership.loaderForm
  obtain ⟨-, -, -, -, hstate, -, hwithin⟩ := pmmInit_ok hmap hinit
  have hcursor := (pmmInit_cursor hmap hinit).2.2 htop
  have hready := hstate.ready hcursor
  have hinv := Client.Inv.run hready hclient
  refine ⟨fun a => h.pmmInit_frame hinit, ?_, ?_, ?_⟩
  · rw [hinv.storage_eq]
    exact h.bitmap_apart hinit
  · intro x hx
    obtain hbefore | hin := (hstate.bounds hmap hcursor hwithin hclient).accesses x hx
    · exact absurd hbefore List.not_mem_nil
    · rw [← hstate.storage_eq] at hin
      exact fun a hlo hhi => h.bitmap_apart hinit a (hin a hlo hhi)
  · intro addr haddr k hk
    obtain ⟨p, hp, hpage⟩ := hinv.held addr haddr
    rw [hstate.clear, mem_initialFree] at hp
    obtain ⟨e, he, husable, hall⟩ := usable_page_inside hmap hp.1
    have hin := hall k hk
    rw [← hpage] at hin
    exact ⟨h.usable_apart he husable hin, h.usable_conventional he husable hin⟩

end Allocator

/-- From the firmware's first answer to the kernel's last allocation: in every run of the loader
    that ends in the jump, and in every run of the page allocator that boots on the map that
    the kernel is given, what the loader has put in memory for the kernel stays, and the
    pages handed out are conventional memory of the firmware's last map. -/
theorem boot_keeps_blocks {file : List UInt8} {version : String} {img st : UInt64}
    {mem after : ℕ → UInt8} {trace : List (Event (ℕ → UInt8) FirmwareCall FirmwareCall.Answer)}
    {g : Ledger} {rsp rdi rip : UInt64}
    (hrun : Run (services file) (.start mem) (efiMain version img st mem) trace g
      (.done (.error (.jumped rsp rdi rip)) after)) {st₀ : Pmm}
    (hinit : pmmInit (bootMemmap after rdi) (.zeroed ⟨after, []⟩) = .ok st₀)
    (htop : ¬BitmapAtTop (bootMemmap after rdi)) {c : Client}
    (hclient : Relation.ReflTransGen Client.Step ⟨st₀, ∅⟩ c) :
    EntersKernel file st rsp rdi rip after g ∧ KeepsLoaderBlocks g after st₀ c := by
  have hentry : EntersKernel file st rsp rdi rip after g := hrun.result efiMain_wp
  obtain ⟨plan, stack, smap, out, h⟩ := hentry
  rw [h.bootMemmap_eq] at hinit htop
  exact ⟨⟨plan, stack, smap, out, h⟩, h.keepsLoaderBlocks hinit htop hclient⟩

/-! ## A run

A firmware that grants every request and reports a map of two descriptors, and a kernel file
of two segments. -/

/-- A kernel file with a segment of code at 4 MiB and a cleared page at 4 MiB + 8 KiB. -/
def bootFile : List UInt8 := bytesAt (elfWithTable (codeHeader 176 16) bssHeader).mem 0 192

def bootBuffer : UInt64 := 0x1000

/-- What the loader makes of the file. -/
def bootPlan : ElfLoadPlan :=
  ⟨0x400000, 0x400000, 0x403000, [codeSegment 176 16, bssSegment], by decide⟩

/-- LOADER data up to 5 MiB, conventional memory from there to 8 MiB. -/
def bootMapBytes : List UInt8 :=
  bytesAt (Ram.image [(0, 4, 2), (24, 8, 0x500), (40, 4, 7), (48, 8, 0x500000), (64, 8, 0x300)])
    0 80

def bootMap : List MemmapEntry :=
  [⟨0, 0x400000, sypasMemLoader, 0⟩, ⟨0x400000, 0x1000, sypasMemKernel, 0⟩,
    ⟨0x401000, 0x1000, sypasMemLoader, 0⟩, ⟨0x402000, 0x1000, sypasMemKernel, 0⟩,
    ⟨0x403000, 0xFD000, sypasMemLoader, 0⟩, ⟨0x500000, 0x300000, sypasMemUsable, 0⟩]

theorem length_bootFile : bootFile.length = 192 := length_bytesAt _ _ _

theorem length_bootMapBytes : bootMapBytes.length = 80 := length_bytesAt _ _ _

theorem elfPlanLoad_bootFile : (elfPlanLoad bootBuffer.toNat 192 .empty
    ⟨patch (fun _ => 0) bootBuffer.toNat bootFile, []⟩).1 = (.ok, bootPlan) := by
  decide +kernel

def bootDescriptors : List EfiMemoryDescriptor :=
  [⟨2, 0, 0x500⟩, ⟨7, 0x500000, 0x300⟩]

/-- The descriptors of the map, whatever else is in memory. -/
theorem inputDescriptors_bootMapBytes (mem : ℕ → UInt8) :
    inputDescriptors (patch mem 0x20000 bootMapBytes) 0x20000 80 40 = bootDescriptors := by
  have hcongr : recordsAt (patch mem 0x20000 bootMapBytes) 0x20000 40 2 =
      recordsAt (patch (fun _ => 0) 0x20000 bootMapBytes) 0x20000 40 2 := by
    refine recordsAt_congr fun a hlo hhi => ?_
    unfold patch
    rw [length_bootMapBytes, if_pos (by omega), if_pos (by omega)]
  change descriptorsAt (patch mem 0x20000 bootMapBytes) 0x20000 40 2 = _
  rw [descriptorsAt_eq_map _ _ _ le_rfl, hcongr]
  decide +kernel

theorem bootDescriptors_describe {g : Ledger}
    (h : ∀ b ∈ g.live, b.start + b.bytes ≤ 0x500000) : g.Describes bootDescriptors := by
  intro memory count hlive a ha
  have hstop := h _ hlive
  have hlt := ha.2
  exact ⟨⟨2, 0, 0x500⟩, List.mem_cons_self, rfl, Nat.zero_le a,
    (hlt.trans_le hstop : a < 0x500000)⟩

theorem bootPlan_translated : translateSorted (bootPlan.segs.length + 1) 0x20000 40 bootPlan 1138 0
    (sortByStart bootDescriptors) = some ⟨.ok, bootMap, 6, ⟨0, 0, 0, 0⟩⟩ := by
  decide +kernel

/-! ## The run -/

def bootBlocks : List Block :=
  [.pages 0x10000 16, .pages 0x8000 1, .pages 0x402000 1, .pages 0x400000 1]

/-- What the run brings about. -/
def BootsKernel (e : LoaderEnd) (mem : ℕ → UInt8) (g : Ledger) : Prop :=
  g.exiting = true ∧ ∃ rsp, e = .jumped rsp 0x8000 0x400000 ∧ bootMemmap mem 0x8000 = bootMap

variable {mem : ℕ → UInt8} {g : Ledger}

/-- The placement of the map and of the stack pages in the boot information. -/
theorem bootMemmap_publishMap (setup : HandoffSetup) (hsmap : setup.smap = 0x21000)
    (hbi : setup.bootinfo = 0x8000) (diagnostic : MapDiagnostic) :
    bootMemmap (publishMap setup ⟨.ok, bootMap, 6, diagnostic⟩ ⟨mem, []⟩).2.mem 0x8000 =
      bootMap := by
  have hentries := entriesAt_storeEntries 0x21000 bootMap ⟨mem, []⟩
  unfold publishMap bootMemmap
  simp only [Prog.bind_run, Layout.assign_mem, hsmap, hbi]
  rw [Layout.get_set, Layout.get_set, Layout.get_set, if_pos rfl, if_neg (by decide), if_pos rfl]
  have hbase : (0x21000 : UInt64).toNat % 256 ^ sypasBootinfo.width .memmap = 0x21000 := rfl
  have hcount : (6 : UInt64).toNat % 256 ^ sypasBootinfo.width .memmapCount = 6 := rfl
  rw [hbase, hcount]
  refine (entriesAt_congr fun a hlo hhi => ?_).trans hentries
  have hrecord : 0x8000 + 360 ≤ a := by omega
  exact (sypasBootinfo.set_outside _ _ (Or.inr hrecord)).trans
    (sypasBootinfo.set_outside _ _ (Or.inr hrecord))

def bootSetup : HandoffSetup where
  efimap := 0x20000
  mapBytes := 4096
  sypasCap := 1138
  kernelPlan := bootPlan
  entry := 0x400000
  bootinfo := 0x8000
  stackBase := 0x10000
  stackSize := 0x10000

theorem bootSetup_translate (mem : ℕ → UInt8) :
    (bootSetup.translate (UInt64.ofNat bootMapBytes.length) 40
      ⟨patch mem bootSetup.efimap.toNat bootMapBytes, []⟩).1 =
        some ⟨.ok, bootMap, 6, ⟨0, 0, 0, 0⟩⟩ := by
  have hargs : MapArgs 0x20000 80 40 := ⟨by decide, by decide, by decide, rfl, rfl⟩
  have hmap : bootSetup.efimap.toNat = 0x20000 := rfl
  have hsize : UInt64.ofNat 80 = 80 := rfl
  unfold HandoffSetup.translate
  rw [length_bootMapBytes, hmap, hsize, sypasTranslateMemoryMap_run _ _ _ _ _ _ _ _ hargs,
    inputDescriptors_bootMapBytes]
  dsimp only [bootSetup]
  exact bootPlan_translated

theorem bootSetup_describes (mem : ℕ → UInt8) {g' : Ledger}
    (hlive : g'.live = .pages 0x20000 8 :: bootBlocks) : g'.Describes (inputDescriptors
      (patch mem bootSetup.efimap.toNat bootMapBytes) bootSetup.efimap.toNat
      (UInt64.ofNat bootMapBytes.length) 40) := by
  have hmap : bootSetup.efimap.toNat = 0x20000 := rfl
  have hsize : UInt64.ofNat 80 = 80 := rfl
  rw [length_bootMapBytes, hmap, hsize, inputDescriptors_bootMapBytes]
  refine bootDescriptors_describe ?_
  rw [hlive]
  decide

theorem bootRound_may (hlive : g.live = .pages 0x20000 8 :: bootBlocks) :
    (handoffRound 0 bootSetup 0).mayReturn (services bootFile)
      (fun gone after g' => gone = true ∧ g'.exiting = true ∧ bootMemmap after 0x8000 = bootMap)
      mem g := by
  refine handoffRound_may bootMapBytes 40 hlive ?_ (fun g' => bootSetup_describes mem)
    (bootSetup_translate mem) rfl fun sorted g' hexit => ⟨rfl, hexit, ?_⟩
  · rw [length_bootMapBytes]
    exact Nat.le_of_ble_eq_true rfl
  · exact bootMemmap_publishMap bootSetup rfl rfl _

theorem bootHandoff_may (hlive : g.live = .pages 0x20000 8 :: bootBlocks) :
    (do
      handoffLoop 0 bootSetup 4 0
      jumpToKernel bootSetup : Loader Empty).mayExit (services bootFile) BootsKernel mem g := by
  refine mayExit_bind (mayReturn_bind (mayReturn_mono ?_ (bootRound_may hlive)))
  rintro gone after g' ⟨rfl, hexit, hmap⟩
  exact mayReturn_pure (mayExit_bind (mayReturn_compute (mayExit_exit ⟨hexit, _, rfl, hmap⟩)))

/-- The loader from its fixed allocations on. -/
theorem bootKernel_may (hlive : g.live = [.pages 0x402000 1, .pages 0x400000 1]) :
    (bootKernel 0 0 bootPlan).mayExit (services bootFile) BootsKernel mem g := by
  refine mayExit_bind (allocatePages_may 0x8000 hlive (by decide) rfl (by decide) nofun
    fun g₁ h₁ => mayExit_bind (dieOnError_may rfl ?_))
  refine mayExit_bind (allocatePages_may 0x10000 h₁ (by decide) rfl (by decide) nofun
    fun g₂ h₂ => mayExit_bind (dieOnError_may rfl ?_))
  refine mayExit_bind (onMemory_may ?_)
  refine mayExit_bind (mayReturn_bind (onMemory_may (mayReturn_bind (mayReturn_ask
    (⟨efiLoadError, 0⟩ : Reply) _ _ ⟨fun _ _ _ => rfl, trivial, rfl⟩ ?_))))
  rw [if_pos (Or.inr rfl)]
  refine mayReturn_pure (mayExit_bind (mayReturn_ask (⟨efiBufferTooSmall, 80, 0, 40⟩ : MapReply) _ _
    ⟨fun _ _ _ => rfl, nofun, rfl⟩ ?_))
  rw [if_neg (by decide)]
  refine mayExit_bind (growMap_may 0x20000 bootMapBytes
    (show mapSizes 80 40 = some ⟨4096, 1138, 8⟩ by decide) h₂ (by decide) rfl (by decide) ?_
    (fun g' => bootSetup_describes _) fun after g₃ h₃ => ?_)
  · rw [length_bootMapBytes]
    exact Nat.le_of_ble_eq_true rfl
  refine mayExit_bind (mayReturn_bind (call_may (0 : UInt64) trivial (fun _ => trivial) h₃
    fun g₄ h₄ => mayReturn_pure ?_))
  exact bootHandoff_may h₄

theorem bootLoad_may {Q : ElfLoadPlan → (ℕ → UInt8) → Ledger → Prop}
    (hmem : mem = patch (fun _ => 0) bootBuffer.toNat bootFile)
    (hlive : g.live = [.pool bootBuffer 192])
    (hnext : ∀ after g', g'.live = [.pages 0x402000 1, .pages 0x400000 1, .pool bootBuffer 192] →
      Q bootPlan after g') :
    (loadKernel bootBuffer 192).mayReturn (services bootFile) Q mem g := by
  have hplan : (elfPlanLoad bootBuffer.toNat 192 .empty ⟨mem, []⟩).1 = (.ok, bootPlan) := by
    rw [hmem, elfPlanLoad_bootFile]
  refine loadKernel_may hplan fun after => ?_
  refine loadAll_may_cons hlive (show _ = 1 from rfl) (by decide) rfl (by decide) fun _ g₁ h₁ => ?_
  refine loadAll_may_cons h₁ (show _ = 1 from rfl) (by decide) rfl (by decide) fun _ g₂ h₂ => ?_
  exact loadAll_may_nil (hnext _ g₂ h₂)

/-- The loader may reach the kernel. -/
theorem efiMain_may : (efiMain "1" 0 0).mayExit (services bootFile) BootsKernel (fun _ => 0)
    (.start fun _ => 0) := by
  refine mayExit_bind (mayReturn_bind (call_may (0 : UInt64) trivial (fun _ => trivial) rfl
    fun g₁ h₁ => mayReturn_pure ?_))
  refine mayExit_bind (call_may (0 : UInt64) trivial (fun _ => trivial) h₁ fun g₂ h₂ => ?_)
  have hsize : (192 : UInt64).toNat = bootFile.length := length_bootFile.symm
  refine mayExit_bind (readKernelFile_may bootBuffer h₂ hsize (by decide) (by decide)
    fun g₃ h₃ => ?_)
  generalize hmem : patch (fun _ => 0) bootBuffer.toNat bootFile = m
  refine mayExit_bind (mayReturn_bind (call_may (0 : UInt64) trivial (fun _ => trivial) h₃
    fun g₄ h₄ => mayReturn_pure ?_))
  refine mayExit_bind (bootLoad_may hmem.symm h₄ fun after g₅ h₅ => ?_)
  refine mayExit_bind (mayReturn_ask (0 : UInt64) _ _ ⟨fun _ _ _ => rfl, trivial, rfl⟩ ?_)
  refine bootKernel_may ?_
  change g₅.live.filter _ = _
  rw [h₅]
  rfl

/-- A run that reaches the kernel. -/
theorem efiMain_run : ∃ trace g e after, Run (services bootFile) (.start fun _ => 0)
    (efiMain "1" 0 0 fun _ => 0) trace g (.done (.error e) after) ∧ BootsKernel e after g := by
  obtain ⟨trace, g, r, after, hrun, hend⟩ := may.run (.nil) efiMain_may
  cases r with
  | ok a => exact hend.elim
  | error e => exact ⟨trace, g, e, after, hrun, hend⟩

/-- In this run the loader comes to its exit from boot services. -/
theorem efiMain_permits_exit : ∃ trace g image key s next,
    Run (services bootFile) (.start fun _ => 0) (efiMain "1" 0 0 fun _ => 0) trace g
      (.call (.exitBootServices image key) s next) ∧
    g.Permits s (.exitBootServices image key) := by
  obtain ⟨trace, g, e, after, hrun, hexit, -⟩ := efiMain_run
  obtain ⟨trace', g₁, c, s, next, a, s', g₂, hrun', ⟨-, -, rfl⟩, hbefore, hafter⟩ :=
    hrun.exists_step (P := fun g => g.exiting = true) (by decide) hexit
  cases c with
  | exitBootServices image key =>
    exact ⟨trace', g₁, image, key, s, next, hrun', efiMain_permits hrun'⟩
  | _ => exact absurd hafter hbefore

theorem bootMap_loaderForm : LoaderForm bootMap where
  base_dvd := by decide
  length_dvd := by decide
  noWrap := by decide
  disjoint := LoaderForm.disjoint_of_stops (by decide)

theorem bootMap_boots (st : Pmm) : ∃ st₀, pmmInit bootMap st = .ok st₀ := by
  obtain ⟨-, hbad⟩ | ⟨st₀, e, hok, -⟩ := pmmInit_spec bootMap bootMap_loaderForm st
  · exact absurd hbad (by decide)
  · exact ⟨st₀, hok⟩

theorem bootMap_not_atTop : ¬BitmapAtTop bootMap := by
  rintro ⟨e, hfit, -, hsmall⟩
  have he := hfit.usable
  have hmem := hfit.mem
  simp only [bootMap, List.mem_cons, List.not_mem_nil, or_false] at hmem
  obtain rfl | rfl | rfl | rfl | rfl | rfl := hmem <;> revert he hsmall <;> decide

/-- The kernel that has been booted allocates one page. -/
theorem boot_keeps_blocks_run : ∃ trace g rsp after st₀,
    Run (services bootFile) (.start fun _ => 0) (efiMain "1" 0 0 fun _ => 0) trace g
      (.done (.error (.jumped rsp 0x8000 0x400000)) after) ∧
    pmmInit (bootMemmap after 0x8000) (.zeroed ⟨after, []⟩) = .ok st₀ ∧
    EntersKernel bootFile 0 rsp 0x8000 0x400000 after g ∧
    KeepsLoaderBlocks g after st₀ (Client.alloc ⟨st₀, ∅⟩) := by
  obtain ⟨trace, g, _, after, hrun, -, rsp, rfl, hmap⟩ := efiMain_run
  obtain ⟨st₀, hinit⟩ := bootMap_boots (.zeroed ⟨after, []⟩)
  rw [← hmap] at hinit
  exact ⟨trace, g, rsp, after, st₀, hrun, hinit, boot_keeps_blocks hrun hinit
    (hmap.symm ▸ bootMap_not_atTop) (.single (.alloc _))⟩

end Sypas
