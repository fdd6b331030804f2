import Sypas.Loader.EfiMainHandoff

/-!
# The loader as a whole (`bootloader/uefi/main.c`)

Every run of `efi_main` against a firmware that keeps the contract: what the loader does
with the firmware's resources on the way, and what the kernel finds when it is entered.

## Main definitions

- `Sypas.KernelEntry` — the machine at the jump

## Main results

- `Sypas.efiMain_permits` — every call of every run is permitted by the ledger
- `Sypas.efiMain_ends` — every end of every run is what it is meant to be
-/

namespace Sypas

open Interaction Program Ram

/-- The ledger when the loader is started. -/
def Ledger.start (mem : ℕ → UInt8) : Ledger where
  live := []
  mem := mem
  map := none
  located := none
  printed := []
  exiting := false

/-- The segments of the plan are in place. -/
def SegmentsPlaced (file : List UInt8) (plan : ElfLoadPlan) (mem : ℕ → UInt8) : Prop :=
  ∃ before buf, PlanOf file plan before buf ∧
    ∀ seg ∈ plan.segs, ∀ a, seg.Has a → mem a = seg.byteAt before buf.toNat a

/-- What the kernel finds: the segments of the file, the boot information, the stack and the
    array of entries, each in blocks of its own. -/
structure KernelEntry (file : List UInt8) (st : UInt64) (plan : ElfLoadPlan)
    (stack smap : UInt64) (out : List MemmapEntry) (rsp rdi rip : UInt64) (mem : ℕ → UInt8)
    (g : Ledger) : Prop where
  consistent : g.Consistent mem
  blocks : ∃ efimap pages, g.live = .pages efimap pages :: .pages stack 16 :: .pages rdi 1 ::
      (plan.segs.map ElfSegment.block).reverse ∧ efimap.toNat ≤ smap.toNat ∧
    smap.toNat + 24 * out.length ≤ efimap.toNat + 4096 * pages.toNat
  image : SegmentsPlaced file plan mem
  entry : rip = plan.entry
  stack_top : rsp.toNat = stack.toNat + 65536
  info : ∃ located mid, g.located = some located ∧
    (∀ a, a < rdi.toNat ∨ rdi.toNat + 360 ≤ a → mid a = located.before a) ∧
    HasInfo mem rdi (loaderInfo plan stack st (findAcpiRsdp mid (configurationTable mid st)) smap
      (UInt64.ofNat out.length) located.mode)
  array : entriesAt mem smap.toNat out.length = out
  map : ∃ key ds, g.map = some (key, ds) ∧ g.Describes ds ∧ IsOwnershipMap plan.segs ds out

/-- The jump enters the kernel of the file. -/
def EntersKernel (file : List UInt8) (st rsp rdi rip : UInt64) (mem : ℕ → UInt8) (g : Ledger) :
    Prop :=
  ∃ plan stack smap out, KernelEntry file st plan stack smap out rsp rdi rip mem g

theorem mapFields_loaderInfo (plan : ElfLoadPlan) (stackBase st rsdp : UInt64)
    (mode : Option (UInt32 × GopMode)) :
    MapFields fun memmap count => loaderInfo plan stackBase st rsdp memmap count mode where
  memmap := fun _ _ => rfl
  memmapCount := fun _ _ => rfl
  others := by
    intro x y x' y' f hmap hcount
    cases f <;> first | rfl | exact absurd rfl hmap | exact absurd rfl hcount

theorem stage_start (mem : ℕ → UInt8) : Stage [] mem (.start mem) where
  consistent := ⟨fun _ _ => rfl, fun _ h => absurd h List.not_mem_nil, List.Pairwise.nil⟩
  live_eq := rfl
  early := rfl

variable {file : List UInt8} {version : String} {img st : UInt64} {mem : ℕ → UInt8}

/-- Without the file buffer, the blocks of the segments are left. -/
theorem filter_blocks (segs : List ElfSegment) (buf fsize : UInt64) :
    (((segs.map ElfSegment.block).reverse ++ [Block.pool buf fsize]).filter fun b =>
      !b.IsPool buf) = (segs.map ElfSegment.block).reverse := by
  rw [List.filter_append, List.filter_eq_self.2]
  · simp [Block.IsPool]
  · intro b hb
    obtain ⟨seg, -, rfl⟩ := List.mem_map.1 (List.mem_reverse.1 hb)
    rfl

theorem PlanOf.owned {plan : ElfLoadPlan} {before : ℕ → UInt8} {buf : UInt64}
    (h : PlanOf file plan before buf) {seg : ElfSegment} (hseg : seg ∈ plan.segs) {a : ℕ}
    (ha : seg.Has a) : Owned (plan.segs.map ElfSegment.block).reverse a := by
  have hpaged := h.format.paged
  rw [← h.lists.segs] at hpaged
  exact ⟨_, List.mem_reverse.2 (List.mem_map_of_mem hseg), ((hpaged seg hseg).block_has a).2 ha⟩

theorem SegmentsPlaced.isPlanOf {plan : ElfLoadPlan} (h : SegmentsPlaced file plan mem) :
    IsPlanOf file plan := by
  obtain ⟨before, buf, hplan, -⟩ := h
  exact ⟨before, buf, hplan⟩

theorem SegmentsPlaced.keep {plan : ElfLoadPlan} (h : SegmentsPlaced file plan mem)
    {after : ℕ → UInt8} (hkeep : Keeps (plan.segs.map ElfSegment.block).reverse mem after) :
    SegmentsPlaced file plan after := by
  obtain ⟨before, buf, hplan, hin⟩ := h
  exact ⟨before, buf, hplan, fun seg hseg a ha =>
    (hkeep a (hplan.owned hseg ha)).trans (hin seg hseg a ha)⟩

theorem bootKernel_wp {plan : ElfLoadPlan} {g : Ledger}
    (h : Stage (plan.segs.map ElfSegment.block).reverse mem g)
    (hplaced : SegmentsPlaced file plan mem) :
    (bootKernel img st plan).wp (services file) (LoaderEnds (IsPlanOf file) (EntersKernel file st))
      (fun _ _ _ => False) mem g := by
  set segs := (plan.segs.map ElfSegment.block).reverse with hsegs
  refine allocatePages_wp h fun bi m₁ g₁ hk₁ h₁ _ _ => ?_
  refine allocatePages_wp h₁ fun stack m₂ g₂ hk₂ h₂ _ _ => ?_
  have hbi : Block.pages bi.value 1 ∈ .pages stack.value 16 :: .pages bi.value 1 :: segs :=
    List.mem_cons_of_mem _ List.mem_cons_self
  have happ := h₂.consistent.apart
  rw [h₂.live_eq] at happ
  have hbiapart := (List.pairwise_cons.1 (List.pairwise_cons.1 happ).2).1
  have hstop : stack.value.toNat + 4096 * 16 < 2 ^ 64 := by
    have hblock := h₂.consistent.placed (.pages stack.value 16) (by rw [h₂.live_eq]; simp)
    exact hblock.stop_le
  -- the record is in a page of its own, so no segment is concerned
  have hbut : ∀ {m m' : ℕ → UInt8}, KeepsBut bi.value
      (.pages stack.value 16 :: .pages bi.value 1 :: segs) m m' → Keeps segs m m' := by
    rintro m m' hk a ⟨b, hb, ha⟩
    refine hk a ⟨b, by simp [hb], ha⟩ ?_
    by_contra hin
    refine hbiapart b hb a ⟨?_, ?_⟩ ha
    · change bi.value.toNat ≤ a
      omega
    · change a < bi.value.toNat + 4096
      omega
  refine wp_bind (onMemory_wp ?_)
  obtain ⟨hout₃, mid, hmid, hinfo₃⟩ := fillBootinfo_spec bi.value stack.value st plan m₂
  generalize (fillBootinfo bi.value stack.value st plan ⟨m₂, []⟩).2.mem = m₃ at hout₃ hinfo₃ ⊢
  refine wp_bind (fillFramebuffer_wp (h₂.assign hbi hout₃) hbi hinfo₃
    fun m₄ g₄ located h₄ hlocated hbefore hk₄ hinfo₄ => ?_)
  refine wp_bind (service_wp h₄.consistent (Or.inl ⟨rfl, rfl⟩)
    (fun hexit => absurd (h₄.early.symm.trans hexit) (by decide))
    fun (q : MapReply) m₅ hkeep₅ _ hcons₅ => ?_)
  have h₅ : Stage (.pages stack.value 16 :: .pages bi.value 1 :: segs) m₅
      (g₄.next m₄ (.getMemoryMap 0 0) q m₅) := ⟨hcons₅, h₄.live_eq, h₄.early⟩
  have hk₅ : Keeps (.pages stack.value 16 :: .pages bi.value 1 :: segs) m₄ m₅ := by
    intro a ha
    refine hkeep₅ a (h₄.live_eq ▸ ha) fun hbuf => ?_
    exact absurd hbuf.2 (by rw [UInt64.toNat_zero]; omega)
  have hl₅ : (g₄.next m₄ (.getMemoryMap 0 0) q m₅).located = some located := hlocated
  refine wp_ite (fun _ => dieWith_wp h₅ (reported_die _ _)) fun _ => ?_
  refine wp_bind (growMap_wp 4 _ _ h₅ fun efimap sizes mmsize dsz m₆ g₆ hsizes h₆ hk₆ hl₆ => ?_)
  refine wp_bind (print_wp h₆ fun m₇ g₇ hk₇ h₇ hl₇ => ?_)
  obtain ⟨-, -, -, -, -, -, -, -, hfits⟩ := mapSizes_eq_some hsizes
  have hinfo₇ := (hk₅.trans (hk₆.trans hk₇.of_cons)).hasInfo hbi hinfo₄
  refine wp_bind (handoffLoop_wp hplaced.isPlanOf (mapFields_loaderInfo ..)
    ⟨h₇.consistent, ⟨h₇.live_eq, hfits, hbi⟩, ?_⟩ (by decide) hinfo₇
    fun m₈ g₈ hover hl₈ hk₈ => ?_)
  · rw [h₇.early]
    decide
  obtain ⟨key, ds, out, hmap, hdescribes, hownership, hroom, hentries, hinfo₈⟩ := hover.map
  have hsmap := hover.blocks.toNat_smap hover.consistent.placed
  refine wp_bind (peek_wp (wp_exit ⟨plan, stack.value, efimap + sizes.mapBytes, out, ?_⟩))
  change (efimap + sizes.mapBytes).toNat = efimap.toNat + sizes.mapBytes.toNat at hsmap
  change out.length ≤ sizes.sypasCap.toNat at hroom
  have hkept : Keeps segs mem m₈ := by
    refine hk₁.trans (hk₂.of_cons.trans ((hbut fun a _ hout => hout₃ a hout).trans ((hbut hk₄).trans
      ((hbut hk₅.but).trans ((hbut hk₆.but).trans ((hbut hk₇.of_cons.but).trans (hbut hk₈)))))))
  exact
    { consistent := hover.consistent
      blocks := ⟨efimap, sizes.totalPages, hover.blocks.live_eq, by omega, by omega⟩
      image := hplaced.keep hkept
      entry := rfl
      stack_top := by
        rw [hinfo₈ .stackSize, Word.toNat_add_of_lt]
        · rfl
        · change stack.value.toNat + 65536 < 2 ^ 64
          omega
      info := ⟨located, mid, hl₈.trans (hl₇.trans (hl₆.trans hl₅)), fun a ha =>
        (hmid a ha).trans ((hout₃ a ha).symm.trans (hbefore a ha).symm), hinfo₈⟩
      array := hentries
      map := ⟨key, ds, hmap, hdescribes, hownership⟩ }

theorem efiMain_wp : (efiMain version img st).wp (services file)
    (LoaderEnds (IsPlanOf file) (EntersKernel file st)) (fun _ _ _ => False) mem (.start mem) := by
  refine wp_bind (print_wp (stage_start mem) fun m₁ g₁ _ h₁ _ => ?_)
  refine wp_bind (call_wp trivial h₁ fun _ m₂ g₂ _ _ h₂ _ => ?_)
  refine wp_bind (readKernelFile_wp h₂ fun buf fsize m₃ g₃ h₃ hsize hpos hfile => ?_)
  refine wp_bind (print_wp h₃ fun m₄ g₄ hk₄ h₄ _ => ?_)
  have hfile₄ : bytesAt m₄ buf.toNat fsize.toNat = file :=
    (hk₄.bytesAt (List.mem_singleton_self _) le_rfl le_rfl).trans hfile
  refine wp_bind (loadKernel_wp h₄ (List.mem_singleton_self _) hsize hpos hfile₄
    fun plan m₅ g₅ hplan h₅ _ hseg => ?_)
  have hpool : Block.pool buf fsize ∈ g₅.live := by
    rw [h₅.live_eq]
    exact List.mem_append_right _ (List.mem_singleton_self _)
  refine wp_bind (service_wp h₅.consistent ⟨fsize, hpool⟩
    (fun hexit => absurd (h₅.early.symm.trans hexit) (by decide)) fun r m₆ hkeep₆ _ hcons₆ => ?_)
  have h₆ : Stage (plan.segs.map ElfSegment.block).reverse m₆
      (g₅.next m₅ (.freePool buf) r m₆) := by
    refine ⟨hcons₆, ?_, h₅.early⟩
    change (g₅.live.filter fun b => !b.IsPool buf) = _
    rw [h₅.live_eq, filter_blocks]
  refine bootKernel_wp h₆ (SegmentsPlaced.keep ⟨m₄, buf, hplan, hseg⟩ ?_)
  rintro a ⟨b, hb, ha⟩
  refine hkeep₆ a ⟨b, ?_, ha⟩ id
  rw [h₅.live_eq]
  exact List.mem_append_left _ hb

/-! ## Runs -/

variable {trace : List (Event (ℕ → UInt8) FirmwareCall FirmwareCall.Answer)} {g : Ledger}

/-- In every run, every call is permitted by the ledger: the loader has changed no byte but
    those of its own allocations, gives back only what it holds and once, passes buffers that
    lie in live blocks, ends boot services on the last map, and calls nothing else after
    that. -/
theorem efiMain_permits {c : FirmwareCall} {s : ℕ → UInt8}
    {next : c.Answer → (ℕ → UInt8) → Interaction (ℕ → UInt8) FirmwareCall FirmwareCall.Answer
      (Except LoaderEnd Empty)}
    (hrun : Run (services file) (.start mem) (efiMain version img st mem) trace g
      (.call c s next)) : g.Permits s c :=
  hrun.guarantee efiMain_wp

/-- Every run that ends stalls after a report while boot services are there, halts silently
    after an exit was tried, is left in the translator by a map on which that does not come
    back for the plan of the kernel file, or enters the kernel. -/
theorem efiMain_ends {r : Except LoaderEnd Empty} {s : ℕ → UInt8}
    (hrun : Run (services file) (.start mem) (efiMain version img st mem) trace g (.done r s)) :
    ∃ e, r = .error e ∧ LoaderEnds (IsPlanOf file) (EntersKernel file st) e s g := by
  have hend := hrun.result efiMain_wp
  cases r with
  | error e => exact ⟨e, rfl, hend⟩
  | ok a => exact hend.elim

/-- A call that the firmware answers without touching memory. -/
theorem run_unchanged {α : Type} {g₀ g : Ledger} {c : FirmwareCall} {s : ℕ → UInt8}
    {x : Interaction (ℕ → UInt8) FirmwareCall FirmwareCall.Answer α}
    {next : c.Answer → (ℕ → UInt8) → Interaction (ℕ → UInt8) FirmwareCall FirmwareCall.Answer α}
    (hrun : Run (services file) g₀ x trace g (.call c s next)) (r : c.Answer)
    (hanswer : g.Answers file s c r) :
    Run (services file) g₀ x (trace ++ [⟨c, s, r, s⟩]) (g.next s c r s) (next r s) :=
  hrun.step ⟨fun _ _ _ => rfl, hanswer, rfl⟩

/-- The boot volume cannot be reached: the loader reports it and stalls. -/
theorem efiMain_ends_missing : ∃ trace g, Run (services []) (.start fun _ => 0)
    (efiMain "1" 0 0 fun _ => 0) trace g (.done (.error .stalled) fun _ => 0) ∧
    g.exiting = false ∧ Reported g.printed := by
  have hstart : Run (services []) (.start fun _ => 0) (efiMain "1" 0 0 fun _ => 0) [] _ _ := .nil
  have hbanner := run_unchanged hstart (0 : UInt64) trivial
  have hwatchdog := run_unchanged hbanner (0 : UInt64) trivial
  have himage := run_unchanged hwatchdog (⟨efiLoadError, 0⟩ : Reply) trivial
  -- the five texts of the report
  have hreport := run_unchanged (run_unchanged (run_unchanged (run_unchanged (run_unchanged himage
    (0 : UInt64) trivial) (0 : UInt64) trivial) (0 : UInt64) trivial) (0 : UInt64) trivial)
    (0 : UInt64) trivial
  refine ⟨_, _, hreport, ?_⟩
  obtain ⟨e, he, hend⟩ := efiMain_ends hreport
  cases he
  exact hend

end Sypas
