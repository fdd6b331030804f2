import Sypas.Loader.EfiMainRuns

/-!
# The boot information that the loader fills in (`bootloader/uefi/main.c`)

The assignments of `efi_main` and `fill_framebuffer`, as one record; and the growth loop,
whose rounds give back what they allocate.

## Main definitions

- `Sypas.loaderInfo` — the record

## Main results

- `Sypas.fillBootinfo_spec`, `Sypas.fillFramebuffer_wp` — the record is in memory
- `Sypas.growMap_wp` — one buffer is left, of the size that the arithmetic asks for
-/

namespace Sypas

open Program Ram

/-- What `fill_framebuffer` has found: a mode, with the format of its pixels. -/
def Located.mode (l : Located) : Option (UInt32 × GopMode) :=
  if efiError l.reply.status ∨ l.reply.value = 0 then none
  else if (GopMode.at l.after l.reply.value).pixelFormat =
      pixelBlueGreenRedReserved8BitPerColor then
    some (sypasFbXrgb8888, .at l.after l.reply.value)
  else if (GopMode.at l.after l.reply.value).pixelFormat =
      pixelRedGreenBlueReserved8BitPerColor then
    some (sypasFbXbgr8888, .at l.after l.reply.value)
  else none

/-- The boot information at the jump, field by field. -/
def loaderInfo (plan : ElfLoadPlan) (stackBase st rsdp memmap memmapCount : UInt64)
    (mode : Option (UInt32 × GopMode)) : BootinfoField → ℕ
  | .magic => sypasBootMagic.toNat
  | .versionMajor => sypasBootVersionMajor.toNat
  | .versionMinor => sypasBootVersionMinor.toNat
  | .size => sizeofBootinfo.toNat
  | .memmap => memmap.toNat
  | .memmapCount => memmapCount.toNat
  | .fbBase => mode.elim 0 fun m => m.2.frameBufferBase.toNat
  | .fbWidth => mode.elim 0 fun m => m.2.horizontalResolution.toNat
  | .fbHeight => mode.elim 0 fun m => m.2.verticalResolution.toNat
  | .fbPitch => mode.elim 0 fun m => (m.2.pixelsPerScanLine * 4).toNat
  | .fbFormat => mode.elim sypasFbNone.toNat fun m => m.1.toNat
  | .acpiRsdp => rsdp.toNat
  | .efiSystemTable => st.toNat
  | .kernelPhysBase => plan.physBase.toNat
  | .kernelSize => (plan.physEnd - plan.physBase).toNat
  | .stackBase => stackBase.toNat
  | .stackSize => (16 * efiPageSize).toNat

/-- The record at `bi` is as given. -/
def HasInfo (mem : ℕ → UInt8) (bi : UInt64) (info : BootinfoField → ℕ) : Prop :=
  ∀ f, sypasBootinfo.get mem bi.toNat f = info f

theorem leNat_zero {mem : ℕ → UInt8} {a n : ℕ} (h : ∀ b, a ≤ b → b < a + n → mem b = 0) :
    leNat mem a n = 0 := by
  induction n generalizing a with
  | zero => rfl
  | succ n ih =>
    rw [leNat, h a le_rfl (by omega), ih fun b hlo hhi => h b (by omega) (by omega)]
    rfl

theorem clear_outside {bi a : ℕ} (s : Ram) (h : a < bi ∨ bi + 360 ≤ a) :
    (fillUp bi 0 sizeofBootinfo.toNat s).2.mem a = s.mem a := by
  rw [fillUp_mem]
  exact if_neg fun hin => absurd hin.2 (by change ¬a < bi + 360; omega)

/-- A cleared record has all its fields zero. -/
theorem get_cleared {bi : ℕ} (s : Ram) (f : BootinfoField) :
    sypasBootinfo.get (fillUp bi 0 sizeofBootinfo.toNat s).2.mem bi f = 0 := by
  have hin := sypasBootinfo.inside f
  change _ ≤ 360 at hin
  rw [fillUp_mem]
  exact leNat_zero fun b hlo hhi => if_pos ⟨by omega, by change b < bi + 360; omega⟩

/-- The record before `fill_framebuffer`. The root pointer is searched for when the other
    fields are in place. -/
theorem fillBootinfo_spec (bi stackBase st : UInt64) (plan : ElfLoadPlan) (mem : ℕ → UInt8) :
    (∀ a, a < bi.toNat ∨ bi.toNat + 360 ≤ a →
      (fillBootinfo bi stackBase st plan ⟨mem, []⟩).2.mem a = mem a) ∧
    ∃ mid : ℕ → UInt8, (∀ a, a < bi.toNat ∨ bi.toNat + 360 ≤ a → mid a = mem a) ∧
      HasInfo (fillBootinfo bi stackBase st plan ⟨mem, []⟩).2.mem bi (loaderInfo plan stackBase st
        (findAcpiRsdp mid (configurationTable mid st)) 0 0 none) := by
  have hcleared : ∀ f, sypasBootinfo.get (fillUp bi.toNat 0 sizeofBootinfo.toNat
      ⟨mem, []⟩).2.mem bi.toNat f = 0 := get_cleared ⟨mem, []⟩
  have houtside : ∀ a, _ → (fillUp bi.toNat 0 sizeofBootinfo.toNat ⟨mem, []⟩).2.mem a = mem a :=
    fun a => clear_outside ⟨mem, []⟩
  unfold fillBootinfo
  simp only [Prog.bind_run, Prog.get_run]
  generalize (fillUp bi.toNat 0 sizeofBootinfo.toNat ⟨mem, []⟩).2 = s at hcleared houtside ⊢
  have hassigned := fun f =>
    sypasBootinfo.get_assignAll bi.toNat (firstFields stackBase st plan) f s
  have hkept : ∀ a, _ →
      (sypasBootinfo.assignAll bi.toNat (firstFields stackBase st plan) s).2.mem a =
    s.mem a := fun a => sypasBootinfo.assignAll_outside s
  generalize (sypasBootinfo.assignAll bi.toNat (firstFields stackBase st plan) s).2 = t
    at hassigned hkept ⊢
  have hmid : ∀ a, a < bi.toNat ∨ bi.toNat + 360 ≤ a → t.mem a = mem a := fun a ha =>
    (hkept a ha).trans (houtside a ha)
  refine ⟨fun a ha => ?_, t.mem, hmid, fun f => ?_⟩
  · rw [Layout.assign_mem, Layout.set_outside _ _ _ ha, hmid a ha]
  · rw [Layout.assign_mem, Layout.get_set, hassigned, hcleared]
    cases f <;> simp [loaderInfo, firstFields, sypasBootinfo, BootinfoField.place, sypasFbNone]

section Parts

variable {file : List UInt8} {planned : ElfLoadPlan → Prop}
  {jumped : UInt64 → UInt64 → UInt64 → (ℕ → UInt8) → Ledger → Prop}
  {mem : ℕ → UInt8} {g : Ledger} {live : List Block} {bi : UInt64}

/-- The same bytes in the blocks, but for the record at `bi`. -/
def KeepsBut (bi : UInt64) (live : List Block) (mem after : ℕ → UInt8) : Prop :=
  ∀ a, Owned live a → a < bi.toNat ∨ bi.toNat + 360 ≤ a → after a = mem a

theorem Keeps.but {mem' : ℕ → UInt8} (h : Keeps live mem mem') : KeepsBut bi live mem mem' :=
  fun a ha _ => h a ha

theorem KeepsBut.trans {mem' mem'' : ℕ → UInt8} (h : KeepsBut bi live mem mem')
    (h' : KeepsBut bi live mem' mem'') : KeepsBut bi live mem mem'' :=
  fun a ha hout => (h' a ha hout).trans (h a ha hout)

/-- The page of the boot information contains the record. -/
theorem record_owned (hbi : .pages bi 1 ∈ live) {a : ℕ} (hlo : bi.toNat ≤ a)
    (hhi : a < bi.toNat + 360) : Owned live a :=
  ⟨_, hbi, hlo, by change a < bi.toNat + 4096; omega⟩

/-- Assignments to the record change the loader's own page only. -/
theorem Stage.assign (h : Stage live mem g) (hbi : .pages bi 1 ∈ live) {after : ℕ → UInt8}
    (hout : ∀ a, a < bi.toNat ∨ bi.toNat + 360 ≤ a → after a = mem a) : Stage live after g := by
  refine h.write fun a ha => hout a ?_
  by_contra hin
  exact ha (record_owned hbi (by omega) (by omega))

theorem Keeps.hasInfo {mem' : ℕ → UInt8} (h : Keeps live mem mem') (hbi : .pages bi 1 ∈ live)
    {info : BootinfoField → ℕ} (hinfo : HasInfo mem bi info) : HasInfo mem' bi info := fun f =>
  (sypasBootinfo.get_congr (fun _ hlo hhi => h _ (record_owned hbi hlo hhi)) f).trans (hinfo f)

/-- The record of a mode is stored over one without a framebuffer. -/
theorem modeFields_info {plan : ElfLoadPlan} {stackBase st rsdp : UInt64} (format : UInt32)
    (mode : GopMode) (hinfo : HasInfo mem bi (loaderInfo plan stackBase st rsdp 0 0 none)) :
    HasInfo (sypasBootinfo.assignAll bi.toNat (modeFields format mode) ⟨mem, []⟩).2.mem bi
      (loaderInfo plan stackBase st rsdp 0 0 (some (format, mode))) := by
  intro f
  rw [Layout.get_assignAll, hinfo f]
  cases f <;> simp [loaderInfo, modeFields, sypasBootinfo, BootinfoField.place]

/-- `fill_framebuffer` stores the mode that it finds, if it is one that the kernel can use. -/
theorem fillFramebuffer_wp {plan : ElfLoadPlan} {stackBase st rsdp : UInt64}
    {Q : Unit → (ℕ → UInt8) → Ledger → Prop} (h : Stage live mem g) (hbi : .pages bi 1 ∈ live)
    (hinfo : HasInfo mem bi (loaderInfo plan stackBase st rsdp 0 0 none))
    (hnext : ∀ after g' l, Stage live after g' → g'.located = some l →
      (∀ a, a < bi.toNat ∨ bi.toNat + 360 ≤ a → l.before a = mem a) →
      KeepsBut bi live mem after → HasInfo after bi (loaderInfo plan stackBase st rsdp 0 0 l.mode) →
      Q () after g') :
    (fillFramebuffer bi).wp (services file) (LoaderEnds planned jumped) Q mem g := by
  refine wp_bind (onMemory_wp ?_)
  have hnone : HasInfo (sypasBootinfo.assign bi.toNat .fbFormat sypasFbNone.toNat ⟨mem, []⟩).2.mem
      bi (loaderInfo plan stackBase st rsdp 0 0 none) := by
    intro f
    rw [Layout.assign_mem, Layout.get_set, hinfo f]
    cases f <;> simp [loaderInfo, sypasBootinfo, BootinfoField.place]
  have hout : ∀ a, a < bi.toNat ∨ bi.toNat + 360 ≤ a →
      (sypasBootinfo.assign bi.toNat .fbFormat sypasFbNone.toNat ⟨mem, []⟩).2.mem a = mem a :=
    fun a ha => sypasBootinfo.set_outside _ _ ha
  generalize (sypasBootinfo.assign bi.toNat .fbFormat sypasFbNone.toNat ⟨mem, []⟩).2.mem = m₁
    at hnone hout ⊢
  have h₁ := h.assign hbi hout
  refine wp_bind (service_wp h₁.consistent trivial
    (fun hexit => absurd (h₁.early.symm.trans hexit) (by decide))
    fun (r : Reply) m₂ hkeep _ hcons => ?_)
  have hk₂ : Keeps live m₁ m₂ := fun a ha => hkeep a (h₁.live_eq ▸ ha) id
  have h₂ : Stage live m₂ (g.next m₁ (.locateProtocol gGop) r m₂) := ⟨hcons, h₁.live_eq, h₁.early⟩
  have hinfo₂ := hk₂.hasInfo hbi hnone
  have hbut : KeepsBut bi live mem m₂ := fun a ha houtside =>
    (hk₂ a ha).trans (hout a houtside)
  have hlocated : (g.next m₁ (.locateProtocol gGop) r m₂).located = some ⟨m₁, r, m₂⟩ := rfl
  have hmode : ∀ m, Located.mode ⟨m₁, r, m₂⟩ = m → ∀ after, (∀ a, a < bi.toNat ∨
      bi.toNat + 360 ≤ a → after a = m₂ a) → HasInfo after bi (loaderInfo plan stackBase st rsdp
      0 0 m) → Q () after (g.next m₁ (.locateProtocol gGop) r m₂) := by
    rintro _ rfl after hafter hinfo'
    exact hnext after _ _ (h₂.assign hbi hafter) hlocated hout
      (hbut.trans fun a _ houtside => hafter a houtside) hinfo'
  have hstore : ∀ format, Located.mode ⟨m₁, r, m₂⟩ = some (format, .at m₂ r.value) →
      (onMemory (sypasBootinfo.assignAll bi.toNat (modeFields format (.at m₂ r.value))) :
        Loader Unit).wp (services file) (LoaderEnds planned jumped) Q m₂
        (g.next m₁ (.locateProtocol gGop) r m₂) := fun format hfound =>
    onMemory_wp (hmode _ hfound _ (fun a ha => sypasBootinfo.assignAll_outside _ ha)
      (modeFields_info format _ hinfo₂))
  refine wp_ite (fun hnot => wp_pure (hmode none ?_ m₂ (fun _ _ => rfl) hinfo₂)) fun hfound =>
    wp_bind (peek_wp (wp_ite (fun hbgr => hstore _ ?_) fun hbgr => wp_ite (fun hrgb =>
      hstore _ ?_) fun hrgb => wp_pure (hmode none ?_ m₂ (fun _ _ => rfl) hinfo₂)))
  · rw [Located.mode, if_pos hnot]
  · rw [Located.mode, if_neg hfound, if_pos hbgr]
  · rw [Located.mode, if_neg hfound, if_neg hbgr, if_pos hrgb]
  · rw [Located.mode, if_neg hfound, if_neg hbgr, if_neg hrgb]

/-! ## The growth loop -/

/-- The loop ends with one buffer for the raw map and the array. Each round before the last
    has given its buffer back. -/
theorem growMap_wp {Q : UInt64 × MapSizes → (ℕ → UInt8) → Ledger → Prop} (n : ℕ)
    (mmsize dsz : UInt64) (h : Stage live mem g)
    (hnext : ∀ efimap sizes mmsize' dsz' after g', mapSizes mmsize' dsz' = some sizes →
      Stage (.pages efimap sizes.totalPages :: live) after g' → Keeps live mem after →
      g'.located = g.located → Q (efimap, sizes) after g') :
    (growMap n mmsize dsz).wp (services file) (LoaderEnds planned jumped) Q mem g := by
  induction n generalizing mem g mmsize dsz with
  | zero => exact dieWith_wp h (reported_die _ _)
  | succ n ih =>
    rw [growMap]
    rcases hsizes : mapSizes mmsize dsz with - | sizes
    · exact dieWith_wp h (reported_die _ _)
    dsimp only
    refine allocatePages_wp h fun mm m₁ g₁ hk₁ h₁ hl₁ _ => ?_
    have hmem : Block.pages mm.value sizes.totalPages ∈ g₁.live := by
      rw [h₁.live_eq]
      exact List.mem_cons_self
    obtain ⟨requested, descriptors, -, -, -, -, -, -, hfit⟩ := mapSizes_eq_some hsizes
    refine wp_bind (service_wp h₁.consistent
      (Or.inr ⟨sizes.totalPages, hmem, by omega⟩)
      (fun hexit => absurd (h₁.early.symm.trans hexit) (by decide))
      fun (r : MapReply) m₂ hkeep _ hcons => ?_)
    -- the firmware writes into the new block, which shares no byte with the others
    have hk₂ : Keeps live m₁ m₂ := by
      rintro a ⟨b, hb, ha⟩
      have happ := h₁.consistent.apart
      rw [h₁.live_eq] at happ
      refine hkeep a (h₁.live_eq ▸ ⟨b, List.mem_cons_of_mem _ hb, ha⟩) fun hbuf => ?_
      refine (List.pairwise_cons.1 happ).1 b hb a ⟨hbuf.1, ?_⟩ ha
      have := hbuf.2
      change a < mm.value.toNat + 4096 * sizes.totalPages.toNat
      omega
    have h₂ : Stage (.pages mm.value sizes.totalPages :: live) m₂
        (g₁.next m₁ (.getMemoryMap sizes.mapBytes mm.value) r m₂) :=
      ⟨hcons, h₁.live_eq, h₁.early⟩
    refine wp_ite (fun _ => wp_pure (hnext mm.value sizes mmsize dsz m₂ _ hsizes h₂
      (hk₁.trans hk₂) hl₁)) fun _ => ?_
    refine wp_ite (fun _ => dieWith_wp h₂ (reported_die _ _)) fun _ => ?_
    refine wp_bind (service_wp h₂.consistent hmem
      (fun hexit => absurd (h₂.early.symm.trans hexit) (by decide))
      fun st m₃ hkeep₃ _ hcons₃ => ?_)
    have h₃ : Stage live m₃ (Ledger.next (g₁.next m₁ (.getMemoryMap sizes.mapBytes mm.value) r m₂)
        m₂ (.freePages mm.value sizes.totalPages) st m₃) := by
      refine ⟨hcons₃, ?_, h₂.early⟩
      change g₁.live.erase _ = live
      rw [h₁.live_eq, List.erase_cons_head]
    have hk₃ : Keeps live m₂ m₃ := by
      rintro a ⟨b, hb, ha⟩
      exact hkeep₃ a (h₂.live_eq ▸ ⟨b, List.mem_cons_of_mem _ hb, ha⟩) id
    refine ih _ _ h₃ fun efimap sizes' mmsize' dsz' after g' hsizes' hstage hkeeps hlocated => ?_
    exact hnext efimap sizes' mmsize' dsz' after g' hsizes' hstage
      ((hk₁.trans (hk₂.trans hk₃)).trans hkeeps) (hlocated.trans hl₁)

end Parts

end Sypas
