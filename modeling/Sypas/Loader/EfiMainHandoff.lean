import Sypas.Loader.EfiMainInfo

/-!
# The last loop of the loader (`bootloader/uefi/main.c`)

A round of the loop gives up, goes on, or leaves boot services with the array of entries
and the boot information in memory.

## Main definitions

- `Sypas.HandedOver` — what holds when boot services are gone

## Main results

- `Sypas.handoffLoop_wp` — the loop leaves only in such a state
-/

namespace Sypas

open Program Ram

/-! ## What the translator changes -/

theorem translateLoop_mem {fuel : ℕ} {segs : List ElfSegment} {cap : UInt64} {map stride n i : ℕ}
    {st : SplitState} {s : Ram} :
    (translateLoop fuel segs cap map stride n i st s).2.mem = s.mem := by
  induction n generalizing i st s with
  | zero => rfl
  | succ n ih =>
    rw [translateLoop, Prog.bind_run]
    rcases translateDescriptor fuel segs cap (map + i * stride) i
      (readWith EfiMemoryDescriptor.at (map + i * stride) 40 s).1 st with - | (e | st')
    · rfl
    · rfl
    · exact ih

/-- The translator sorts the raw map in place and changes nothing else. -/
theorem sypasTranslateMemoryMap_outside {fuel efiMap : ℕ} {mapSize stride : UInt64}
    {kernel : ElfLoadPlan} {cap outCount : UInt64} {s : Ram} {a : ℕ}
    (ha : a < efiMap ∨ efiMap + mapSize.toNat ≤ a) :
    (sypasTranslateMemoryMap fuel efiMap mapSize stride kernel cap outCount s).2.mem a =
      s.mem a := by
  unfold sypasTranslateMemoryMap
  dsimp only
  by_cases hargs : MapArgs efiMap mapSize stride
  swap
  · rw [if_pos ((mapArgs_guard_iff _ _ _).2 hargs)]
    rfl
  rw [if_neg (fun h => (mapArgs_guard_iff _ _ _).1 h hargs)]
  have hcount : (mapSize / stride).toNat * stride.toNat ≤ mapSize.toNat := by
    rw [UInt64.toNat_div]
    exact Nat.div_mul_le_self _ _
  have hsorted := (sortDescriptors_records efiMap (mapSize / stride).toNat stride.toNat
    (by have := hargs.size_ge; omega) s).2 a (by omega)
  rw [Prog.bind_run]
  generalize (sortDescriptors efiMap (mapSize / stride).toNat stride.toNat s).2 = t at hsorted ⊢
  rcases expectedKernelBytes kernel.segs 0 with status | expected
  · exact hsorted
  dsimp only
  rw [Prog.bind_run]
  have hloop : (translateLoop fuel kernel.segs cap efiMap stride.toNat (mapSize / stride).toNat 0
      ⟨0, [], 0⟩ t).2.mem = t.mem := translateLoop_mem
  generalize translateLoop fuel kernel.segs cap efiMap stride.toNat (mapSize / stride).toNat 0
    ⟨0, [], 0⟩ t = r at hloop ⊢
  have hend := (congrFun hloop a).trans hsorted
  obtain ⟨- | (e | st), u⟩ := r
  · exact hend
  · exact hend
  · dsimp only
    rw [Prog.ite_run]
    split
    · exact hend
    · exact hend

/-! ## One round -/

section Round

variable {file : List UInt8} {planned : ElfLoadPlan → Prop}
  {jumped : UInt64 → UInt64 → UInt64 → (ℕ → UInt8) → Ledger → Prop}
  {mem : ℕ → UInt8} {g : Ledger} {rest : List Block} {setup : HandoffSetup} {pages img : UInt64}

/-- The live blocks of the loop: the buffer of the map, latest, and the others, of which one
    holds the boot information. -/
structure HandoffBlocks (setup : HandoffSetup) (pages : UInt64) (rest live : List Block) :
    Prop where
  live_eq : live = .pages setup.efimap pages :: rest
  fits : setup.mapBytes.toNat + 24 * setup.sypasCap.toNat ≤ 4096 * pages.toNat
  bootinfo : .pages setup.bootinfo 1 ∈ rest

/-- Where `n` exits from boot services have been tried. -/
structure Attempted (setup : HandoffSetup) (pages : UInt64) (rest : List Block) (attempt : ℕ)
    (mem : ℕ → UInt8) (g : Ledger) : Prop where
  consistent : g.Consistent mem
  blocks : HandoffBlocks setup pages rest g.live
  exiting : g.exiting = true ↔ attempt ≠ 0

/-- The kernel's view of the map: an array behind the raw map that is the ownership map of the
    firmware's last answer, in which every live page is LOADER data. -/
structure HandedOver (setup : HandoffSetup) (pages : UInt64) (rest : List Block)
    (info : UInt64 → UInt64 → BootinfoField → ℕ) (mem : ℕ → UInt8) (g : Ledger) : Prop where
  consistent : g.Consistent mem
  blocks : HandoffBlocks setup pages rest g.live
  map : ∃ key ds out, g.map = some (key, ds) ∧ g.Describes ds ∧
    IsOwnershipMap setup.kernelPlan.segs ds out ∧ out.length ≤ setup.sypasCap.toNat ∧
    entriesAt mem setup.smap.toNat out.length = out ∧
    HasInfo mem setup.bootinfo (info setup.smap (UInt64.ofNat out.length))

/-- A report while none has been tried, silence afterwards. -/
theorem giveUp_wp {α : Type} {attempt : ℕ} {texts : List String}
    {Q : α → (ℕ → UInt8) → Ledger → Prop} (h : Attempted setup pages rest attempt mem g)
    (hreport : Reported texts) :
    (giveUp attempt texts : Loader α).wp (services file) (LoaderEnds planned jumped) Q mem g := by
  refine wp_ite (fun hzero => dieWith_wp ⟨h.consistent, rfl, ?_⟩ hreport) fun hlater =>
    wp_exit (h.exiting.2 hlater)
  rw [← Bool.not_eq_true, h.exiting]
  exact not_not.2 hzero

theorem reported_rejectedTexts (status : MapStatus) (diagnostic : MapDiagnostic) :
    Reported (rejectedTexts status diagnostic) :=
  (reported_dieAscii _ _ _).append _

theorem HandoffBlocks.toNat_smap {live : List Block} (h : HandoffBlocks setup pages rest live)
    (hplaced : ∀ b ∈ live, b.Placed) :
    setup.smap.toNat = setup.efimap.toNat + setup.mapBytes.toNat := by
  have hblock := hplaced (.pages setup.efimap pages) (h.live_eq ▸ List.mem_cons_self)
  have hstop : setup.efimap.toNat + 4096 * pages.toNat < 2 ^ 64 := hblock.stop_le
  have hfits := h.fits
  exact Word.toNat_add_of_lt (by omega)

/-- A record whose fields for the map are given, and the others fixed. -/
structure MapFields (info : UInt64 → UInt64 → BootinfoField → ℕ) : Prop where
  memmap : ∀ x y, info x y .memmap = x.toNat
  memmapCount : ∀ x y, info x y .memmapCount = y.toNat
  others : ∀ x y x' y' f, f ≠ .memmap → f ≠ .memmapCount → info x y f = info x' y' f

variable {info : UInt64 → UInt64 → BootinfoField → ℕ}

/-- The array is stored and the record points to it, if the two share no byte. -/
theorem publishMap_spec (hfields : MapFields info) {res : MapResult} {x y : UInt64}
    (hapart : ∀ a, setup.bootinfo.toNat ≤ a → a < setup.bootinfo.toNat + 360 →
      a < setup.smap.toNat ∨ setup.smap.toNat + 24 * res.out.length ≤ a)
    (hinfo : HasInfo mem setup.bootinfo (info x y)) :
    (∀ a, a < setup.bootinfo.toNat ∨ setup.bootinfo.toNat + 360 ≤ a →
      a < setup.smap.toNat ∨ setup.smap.toNat + 24 * res.out.length ≤ a →
      (publishMap setup res ⟨mem, []⟩).2.mem a = mem a) ∧
    entriesAt (publishMap setup res ⟨mem, []⟩).2.mem setup.smap.toNat res.out.length = res.out ∧
    HasInfo (publishMap setup res ⟨mem, []⟩).2.mem setup.bootinfo
      (info setup.smap res.outCount) := by
  have hentries := entriesAt_storeEntries setup.smap.toNat res.out ⟨mem, []⟩
  have hstored : ∀ a, a < setup.smap.toNat ∨ setup.smap.toNat + 24 * res.out.length ≤ a →
      (storeEntries setup.smap.toNat res.out ⟨mem, []⟩).2.mem a = mem a := fun a ha =>
    storeEntries_outside _ ha
  unfold publishMap
  simp only [Prog.bind_run, Layout.assign_mem]
  generalize (storeEntries setup.smap.toNat res.out ⟨mem, []⟩).2.mem = stored at hentries hstored ⊢
  have hassigned : ∀ a, a < setup.bootinfo.toNat ∨ setup.bootinfo.toNat + 360 ≤ a →
      sypasBootinfo.set (sypasBootinfo.set stored setup.bootinfo.toNat .memmap setup.smap.toNat)
        setup.bootinfo.toNat .memmapCount res.outCount.toNat a = stored a := fun a ha =>
    (sypasBootinfo.set_outside _ _ ha).trans (sypasBootinfo.set_outside _ _ ha)
  refine ⟨fun a hrecord harray => (hassigned a hrecord).trans (hstored a harray), ?_, fun f => ?_⟩
  · rw [entriesAt_congr fun a hlo hhi => hassigned a ?_, hentries]
    by_contra hin
    have := hapart a (by omega) (by omega)
    omega
  · rw [Layout.get_set, Layout.get_set, sypasBootinfo.get_congr (fun a hlo hhi => hstored a
      (hapart a hlo hhi)) f, hinfo f]
    by_cases hcount : f = .memmapCount
    · rw [if_pos hcount, hcount, hfields.memmapCount]
      exact Nat.mod_eq_of_lt res.outCount.toNat_lt
    rw [if_neg hcount]
    by_cases hmap : f = .memmap
    · rw [if_pos hmap, hmap, hfields.memmap]
      exact Nat.mod_eq_of_lt setup.smap.toNat_lt
    · rw [if_neg hmap]
      exact hfields.others _ _ _ _ f hmap hcount

section Blocks

variable {attempt a : ℕ}

/-- The block of the map shares no byte with the others. -/
theorem Attempted.apart (h : Attempted setup pages rest attempt mem g) (ha : Owned rest a) :
    a < setup.efimap.toNat ∨ setup.efimap.toNat + 4096 * pages.toNat ≤ a := by
  obtain ⟨b, hb, hin⟩ := ha
  have happ := h.consistent.apart
  rw [h.blocks.live_eq] at happ
  by_contra hno
  exact (List.pairwise_cons.1 happ).1 b hb a ⟨by change setup.efimap.toNat ≤ a; omega,
    by change a < setup.efimap.toNat + 4096 * pages.toNat; omega⟩ hin

theorem Attempted.map_mem (h : Attempted setup pages rest attempt mem g) :
    .pages setup.efimap pages ∈ g.live := by
  rw [h.blocks.live_eq]
  exact List.mem_cons_self

theorem Attempted.map_owned (h : Attempted setup pages rest attempt mem g)
    (hlo : setup.efimap.toNat ≤ a) (hhi : a < setup.efimap.toNat + 4096 * pages.toNat) :
    Owned g.live a :=
  ⟨_, h.map_mem, hlo, hhi⟩

theorem Attempted.rest_owned (h : Attempted setup pages rest attempt mem g) (ha : Owned rest a) :
    Owned g.live a := by
  obtain ⟨b, hb, hin⟩ := ha
  rw [h.blocks.live_eq]
  exact ⟨b, List.mem_cons_of_mem _ hb, hin⟩

/-- Loader code that changes only its own blocks. -/
theorem Attempted.write (h : Attempted setup pages rest attempt mem g) {after : ℕ → UInt8}
    (hframe : ∀ a, ¬Owned g.live a → after a = mem a) :
    Attempted setup pages rest attempt after g :=
  ⟨h.consistent.write hframe, h.blocks, h.exiting⟩

end Blocks

/-- The buffer holds the firmware's last map, in which every live page is LOADER data. -/
structure MapRead (setup : HandoffSetup) (r : MapReply) (mem : ℕ → UInt8) (g : Ledger) :
    Prop where
  size_le : r.size.toNat ≤ setup.mapBytes.toNat
  map : g.map = some (r.key, inputDescriptors mem setup.efimap.toNat r.size r.stride)
  describes : g.Describes (inputDescriptors mem setup.efimap.toNat r.size r.stride)

/-- The call for the map. -/
theorem readMap_wp {attempt : ℕ} {R : LoaderEnd → (ℕ → UInt8) → Ledger → Prop}
    {Q : MapReply → (ℕ → UInt8) → Ledger → Prop} (h : Attempted setup pages rest attempt mem g)
    (hnext : ∀ (r : MapReply) after g', Attempted setup pages rest attempt after g' →
      Keeps rest mem after → g'.located = g.located →
      (efiError r.status = false → MapRead setup r after g') → Q r after g') :
    (service (.getMemoryMap setup.mapBytes setup.efimap)).wp (services file) R Q mem g := by
  have hfits := h.blocks.fits
  refine service_wp h.consistent (Or.inr ⟨pages, h.map_mem, by omega⟩) (fun _ => trivial)
    fun (r : MapReply) after hkeep hanswer hcons =>
      hnext r after _ ⟨hcons, h.blocks, h.exiting⟩ (fun a ha => ?_) rfl fun hok => ?_
  · refine hkeep a (h.rest_owned ha) fun hbuf => ?_
    have hout := h.apart ha
    have hlo := hbuf.1
    have hhi := hbuf.2
    omega
  · obtain ⟨hsize, hdescribes⟩ := hanswer hok
    exact ⟨hsize, if_neg (by rw [hok]; exact Bool.false_ne_true), hdescribes⟩

/-- The translation sorts the map in its buffer. -/
theorem Attempted.translate {attempt : ℕ} (h : Attempted setup pages rest attempt mem g)
    {size : UInt64} (hsize : size.toNat ≤ setup.mapBytes.toNat) (stride : UInt64) :
    Attempted setup pages rest attempt (setup.translate size stride ⟨mem, []⟩).2.mem g ∧
      Keeps rest mem (setup.translate size stride ⟨mem, []⟩).2.mem := by
  have hsorted : ∀ a, a < setup.efimap.toNat ∨ setup.efimap.toNat + size.toNat ≤ a →
      (setup.translate size stride ⟨mem, []⟩).2.mem a = mem a :=
    fun a ha => sypasTranslateMemoryMap_outside ha
  have hfits := h.blocks.fits
  refine ⟨h.write fun a ha => hsorted a ?_, fun a ha => hsorted a ?_⟩
  · by_contra hin
    exact ha (h.map_owned (by omega) (by omega))
  · have hout := h.apart ha
    omega

/-- What the translator returns, if it does. -/
theorem HandoffSetup.translate_ok (setup : HandoffSetup) (size stride : UInt64) (mem : ℕ → UInt8)
    {res : MapResult} (hres : (setup.translate size stride ⟨mem, []⟩).1 = some res)
    (hok : res.status = .ok) :
    IsOwnershipMap setup.kernelPlan.segs
        (inputDescriptors mem setup.efimap.toNat size stride) res.out ∧
      res.outCount = UInt64.ofNat res.out.length ∧ res.out.length ≤ setup.sypasCap.toNat := by
  obtain ⟨-, st, hwalked, -, hout, hcount⟩ := sypasTranslateMemoryMap_walked hres hok
  exact ⟨(sypasTranslateMemoryMap_canonical hres hok).1, hout ▸ hcount,
    hout ▸ hwalked.good.out.room⟩

theorem HandoffSetup.translate_none (setup : HandoffSetup) (size stride : UInt64) (mem : ℕ → UInt8)
    (hnone : (setup.translate size stride ⟨mem, []⟩).1 = none) :
    MapHangs setup.efimap.toNat size stride setup.kernelPlan setup.sypasCap mem := by
  by_contra hno
  exact ne_none_of_not_mapHangs (s := ⟨mem, []⟩) hno 0 hnone

/-- The array goes behind the map in its block, and the record is in a page of its own. -/
theorem Attempted.publish {attempt : ℕ} {x y : UInt64} (hfields : MapFields info)
    (h : Attempted setup pages rest attempt mem g) (res : MapResult)
    (hroom : res.out.length ≤ setup.sypasCap.toNat)
    (hinfo : HasInfo mem setup.bootinfo (info x y)) :
    Attempted setup pages rest attempt (publishMap setup res ⟨mem, []⟩).2.mem g ∧
      KeepsBut setup.bootinfo rest mem (publishMap setup res ⟨mem, []⟩).2.mem ∧
      entriesAt (publishMap setup res ⟨mem, []⟩).2.mem setup.smap.toNat res.out.length = res.out ∧
      HasInfo (publishMap setup res ⟨mem, []⟩).2.mem setup.bootinfo
        (info setup.smap res.outCount) := by
  have hfits := h.blocks.fits
  have hsmap := h.blocks.toNat_smap h.consistent.placed
  have hrecord : ∀ a, setup.bootinfo.toNat ≤ a → a < setup.bootinfo.toNat + 360 → Owned rest a :=
    fun a => record_owned h.blocks.bootinfo
  have hrecordapart : ∀ a, setup.bootinfo.toNat ≤ a → a < setup.bootinfo.toNat + 360 →
      a < setup.smap.toNat ∨ setup.smap.toNat + 24 * res.out.length ≤ a := by
    intro a hlo hhi
    have hout := h.apart (hrecord a hlo hhi)
    omega
  obtain ⟨hframe, hentries, hinfo'⟩ := publishMap_spec hfields hrecordapart hinfo
  refine ⟨h.write fun a ha => hframe a ?_ ?_, fun a ha hout => hframe a hout ?_, hentries, hinfo'⟩
  · by_contra hin
    exact ha (h.rest_owned (hrecord a (by omega) (by omega)))
  · by_contra hin
    exact ha (h.map_owned (by omega) (by omega))
  · have hmapout := h.apart ha
    omega

/-- The exit. -/
theorem tryExit_wp {attempt : ℕ} {key : UInt64} {Q : Bool → (ℕ → UInt8) → Ledger → Prop}
    (h : Attempted setup pages rest attempt mem g) (hkey : ∃ ds, g.map = some (key, ds))
    (hgone : ∀ after g', g'.Consistent after → g'.live = g.live → g'.map = g.map →
      g'.located = g.located → Keeps g.live mem after → Q true after g')
    (hagain : ∀ after g', Attempted setup pages rest (attempt + 1) after g' →
      g'.located = g.located → Keeps g.live mem after → Q false after g') :
    (do
      let st : UInt64 ← service (.exitBootServices img key)
      if ¬efiError st then pure true
      else if attempt = 3 then exit .halted
      else pure false : Loader Bool).wp (services file) (LoaderEnds planned jumped) Q mem g := by
  refine wp_bind (service_wp h.consistent hkey (fun _ => trivial) fun st after hkeep _ hcons => ?_)
  have hkeeps : Keeps g.live mem after := fun a ha => hkeep a ha id
  refine wp_ite (fun _ => wp_pure (hgone after _ hcons rfl rfl rfl hkeeps)) fun _ =>
    wp_ite (fun _ => wp_exit rfl) fun _ => wp_pure (hagain after _ ⟨hcons, h.blocks, ?_⟩ rfl hkeeps)
  exact iff_of_true rfl (Nat.succ_ne_zero attempt)

/-- One round: boot services are gone, or one more exit has been tried. -/
theorem handoffRound_wp {attempt : ℕ} {x y : UInt64} {Q : Bool → (ℕ → UInt8) → Ledger → Prop}
    (hplanned : planned setup.kernelPlan) (hfields : MapFields info)
    (h : Attempted setup pages rest attempt mem g)
    (hinfo : HasInfo mem setup.bootinfo (info x y))
    (hgone : ∀ after g', HandedOver setup pages rest info after g' → g'.located = g.located →
      KeepsBut setup.bootinfo rest mem after → Q true after g')
    (hagain : ∀ after g', Attempted setup pages rest (attempt + 1) after g' →
      (∃ x y, HasInfo after setup.bootinfo (info x y)) → g'.located = g.located →
      KeepsBut setup.bootinfo rest mem after → Q false after g') :
    (handoffRound img setup attempt).wp (services file) (LoaderEnds planned jumped) Q mem g := by
  refine wp_bind (readMap_wp h fun r m₁ g₁ h₁ hk₁ hlocated₁ hread => ?_)
  refine wp_ite (fun _ => giveUp_wp h₁ (reported_die _ _)) fun hok => wp_bind (onMemory_wp ?_)
  have hmap := hread (Bool.not_eq_true _ ▸ hok)
  obtain ⟨h₂, hk₂⟩ := h₁.translate hmap.size_le r.stride
  have hhangs := setup.translate_none r.size r.stride m₁
  have hdone := @HandoffSetup.translate_ok setup r.size r.stride m₁
  generalize (setup.translate r.size r.stride ⟨m₁, []⟩).2.mem = m₂ at h₂ hk₂ ⊢
  generalize (setup.translate r.size r.stride ⟨m₁, []⟩).1 = result at hhangs hdone ⊢
  cases result with
  | none =>
    exact wp_exit ⟨setup, pages, r.size, r.stride, m₁, r.key, hplanned, h₁.map_mem, hmap.size_le,
      h₁.blocks.fits, hhangs rfl, hmap.map⟩
  | some res =>
    refine wp_ite (fun _ => giveUp_wp h₂ (reported_rejectedTexts _ _)) fun hstatus => ?_
    obtain ⟨hownership, hcount, hroom⟩ := hdone rfl (not_not.1 hstatus)
    have hinfo₂ : HasInfo m₂ setup.bootinfo (info x y) :=
      (hk₁.trans hk₂).hasInfo h.blocks.bootinfo hinfo
    refine wp_bind (onMemory_wp ?_)
    obtain ⟨h₃, hk₃, hentries, hinfo₃⟩ := h₂.publish hfields res hroom hinfo₂
    generalize (publishMap setup res ⟨m₂, []⟩).2.mem = m₃ at h₃ hk₃ hentries hinfo₃ ⊢
    have hbut : ∀ m₄, Keeps g₁.live m₃ m₄ → KeepsBut setup.bootinfo rest mem m₄ ∧
        HasInfo m₄ setup.bootinfo (info setup.smap res.outCount) := fun m₄ hk₄ => by
      have hkrest : Keeps rest m₃ m₄ := fun a ha => hk₄ a (h₃.rest_owned ha)
      exact ⟨((hk₁.trans hk₂).but.trans hk₃).trans hkrest.but,
        hkrest.hasInfo h.blocks.bootinfo hinfo₃⟩
    refine tryExit_wp h₃ ⟨_, hmap.map⟩ (fun m₄ g₄ hcons₄ hlive₄ hmap₄ hlocated₄ hk₄ => ?_)
      fun m₄ g₄ h₄ hlocated₄ hk₄ => ?_
    · obtain ⟨hbut₄, hinfo₄⟩ := hbut m₄ hk₄
      refine hgone m₄ g₄ ⟨hcons₄, hlive₄ ▸ h₃.blocks, r.key, _, res.out, hmap₄.trans hmap.map, ?_,
        hownership, hroom, ?_, hcount ▸ hinfo₄⟩ (hlocated₄.trans hlocated₁) hbut₄
      · intro memory count hmem
        exact hmap.describes memory count (hlive₄ ▸ hmem)
      · have hfits := h.blocks.fits
        have hsmap := h₃.blocks.toNat_smap h₃.consistent.placed
        rw [entriesAt_congr fun a hlo hhi => hk₄ a (h₃.map_owned (by omega) (by omega)), hentries]
    · obtain ⟨hbut₄, hinfo₄⟩ := hbut m₄ hk₄
      exact hagain m₄ g₄ h₄ ⟨_, _, hinfo₄⟩ (hlocated₄.trans hlocated₁) hbut₄

/-- The loop leaves only when boot services are gone. -/
theorem handoffLoop_wp {n attempt : ℕ} {x y : UInt64} {Q : Unit → (ℕ → UInt8) → Ledger → Prop}
    (hplanned : planned setup.kernelPlan) (hfields : MapFields info)
    (h : Attempted setup pages rest attempt mem g) (hlast : n = 0 → attempt ≠ 0)
    (hinfo : HasInfo mem setup.bootinfo (info x y))
    (hgone : ∀ after g', HandedOver setup pages rest info after g' → g'.located = g.located →
      KeepsBut setup.bootinfo rest mem after → Q () after g') :
    (handoffLoop img setup n attempt).wp (services file) (LoaderEnds planned jumped) Q mem g := by
  induction n generalizing mem g attempt x y with
  | zero => exact wp_exit (h.exiting.2 (hlast rfl))
  | succ n ih =>
    refine wp_bind (handoffRound_wp hplanned hfields h hinfo (fun after g' hover hlocated hbut =>
      wp_pure (hgone after g' hover hlocated hbut)) fun after g' hagain hinfo' hlocated hbut => ?_)
    obtain ⟨x', y', hinfo'⟩ := hinfo'
    exact ih hagain (fun _ => Nat.succ_ne_zero attempt) hinfo'
      fun after' g'' hover hlocated' hbut' =>
        hgone after' g'' hover (hlocated'.trans hlocated) (hbut.trans hbut')

end Round

end Sypas
