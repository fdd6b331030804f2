import Sypas.Loader.EfiMainSafe

/-!
# What a firmware may bring about (`bootloader/uefi/main.c`)

For each part of the loader, answers within the contract under which it returns. They are
put together to runs that reach the kernel.

## Main results

- `Sypas.readKernelFile_may`, `Sypas.loadKernel_may` — the kernel file is read and placed
- `Sypas.growMap_may`, `Sypas.handoffRound_may` — the map fits, and boot services end
-/

namespace Sypas

open Interaction Program Ram

section Rules

variable {file : List UInt8} {α : Type} {mem : ℕ → UInt8} {g : Ledger} {live : List Block}

theorem Block.apart_of_le {b b' : Block}
    (h : b.start + b.bytes ≤ b'.start ∨ b'.start + b'.bytes ≤ b.start) : b.Apart b' := by
  intro a ha ha'
  unfold Block.Has at ha ha'
  omega

/-- A call that concerns no allocation and is answered by `r`. -/
theorem call_may {c : FirmwareCall} {Q : c.Answer → (ℕ → UInt8) → Ledger → Prop} (r : c.Answer)
    (hc : c.Plain) (hanswer : ∀ g : Ledger, g.Answers file mem c r) (hlive : g.live = live)
    (hnext : ∀ g' : Ledger, g'.live = live → Q r mem g') :
    (service c).mayReturn (services file) Q mem g := by
  refine mayReturn_ask r mem (g.next mem c r mem) ⟨fun _ _ _ => rfl, hanswer g, rfl⟩ (hnext _ ?_)
  cases c <;> first | exact hlive | exact hc.elim

theorem dieOnError_may {status : UInt64} {msg : String} {Q : Unit → (ℕ → UInt8) → Ledger → Prop}
    (hok : efiError status = false) (h : Q () mem g) :
    (dieOnError status msg).mayReturn (services file) Q mem g := by
  unfold dieOnError
  rw [hok, if_neg Bool.false_ne_true]
  exact mayReturn_pure h

/-- Pages that are granted at `r`. -/
theorem allocatePages_may {kind : AllocateType} {type : UInt32} {pages memory : UInt64}
    {Q : Reply → (ℕ → UInt8) → Ledger → Prop} (base : UInt64) (hlive : g.live = live)
    (hstop : base.toNat + 4096 * pages.toNat < 2 ^ 64) (haligned : base.toNat % 4096 = 0)
    (hapart : ∀ b ∈ live, base.toNat + 4096 * pages.toNat ≤ b.start ∨
      b.start + b.bytes ≤ base.toNat)
    (haddress : kind = .address → base = memory)
    (hnext : ∀ g' : Ledger, g'.live = .pages base pages :: live → Q ⟨0, base⟩ mem g') :
    (service (.allocatePages kind type pages memory)).mayReturn (services file) Q mem g := by
  refine mayReturn_ask (⟨0, base⟩ : Reply) mem _ ⟨fun _ _ _ => rfl, fun _ => ⟨⟨⟨hstop, ?_⟩, ?_⟩,
    haddress⟩, rfl⟩ (hnext _ (congrArg _ hlive))
  · rintro memory count hblock
    cases hblock
    exact haligned
  · exact fun b hb => Block.apart_of_le (hapart b (hlive ▸ hb))

/-- A buffer in the pool, granted at `base`. -/
theorem allocatePool_may {type : UInt32} {size : UInt64}
    {Q : Reply → (ℕ → UInt8) → Ledger → Prop} (base : UInt64) (hlive : g.live = [])
    (hstop : base.toNat + size.toNat < 2 ^ 64)
    (hnext : ∀ g' : Ledger, g'.live = [.pool base size] → Q ⟨0, base⟩ mem g') :
    (service (.allocatePool type size)).mayReturn (services file) Q mem g := by
  refine mayReturn_ask (⟨0, base⟩ : Reply) mem _ ⟨fun _ _ _ => rfl, fun _ => ⟨⟨hstop, ?_⟩, ?_⟩,
    rfl⟩ (hnext _ (congrArg _ hlive))
  · rintro memory count hblock
    cases hblock
  · rw [hlive]
    exact fun b hb => absurd hb List.not_mem_nil

/-- The memory map `bytes` in the buffer, with the key 1. -/
theorem getMemoryMap_may {size buffer : UInt64} {Q : MapReply → (ℕ → UInt8) → Ledger → Prop}
    (bytes : List UInt8) (stride : UInt64) (hlive : g.live = live)
    (hfits : bytes.length ≤ size.toNat)
    (hdescribes : ∀ g' : Ledger, g'.live = live → g'.Describes (inputDescriptors
      (patch mem buffer.toNat bytes) buffer.toNat (UInt64.ofNat bytes.length) stride))
    (hnext : ∀ g' : Ledger, g'.live = live →
      Q ⟨0, UInt64.ofNat bytes.length, 1, stride⟩ (patch mem buffer.toNat bytes) g') :
    (service (.getMemoryMap size buffer)).mayReturn (services file) Q mem g := by
  have hlen : (UInt64.ofNat bytes.length).toNat = bytes.length :=
    Nat.mod_eq_of_lt (hfits.trans_lt size.toNat_lt)
  refine mayReturn_ask (⟨0, UInt64.ofNat bytes.length, 1, stride⟩ : MapReply)
    (patch mem buffer.toNat bytes) _ ⟨fun a _ hout => ?_, fun _ => ⟨?_, hdescribes g hlive⟩, rfl⟩
    (hnext _ hlive)
  · refine if_neg fun hin => hout ⟨hin.1, ?_⟩
    have hstop := hin.2
    omega
  · change (UInt64.ofNat bytes.length).toNat ≤ size.toNat
    rw [hlen]
    exact hfits

theorem onMemory_may {x : StateM Ram α} {Q : α → (ℕ → UInt8) → Ledger → Prop}
    (h : Q (x ⟨mem, []⟩).1 (x ⟨mem, []⟩).2.mem g) :
    (onMemory x).mayReturn (services file) Q mem g :=
  mayReturn_compute h

/-- The kernel file is read into a buffer at `buf`. -/
theorem readKernelFile_may {img size : UInt64} {Q : UInt64 × UInt64 → (ℕ → UInt8) → Ledger → Prop}
    (buf : UInt64) (hlive : g.live = []) (hsize : size.toNat = file.length)
    (hpolicy : ¬(size = 0 ∨ size > sypasMaxKernelFile)) (hstop : buf.toNat + size.toNat < 2 ^ 64)
    (hnext : ∀ g', g'.live = [.pool buf size] → Q (buf, size) (patch mem buf.toNat file) g') :
    (readKernelFile img).mayReturn (services file) Q mem g := by
  refine mayReturn_bind (call_may (⟨0, 0⟩ : Reply) trivial (fun _ => trivial) hlive fun g₁ h₁ =>
    mayReturn_bind (dieOnError_may rfl (mayReturn_bind (mayReturn_compute ?_))))
  refine mayReturn_bind (call_may (⟨0, 0⟩ : Reply) trivial (fun _ => trivial) h₁ fun g₂ h₂ =>
    mayReturn_bind (dieOnError_may rfl ?_))
  refine mayReturn_bind (call_may (⟨0, 0⟩ : Reply) trivial (fun _ => trivial) h₂ fun g₃ h₃ =>
    mayReturn_bind (dieOnError_may rfl ?_))
  refine mayReturn_bind (call_may (⟨0, 0⟩ : Reply) trivial (fun _ => trivial) h₃ fun g₄ h₄ =>
    mayReturn_bind (dieOnError_may rfl ?_))
  refine mayReturn_bind (call_may (⟨0, size⟩ : Reply) trivial (fun _ _ => hsize) h₄ fun g₅ h₅ =>
    mayReturn_bind (dieOnError_may rfl ?_))
  rw [if_neg hpolicy]
  refine mayReturn_bind (allocatePool_may buf h₅ hstop fun g₆ h₆ =>
    mayReturn_bind (dieOnError_may rfl ?_))
  refine mayReturn_bind (mayReturn_ask (⟨0, size⟩ : Reply) (patch mem buf.toNat file) _
    ⟨fun a _ hout => if_neg fun hin => hout ⟨hin.1, hsize ▸ hin.2⟩, fun _ => ⟨le_rfl, ?_⟩, rfl⟩ ?_)
  · change bytesAt (patch mem buf.toNat file) buf.toNat size.toNat = file.take size.toNat
    rw [hsize, bytesAt_patch, List.take_length]
  rw [if_neg (show ¬(efiError 0 = true ∨ size ≠ size) by simp [efiError])]
  refine mayReturn_bind (call_may (0 : UInt64) trivial (fun _ => trivial) h₆ fun g₇ h₇ => ?_)
  exact mayReturn_bind (call_may (0 : UInt64) trivial (fun _ => trivial) h₇ fun g₈ h₈ =>
    mayReturn_pure (hnext g₈ h₈))

/-- A file that is accepted, and pages that are free. -/
theorem loadKernel_may {buf size : UInt64} {plan : ElfLoadPlan}
    {Q : ElfLoadPlan → (ℕ → UInt8) → Ledger → Prop}
    (hplan : (elfPlanLoad buf.toNat size .empty ⟨mem, []⟩).1 = (.ok, plan))
    (hnext : ∀ after, (loadAll buf plan.segs).mayReturn (services file)
      (fun _ after' g' => Q plan after' g') after g) :
    (loadKernel buf size).mayReturn (services file) Q mem g := by
  refine mayReturn_bind (onMemory_may ?_)
  rw [hplan, if_neg (not_not.2 rfl)]
  exact mayReturn_bind (mayReturn_mono (fun _ after' g' h => mayReturn_pure h) (hnext _))

theorem loadAll_may_nil {buf : UInt64} {Q : Unit → (ℕ → UInt8) → Ledger → Prop} (h : Q () mem g) :
    (loadAll buf []).mayReturn (services file) Q mem g :=
  mayReturn_pure h

theorem loadAll_may_cons {buf pages : UInt64} {seg : ElfSegment} {rest : List ElfSegment}
    {Q : Unit → (ℕ → UInt8) → Ledger → Prop} (hlive : g.live = live)
    (hpages : (seg.pageEnd - seg.pageBase) / efiPageSize = pages)
    (hstop : seg.pageBase.toNat + 4096 * pages.toNat < 2 ^ 64)
    (haligned : seg.pageBase.toNat % 4096 = 0)
    (hapart : ∀ b ∈ live, seg.pageBase.toNat + 4096 * pages.toNat ≤ b.start ∨
      b.start + b.bytes ≤ seg.pageBase.toNat)
    (hnext : ∀ after g', g'.live = .pages seg.pageBase pages :: live →
      (loadAll buf rest).mayReturn (services file) Q after g') :
    (loadAll buf (seg :: rest)).mayReturn (services file) Q mem g := by
  subst hpages
  refine mayReturn_bind (allocatePages_may seg.pageBase hlive hstop haligned hapart (fun _ => rfl)
    fun g₁ h₁ => mayReturn_bind (dieOnError_may rfl ?_))
  exact mayReturn_bind (onMemory_may (hnext _ g₁ h₁))

/-- A round of the growth loop in which the map fits. -/
theorem growMap_may {n : ℕ} {mmsize stride : UInt64} {sizes : MapSizes}
    {Q : UInt64 × MapSizes → (ℕ → UInt8) → Ledger → Prop} (base : UInt64) (bytes : List UInt8)
    (hsizes : mapSizes mmsize stride = some sizes) (hlive : g.live = live)
    (hstop : base.toNat + 4096 * sizes.totalPages.toNat < 2 ^ 64) (haligned : base.toNat % 4096 = 0)
    (hapart : ∀ b ∈ live, base.toNat + 4096 * sizes.totalPages.toNat ≤ b.start ∨
      b.start + b.bytes ≤ base.toNat) (hfits : bytes.length ≤ sizes.mapBytes.toNat)
    (hdescribes : ∀ g' : Ledger, g'.live = .pages base sizes.totalPages :: live →
      g'.Describes (inputDescriptors (patch mem base.toNat bytes) base.toNat
        (UInt64.ofNat bytes.length) stride))
    (hnext : ∀ after g', g'.live = .pages base sizes.totalPages :: live →
      Q (base, sizes) after g') :
    (growMap (n + 1) mmsize stride).mayReturn (services file) Q mem g := by
  rw [growMap, hsizes]
  refine mayReturn_bind (allocatePages_may base hlive hstop haligned hapart (by simp) fun g₁ h₁ =>
    mayReturn_bind (dieOnError_may rfl (mayReturn_bind
      (getMemoryMap_may bytes stride h₁ hfits hdescribes fun g₂ h₂ => ?_))))
  rw [if_pos ⟨show ¬efiError 0 = true by decide, rfl⟩]
  exact mayReturn_pure (hnext _ g₂ h₂)

/-- A round of the last loop in which the map is translated and the exit succeeds. -/
theorem handoffRound_may {img : UInt64} {setup : HandoffSetup} {attempt : ℕ} {res : MapResult}
    {Q : Bool → (ℕ → UInt8) → Ledger → Prop} (bytes : List UInt8) (stride : UInt64)
    (hlive : g.live = live) (hfits : bytes.length ≤ setup.mapBytes.toNat)
    (hdescribes : ∀ g' : Ledger, g'.live = live → g'.Describes (inputDescriptors
      (patch mem setup.efimap.toNat bytes) setup.efimap.toNat (UInt64.ofNat bytes.length) stride))
    (htranslate : (setup.translate (UInt64.ofNat bytes.length) stride
      ⟨patch mem setup.efimap.toNat bytes, []⟩).1 = some res) (hok : res.status = .ok)
    (hnext : ∀ sorted g', g'.exiting = true → Q true (publishMap setup res ⟨sorted, []⟩).2.mem g') :
    (handoffRound img setup attempt).mayReturn (services file) Q mem g := by
  refine mayReturn_bind (getMemoryMap_may bytes stride hlive hfits hdescribes fun g₁ hlive₁ => ?_)
  rw [if_neg (show ¬efiError 0 = true by decide)]
  refine mayReturn_bind (onMemory_may ?_)
  rw [htranslate]
  dsimp only
  rw [if_neg (not_not.2 hok)]
  refine mayReturn_bind (onMemory_may (mayReturn_bind (mayReturn_ask (0 : UInt64) _ _
    ⟨fun _ _ _ => rfl, trivial, rfl⟩ ?_)))
  rw [if_pos (show ¬efiError 0 = true by decide)]
  exact mayReturn_pure (hnext _ _ rfl)

end Rules

end Sypas
