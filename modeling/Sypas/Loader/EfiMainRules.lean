import Sypas.Loader.EfiMain

/-!
# Rules for the loader's calls

One rule for each way the loader calls firmware, over a stage: the live allocations, a
consistent ledger, and boot services not yet given up. A failed call is reported before
the loader stalls, so every rule but the one for reports speaks of success only.

## Main definitions

- `Sypas.Stage` — between two calls before the handoff
- `Sypas.LoaderEnds` — what may be said at an end of the loader

## Main results

- `Sypas.dieWith_wp`, `Sypas.call_wp`, `Sypas.allocatePages_wp` — the rules
-/

namespace Sypas

open Program Ram

/-- The console shows a report of `die`. -/
def Reported (texts : List String) : Prop := ∃ pre msg status, texts = pre ++ die msg status

theorem reported_die (msg : String) (status : UInt64) : Reported (die msg status) :=
  ⟨[], msg, status, rfl⟩

theorem reported_dieAscii (msg detail : String) (status : UInt64) :
    Reported (dieAscii msg detail status) :=
  ⟨_, _, _, rfl⟩

theorem Reported.append {texts : List String} (h : Reported texts) (front : List String) :
    Reported (front ++ texts) := by
  obtain ⟨pre, msg, status, rfl⟩ := h
  exact ⟨front ++ pre, msg, status, (List.append_assoc ..).symm⟩

/-- Between two calls before the handoff, with these live allocations. -/
structure Stage (live : List Block) (mem : ℕ → UInt8) (g : Ledger) : Prop where
  consistent : g.Consistent mem
  live_eq : g.live = live
  early : g.exiting = false

/-- The bytes of the blocks are the same. -/
def Keeps (live : List Block) (mem after : ℕ → UInt8) : Prop :=
  ∀ a, Owned live a → after a = mem a

/-- What the ends of the loader mean: it stalls after a report and before any exit from boot
    services, halts silently after one, is left in the translator by a map on which that does
    not come back, for a `planned` kernel and the room in the block of the map, and jumps
    where `jumped` holds. -/
def LoaderEnds (planned : ElfLoadPlan → Prop)
    (jumped : UInt64 → UInt64 → UInt64 → (ℕ → UInt8) → Ledger → Prop) :
    LoaderEnd → (ℕ → UInt8) → Ledger → Prop
  | .stalled, _, g => g.exiting = false ∧ Reported g.printed
  | .halted, _, g => g.exiting = true
  | .translating, _, g => ∃ (setup : HandoffSetup) (pages mapSize stride : UInt64)
      (mem : ℕ → UInt8) (key : UInt64),
    planned setup.kernelPlan ∧ .pages setup.efimap pages ∈ g.live ∧
      mapSize.toNat ≤ setup.mapBytes.toNat ∧
      setup.mapBytes.toNat + 24 * setup.sypasCap.toNat ≤ 4096 * pages.toNat ∧
      MapHangs setup.efimap.toNat mapSize stride setup.kernelPlan setup.sypasCap mem ∧
      g.map = some (key, inputDescriptors mem setup.efimap.toNat mapSize stride)
  | .jumped rsp rdi rip, mem, g => jumped rsp rdi rip mem g

/-- The calls that leave the ledger's allocations, map and protocol alone. -/
def FirmwareCall.Plain : FirmwareCall → Prop
  | .outputString .. | .setWatchdogTimer .. | .handleProtocol .. | .openVolume .. | .openFile ..
  | .getInfo .. | .closeFile .. => True
  | _ => False

section Rules

variable {file : List UInt8} {planned : ElfLoadPlan → Prop}
  {jumped : UInt64 → UInt64 → UInt64 → (ℕ → UInt8) → Ledger → Prop}
  {α : Type} {mem : ℕ → UInt8} {g : Ledger} {live : List Block}

/-- The general rule of a call. -/
theorem service_wp {c : FirmwareCall} {R : LoaderEnd → (ℕ → UInt8) → Ledger → Prop}
    {Q : c.Answer → (ℕ → UInt8) → Ledger → Prop} (h : g.Consistent mem) (hlegal : g.Legal c)
    (hquiet : g.exiting = true → c.MayFollowExit)
    (hnext : ∀ r after, (∀ a, Owned g.live a → ¬c.InBuffer a → after a = mem a) →
      g.Answers file after c r → (g.next mem c r after).Consistent after →
      Q r after (g.next mem c r after)) : (service c).wp (services file) R Q mem g := by
  refine wp_ask ⟨h.frame, hlegal, hquiet⟩ ?_
  rintro r after _ ⟨hkeep, hanswer, rfl⟩
  exact hnext r after hkeep hanswer (h.next hanswer)

/-- A call that concerns no allocation. -/
theorem call_wp {c : FirmwareCall} {R : LoaderEnd → (ℕ → UInt8) → Ledger → Prop}
    {Q : c.Answer → (ℕ → UInt8) → Ledger → Prop} (hc : c.Plain) (h : Stage live mem g)
    (hnext : ∀ r after g', Keeps live mem after → g.Answers file after c r →
      Stage live after g' → g'.located = g.located → Q r after g') :
    (service c).wp (services file) R Q mem g := by
  have hlegal : g.Legal c := by cases c <;> first | exact trivial | exact hc.elim
  refine service_wp h.consistent hlegal (fun hexit => absurd (h.early.symm.trans hexit) (by decide))
    fun r after hkeep hanswer hcons => hnext r after _ (fun a ha => hkeep a (h.live_eq ▸ ha) ?_)
      hanswer ⟨hcons, ?_, ?_⟩ ?_
  · cases c <;> first | exact id | exact hc.elim
  · cases c <;> first | exact h.live_eq | exact hc.elim
  · cases c <;> first | exact h.early | exact hc.elim
  · cases c <;> first | rfl | exact hc.elim

theorem printed_next (text : String) (r : UInt64) (after : ℕ → UInt8) :
    (g.next mem (.outputString text) r after).printed = g.printed ++ [text] := rfl

theorem printAll_wp {texts : List String} {R : LoaderEnd → (ℕ → UInt8) → Ledger → Prop}
    {Q : Unit → (ℕ → UInt8) → Ledger → Prop} (h : Stage live mem g)
    (hnext : ∀ after g', Stage live after g' → g'.printed = g.printed ++ texts → Q () after g') :
    (printAll texts).wp (services file) R Q mem g := by
  induction texts generalizing mem g with
  | nil => exact hnext mem g h (List.append_nil _).symm
  | cons text texts ih =>
    refine wp_bind (wp_bind (service_wp h.consistent trivial
      (fun hexit => absurd (h.early.symm.trans hexit) (by decide)) fun r after _ _ hcons => ?_))
    refine ih ⟨hcons, h.live_eq, h.early⟩ fun after' g' hstage hprinted => ?_
    refine hnext after' g' hstage ?_
    rw [hprinted, printed_next, List.append_assoc, List.singleton_append]

/-- A report, and the end. -/
theorem dieWith_wp {texts : List String} {Q : α → (ℕ → UInt8) → Ledger → Prop}
    (h : Stage live mem g) (hreport : Reported texts) :
    (dieWith texts : Loader α).wp (services file) (LoaderEnds planned jumped) Q mem g :=
  wp_bind (printAll_wp h fun _ _ hstage hprinted => wp_exit
    ⟨hstage.early, hprinted ▸ hreport.append g.printed⟩)

theorem dieOnError_wp {status : UInt64} {msg : String} {Q : Unit → (ℕ → UInt8) → Ledger → Prop}
    (h : Stage live mem g) (hok : efiError status = false → Q () mem g) :
    (dieOnError status msg).wp (services file) (LoaderEnds planned jumped) Q mem g :=
  wp_ite (fun _ => dieWith_wp h (reported_die msg status)) fun hno =>
    wp_pure (hok (Bool.not_eq_true _ ▸ hno))

theorem print_wp {text : String} {Q : Unit → (ℕ → UInt8) → Ledger → Prop} (h : Stage live mem g)
    (hnext : ∀ after g', Keeps live mem after → Stage live after g' → g'.located = g.located →
      Q () after g') : (print text).wp (services file) (LoaderEnds planned jumped) Q mem g :=
  wp_bind (call_wp trivial h fun _ after g' hkeep _ hstage hlocated =>
    wp_pure (hnext after g' hkeep hstage hlocated))

/-- Pages that are granted, or a report. -/
theorem allocatePages_wp {kind : AllocateType} {type : UInt32} {pages memory : UInt64}
    {msg : String} {f : Reply → Loader α} {Q : α → (ℕ → UInt8) → Ledger → Prop}
    (h : Stage live mem g)
    (hnext : ∀ (r : Reply) after g', Keeps live mem after →
      Stage (.pages r.value pages :: live) after g' → g'.located = g.located →
      (kind = .address → r.value = memory) →
      (f r).wp (services file) (LoaderEnds planned jumped) Q after g') :
    (do
      let r : Reply ← service (.allocatePages kind type pages memory)
      dieOnError r.status msg
      f r).wp (services file) (LoaderEnds planned jumped) Q mem g := by
  refine wp_bind (service_wp h.consistent trivial
    (fun hexit => absurd (h.early.symm.trans hexit) (by decide))
    fun (r : Reply) after hkeep hanswer hcons => ?_)
  have hkeeps : Keeps live mem after := fun a ha => hkeep a (h.live_eq ▸ ha) id
  by_cases hstatus : efiError r.status = true
  · refine wp_bind (@dieOnError_wp _ _ _ _ _ live _ _ _ ⟨hcons, ?_, h.early⟩ fun hok => ?_)
    · rw [Ledger.live_allocatePages, if_pos hstatus, h.live_eq]
    · rw [hok] at hstatus
      cases hstatus
  · have hok := Bool.not_eq_true _ ▸ hstatus
    have hstage : Stage (.pages r.value pages :: live) after
        (g.next mem (.allocatePages kind type pages memory) r after) := by
      refine ⟨hcons, ?_, h.early⟩
      rw [Ledger.live_allocatePages, if_neg hstatus, h.live_eq]
    exact wp_bind (dieOnError_wp hstage fun _ => hnext r after _ hkeeps hstage rfl (hanswer hok).2)

/-- A pool buffer that is granted, or a report. -/
theorem allocatePool_wp {type : UInt32} {size : UInt64} {msg : String} {f : Reply → Loader α}
    {Q : α → (ℕ → UInt8) → Ledger → Prop} (h : Stage live mem g)
    (hnext : ∀ (r : Reply) after g', Keeps live mem after →
      Stage (.pool r.value size :: live) after g' → g'.located = g.located →
      (f r).wp (services file) (LoaderEnds planned jumped) Q after g') :
    (do
      let r : Reply ← service (.allocatePool type size)
      dieOnError r.status msg
      f r).wp (services file) (LoaderEnds planned jumped) Q mem g := by
  refine wp_bind (service_wp h.consistent trivial
    (fun hexit => absurd (h.early.symm.trans hexit) (by decide))
    fun (r : Reply) after hkeep hanswer hcons => ?_)
  have hkeeps : Keeps live mem after := fun a ha => hkeep a (h.live_eq ▸ ha) id
  by_cases hstatus : efiError r.status = true
  · refine wp_bind (@dieOnError_wp _ _ _ _ _ live _ _ _ ⟨hcons, ?_, h.early⟩ fun hok => ?_)
    · rw [Ledger.live_allocatePool, if_pos hstatus, h.live_eq]
    · rw [hok] at hstatus
      cases hstatus
  · have hstage : Stage (.pool r.value size :: live) after
        (g.next mem (.allocatePool type size) r after) := by
      refine ⟨hcons, ?_, h.early⟩
      rw [Ledger.live_allocatePool, if_neg hstatus, h.live_eq]
    exact wp_bind (dieOnError_wp hstage fun _ => hnext r after _ hkeeps hstage rfl)

/-- Loader code that changes only its own blocks. -/
theorem Stage.write (h : Stage live mem g) {after : ℕ → UInt8}
    (hframe : ∀ a, ¬Owned live a → after a = mem a) : Stage live after g :=
  ⟨h.consistent.write fun a ha => hframe a (h.live_eq ▸ ha), h.live_eq, h.early⟩

theorem onMemory_wp {x : StateM Ram α} {R : LoaderEnd → (ℕ → UInt8) → Ledger → Prop}
    {Q : α → (ℕ → UInt8) → Ledger → Prop} (h : Q (x ⟨mem, []⟩).1 (x ⟨mem, []⟩).2.mem g) :
    (onMemory x).wp (services file) R Q mem g :=
  wp_compute h

theorem peek_wp {f : (ℕ → UInt8) → α} {R : LoaderEnd → (ℕ → UInt8) → Ledger → Prop}
    {Q : α → (ℕ → UInt8) → Ledger → Prop} (h : Q (f mem) mem g) :
    (peek f).wp (services file) R Q mem g :=
  wp_compute h

end Rules

end Sypas
