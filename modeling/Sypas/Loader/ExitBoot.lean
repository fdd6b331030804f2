import Sypas.Loader.Firmware
import Sypas.Loader.MapBuffers

/-!
# The handoff loop (`bootloader/uefi/main.c`)

The last loop of `efi_main` as a machine that makes one firmware call at a time and
takes any answer. Its trace records the calls; a call of `ExitBootServices` is
recorded with the memory map that the boot information describes at that moment. The
output array is a value, as in the translator's model: `MapSizes` places it behind the
raw map.

## Main definitions

- `Sypas.handoffStep` — one firmware call and the code up to the next one
- `Sypas.HandoffRun` — the runs of the loop, against any firmware
- `Sypas.HandoffSafe` — what a trace may contain

## Main results

- `Sypas.handoffRun_safe` — every trace is safe
-/

namespace Sypas

open Ram

/-- What is printed for a rejected map. -/
def rejectedTexts (status : MapStatus) (diagnostic : MapDiagnostic) : List String :=
  (if status = .errRangeOverlap then
    ["\r\nmemory map overlap: descriptor ", printHex diagnostic.descriptorIndex, " range ",
      printHex diagnostic.base, "..", printHex diagnostic.end, " follows end ",
      printHex diagnostic.previousEnd, "\r\n"]
  else []) ++ dieAscii "memory map rejected" (sypasMapStatusStr status) efiLoadError

/-! ## The machine -/

/-- What a call of `GetMemoryMap` returns, with the map it stores in the buffer. -/
structure MapAnswer where
  status : UInt64
  map : List UInt8
  key : UInt64
  stride : UInt64
  size_lt : map.length < 2 ^ 64

def MapAnswer.size (answer : MapAnswer) : UInt64 := UInt64.ofNat answer.map.length

/-- The map in the boot information: `memmap`, `memmap_count` and the array itself. -/
structure BootMap where
  memmap : UInt64
  memmapCount : UInt64
  entries : List MemmapEntry

/-- What `efi_main` has fixed before the loop: the buffers and their sizes, the kernel's
    plan, and the registers of the jump. -/
structure HandoffSetup where
  efimap : UInt64
  mapBytes : UInt64
  sypasCap : UInt64
  kernelPlan : ElfLoadPlan
  entry : UInt64
  bootinfo : UInt64
  stackBase : UInt64
  stackSize : UInt64

/-- What the loop does, as seen from outside. -/
inductive HandoffEvent where
  | getMemoryMap (size : UInt64) (answer : MapAnswer)
  | exitBootServices (key : UInt64) (info : BootMap) (status : UInt64)
  | outputString (text : String)
  | stall (microseconds : ℕ)
  | jump (rsp rdi rip : UInt64)

/-- Where the loop is: before a call, reporting, about to jump, or at an end. The
    translator may also not come back. -/
inductive HandoffPhase where
  | query (attempt : ℕ)
  | exit (attempt : ℕ)
  | report (texts : List String)
  | leave
  | halted
  | jumped
  | translating
deriving DecidableEq

structure HandoffState where
  phase : HandoffPhase
  ram : Ram
  mapkey : UInt64
  info : BootMap

/-- `smap`. -/
def HandoffSetup.smap (setup : HandoffSetup) : UInt64 := setup.efimap + setup.mapBytes

/-- The translation of the map that is in the buffer. The fuel is enough for every
    translation that ends. -/
def HandoffSetup.translate (setup : HandoffSetup) (size stride : UInt64) (ram : Ram) :
    Option MapResult × Ram :=
  sypasTranslateMemoryMap (setup.kernelPlan.segs.length + 1) setup.efimap.toNat size stride
    setup.kernelPlan setup.sypasCap 0 ram

/-- The code after `GetMemoryMap`. -/
def afterMap (setup : HandoffSetup) (attempt : ℕ) (answer : MapAnswer) (s : HandoffState) :
    HandoffState :=
  let stored : Ram := (storeBytes setup.efimap.toNat answer.map s.ram).2
  if efiError answer.status then
    { s with
      phase := if attempt = 0 then .report (die "GetMemoryMap failed" answer.status) else .halted,
      ram := stored, mapkey := answer.key }
  else
    let (result, ram) := setup.translate answer.size answer.stride stored
    match result with
    | none => { s with phase := .translating, ram, mapkey := answer.key }
    | some res =>
      if res.status ≠ .ok then
        { s with
          phase := if attempt = 0 then .report (rejectedTexts res.status res.diagnostic)
            else .halted,
          ram, mapkey := answer.key }
      else
        { phase := .exit attempt, ram, mapkey := answer.key,
          info := ⟨setup.smap, res.outCount, res.out⟩ }

/-- The code after `ExitBootServices`. -/
def afterExit (attempt : ℕ) (status : UInt64) (s : HandoffState) : HandoffState :=
  { s with
    phase := if ¬efiError status then .leave
      else if attempt = 3 then .halted else .query (attempt + 1) }

/-- One event, given the firmware's answers to the two calls. -/
def handoffStep (setup : HandoffSetup) (answer : MapAnswer) (status : UInt64) (s : HandoffState) :
    Option (HandoffEvent × HandoffState) :=
  match s.phase with
  | .query attempt => some (.getMemoryMap setup.mapBytes answer, afterMap setup attempt answer s)
  | .exit attempt => some (.exitBootServices s.mapkey s.info status, afterExit attempt status s)
  | .report (text :: texts) => some (.outputString text, { s with phase := .report texts })
  | .report [] => some (.stall 1000000, s)
  | .leave => some (.jump (setup.stackBase + setup.stackSize) setup.bootinfo setup.entry,
      { s with phase := .jumped })
  | .halted | .jumped | .translating => none

/-- The runs of the loop with their traces, latest event last. -/
inductive HandoffRun (setup : HandoffSetup) (start : HandoffState) :
    List HandoffEvent → HandoffState → Prop where
  | nil : HandoffRun setup start [] start
  | step {trace : List HandoffEvent} {s s' : HandoffState} {e : HandoffEvent}
      (answer : MapAnswer) (status : UInt64) (run : HandoffRun setup start trace s)
      (h : handoffStep setup answer status s = some (e, s')) :
      HandoffRun setup start (trace ++ [e]) s'

/-! ## Safe traces -/

namespace HandoffEvent

def IsExit : HandoffEvent → Bool
  | exitBootServices .. => true
  | _ => false

/-- Not a firmware call, or one of the two that may follow a first `ExitBootServices`. -/
def Quiet : HandoffEvent → Prop
  | outputString _ | stall _ => False
  | _ => True

/-- Boot services are gone once the call succeeds. -/
def Succeeded : HandoffEvent → Prop
  | exitBootServices _ _ status => efiError status = false
  | _ => False

def IsJump : HandoffEvent → Prop
  | jump .. => True
  | _ => False

end HandoffEvent

/-- The boot information describes the translation of the map in the answer. -/
def BootMap.Describes (info : BootMap) (setup : HandoffSetup) (answer : MapAnswer) : Prop :=
  ∃ ram res, bytesAt ram.mem setup.efimap.toNat answer.map.length = answer.map ∧
    (setup.translate answer.size answer.stride ram).1 = some res ∧ res.status = .ok ∧
    info = ⟨setup.smap, res.outCount, res.out⟩

/-- The handoff protocol, as a property of a trace. -/
structure HandoffSafe (setup : HandoffSetup) (trace : List HandoffEvent) : Prop where
  quiet : ∀ pre e post, trace = pre ++ e :: post → (∃ x ∈ pre, x.IsExit) → e.Quiet
  fresh : ∀ pre key info status post, trace = pre ++ .exitBootServices key info status :: post →
    ∃ pre' size answer, pre = pre' ++ [.getMemoryMap size answer] ∧
      efiError answer.status = false ∧ key = answer.key ∧ info.Describes setup answer
  few : trace.countP HandoffEvent.IsExit ≤ 4
  leaves : ∀ pre e post, trace = pre ++ e :: post → e.IsJump →
    ∃ pre' x, pre = pre' ++ [x] ∧ x.Succeeded
  silent : ∀ pre x post, trace = pre ++ x :: post → x.Succeeded → ∀ e ∈ post, e.IsJump

/-- Where an element stands in a list with one more element. -/
theorem concat_eq_append_cons_iff {α : Type*} {l pre post : List α} {x e : α} :
    l ++ [x] = pre ++ e :: post ↔
      (l = pre ∧ x = e ∧ post = []) ∨ ∃ post', post = post' ++ [x] ∧ l = pre ++ e :: post' := by
  constructor
  · intro h
    rcases List.eq_nil_or_concat' post with rfl | ⟨post', y, rfl⟩
    · obtain ⟨hl, hx⟩ := List.append_inj' h rfl
      exact Or.inl ⟨hl, by simpa using hx, rfl⟩
    · rw [← List.cons_append, ← List.append_assoc] at h
      obtain ⟨hl, hx⟩ := List.append_inj' h rfl
      exact Or.inr ⟨post', by simpa using hx.symm, hl⟩
  · rintro (⟨rfl, rfl, rfl⟩ | ⟨post', rfl, rfl⟩)
    · rfl
    · simp

variable {setup : HandoffSetup} {trace : List HandoffEvent}

/-- One more event keeps a trace safe under the conditions on that event alone. -/
theorem HandoffSafe.concat (h : HandoffSafe setup trace) {e : HandoffEvent}
    (hquiet : (∃ x ∈ trace, x.IsExit) → e.Quiet)
    (hfresh : ∀ key info status, e = .exitBootServices key info status →
      ∃ pre' size answer, trace = pre' ++ [.getMemoryMap size answer] ∧
        efiError answer.status = false ∧ key = answer.key ∧ info.Describes setup answer)
    (hfew : (trace ++ [e]).countP HandoffEvent.IsExit ≤ 4)
    (hleaves : e.IsJump → ∃ pre' x, trace = pre' ++ [x] ∧ x.Succeeded)
    (hsilent : (∃ x ∈ trace, x.Succeeded) → e.IsJump) : HandoffSafe setup (trace ++ [e]) where
  quiet := by
    intro pre x post heq
    obtain ⟨rfl, rfl, -⟩ | ⟨post', -, htrace⟩ := concat_eq_append_cons_iff.1 heq
    · exact hquiet
    · exact h.quiet pre x post' htrace
  fresh := by
    intro pre key info status post heq
    obtain ⟨rfl, he, -⟩ | ⟨post', -, htrace⟩ := concat_eq_append_cons_iff.1 heq
    · exact hfresh key info status he
    · exact h.fresh pre key info status post' htrace
  few := hfew
  leaves := by
    intro pre x post heq
    obtain ⟨rfl, rfl, -⟩ | ⟨post', -, htrace⟩ := concat_eq_append_cons_iff.1 heq
    · exact hleaves
    · exact h.leaves pre x post' htrace
  silent := by
    intro pre x post heq hx y hy
    obtain ⟨-, -, rfl⟩ | ⟨post', rfl, htrace⟩ := concat_eq_append_cons_iff.1 heq
    · cases hy
    · obtain hy | hy := List.mem_append.1 hy
      · exact h.silent pre x post' htrace hx y hy
      · rw [List.mem_singleton.1 hy]
        exact hsilent ⟨x, by simp [htrace], hx⟩

/-! ## Every run is safe -/

/-- Every `ExitBootServices` so far has failed, and there were `n` of them. -/
structure Failed (trace : List HandoffEvent) (n : ℕ) : Prop where
  count : trace.countP HandoffEvent.IsExit = n
  failed : ∀ x ∈ trace, ¬x.Succeeded

/-- What the loop's position says about the trace. -/
def PhaseOk (setup : HandoffSetup) (trace : List HandoffEvent) (s : HandoffState) : Prop :=
  match s.phase with
  | .query attempt => attempt ≤ 3 ∧ Failed trace attempt
  | .exit attempt => attempt ≤ 3 ∧ Failed trace attempt ∧
      ∃ pre size answer, trace = pre ++ [.getMemoryMap size answer] ∧
        efiError answer.status = false ∧ s.mapkey = answer.key ∧ s.info.Describes setup answer
  | .report _ => Failed trace 0
  | .leave => ∃ pre x, trace = pre ++ [x] ∧ x.Succeeded
  | .halted | .jumped | .translating => True

theorem Failed.concat {n : ℕ} (h : Failed trace n) {e : HandoffEvent} (hexit : e.IsExit = false)
    (hno : ¬e.Succeeded) : Failed (trace ++ [e]) n where
  count := by rw [List.countP_append, List.countP_singleton, hexit, h.count]; rfl
  failed := by
    intro x hx
    obtain hx | hx := List.mem_append.1 hx
    · exact h.failed x hx
    · rwa [List.mem_singleton.1 hx]

theorem Failed.not_exit (h : Failed trace 0) : ¬∃ x ∈ trace, x.IsExit := by
  rintro ⟨x, hx, hexit⟩
  exact absurd (List.countP_eq_zero.1 h.count x hx) (not_not.2 hexit)

theorem Failed.not_succeeded {n : ℕ} (h : Failed trace n) : ¬∃ x ∈ trace, x.Succeeded := by
  rintro ⟨x, hx, hsucc⟩
  exact h.failed x hx hsucc

/-- After `GetMemoryMap`: translated, or at an end that fits the attempt. -/
theorem afterMap_phaseOk {s : HandoffState} {attempt : ℕ} (answer : MapAnswer)
    (hle : attempt ≤ 3) (h : Failed trace attempt) :
    PhaseOk setup (trace ++ [.getMemoryMap setup.mapBytes answer])
      (afterMap setup attempt answer s) := by
  have hfailed := h.concat (e := .getMemoryMap setup.mapBytes answer) rfl id
  -- an error is reported on the first attempt only; later the loader is mute
  have hend : ∀ (texts : List String) (s' : HandoffState),
      s'.phase = (if attempt = 0 then .report texts else .halted) →
      PhaseOk setup (trace ++ [.getMemoryMap setup.mapBytes answer]) s' := by
    intro texts s' hphase
    unfold PhaseOk
    rw [hphase]
    by_cases hzero : attempt = 0
    · rw [if_pos hzero]
      exact hzero ▸ hfailed
    · rw [if_neg hzero]
      trivial
  unfold afterMap
  by_cases herror : efiError answer.status = true
  · rw [if_pos herror]
    exact hend _ _ rfl
  rw [if_neg herror]
  have hstored : bytesAt (storeBytes setup.efimap.toNat answer.map s.ram).2.mem setup.efimap.toNat
      answer.map.length = answer.map := by
    rw [storeBytes_mem, bytesAt_patch]
  generalize (storeBytes setup.efimap.toNat answer.map s.ram).2 = stored at hstored ⊢
  rcases hres : setup.translate answer.size answer.stride stored with ⟨- | res, ram⟩
  · trivial
  dsimp only
  by_cases hok : res.status ≠ .ok
  · rw [if_pos hok]
    exact hend _ _ rfl
  · rw [if_neg hok]
    exact ⟨hle, hfailed, trace, setup.mapBytes, answer, rfl, by simpa using herror, rfl, stored,
      res, hstored, by rw [hres], not_not.1 hok, rfl⟩

/-- After `ExitBootServices`: the jump, the next attempt, or the end of the fourth. -/
theorem afterExit_phaseOk {s : HandoffState} {attempt : ℕ} (status : UInt64)
    (hle : attempt ≤ 3) (h : Failed trace attempt) :
    PhaseOk setup (trace ++ [.exitBootServices s.mapkey s.info status])
      (afterExit attempt status s) := by
  unfold PhaseOk afterExit
  dsimp only
  by_cases hok : efiError status = false
  · rw [if_pos (by rw [hok]; exact Bool.false_ne_true)]
    exact ⟨trace, _, rfl, hok⟩
  rw [if_neg (by simpa using hok)]
  by_cases hlast : attempt = 3
  · rw [if_pos hlast]
    trivial
  rw [if_neg hlast]
  refine ⟨by omega, ?_, fun x hx => ?_⟩
  · rw [List.countP_append, h.count]
    rfl
  · obtain hx | hx := List.mem_append.1 hx
    · exact h.failed x hx
    · rw [List.mem_singleton.1 hx]
      exact hok

/-- One step keeps the trace safe and the position in keeping with it. -/
theorem handoffStep_safe {s s' : HandoffState} {e : HandoffEvent} {answer : MapAnswer}
    {status : UInt64} (hsafe : HandoffSafe setup trace) (hphase : PhaseOk setup trace s)
    (hstep : handoffStep setup answer status s = some (e, s')) :
    HandoffSafe setup (trace ++ [e]) ∧ PhaseOk setup (trace ++ [e]) s' := by
  unfold handoffStep at hstep
  unfold PhaseOk at hphase
  cases hp : s.phase with
  | query attempt =>
    rw [hp] at hstep hphase
    cases hstep
    obtain ⟨hle, hfailed⟩ := hphase
    have hcount := (hfailed.concat (e := .getMemoryMap setup.mapBytes answer) rfl id).count
    refine ⟨hsafe.concat (fun _ => trivial) nofun (by omega) False.elim fun hsucc => ?_,
      afterMap_phaseOk answer hle hfailed⟩
    exact absurd hsucc hfailed.not_succeeded
  | exit attempt =>
    rw [hp] at hstep hphase
    cases hstep
    obtain ⟨hle, hfailed, hlast⟩ := hphase
    refine ⟨hsafe.concat (fun _ => trivial) ?_ ?_ False.elim fun hsucc => ?_,
      afterExit_phaseOk status hle hfailed⟩
    · intro key info status' heq
      cases heq
      exact hlast
    · rw [List.countP_append, hfailed.count]
      exact Nat.succ_le_succ hle
    · exact absurd hsucc hfailed.not_succeeded
  | report texts =>
    rw [hp] at hstep hphase
    -- the texts and the stall come before any exit was tried
    have hquiet : ∀ e : HandoffEvent, e.IsExit = false → ¬e.Succeeded → ¬e.IsJump →
        HandoffSafe setup (trace ++ [e]) ∧ Failed (trace ++ [e]) 0 := by
      intro e hexit hno hjump
      have hfailed := hphase.concat hexit hno
      refine ⟨hsafe.concat (fun h => absurd h hphase.not_exit) ?_
        (hfailed.count ▸ Nat.zero_le _) (fun h => absurd h hjump)
        (fun h => absurd h hphase.not_succeeded), hfailed⟩
      rintro key info status rfl
      cases hexit
    cases texts with
    | nil =>
      cases hstep
      obtain ⟨hsafe', hfailed⟩ := hquiet (.stall 1000000) rfl id id
      refine ⟨hsafe', ?_⟩
      unfold PhaseOk
      rw [hp]
      exact hfailed
    | cons text texts =>
      cases hstep
      exact hquiet (.outputString text) rfl id id
  | leave =>
    rw [hp] at hstep hphase
    cases hstep
    obtain hfew := hsafe.few
    refine ⟨hsafe.concat (fun _ => trivial) nofun ?_ (fun _ => hphase) fun _ => trivial, trivial⟩
    rw [List.countP_append]
    exact hfew
  | halted | jumped | translating =>
    rw [hp] at hstep
    cases hstep

theorem handoffRun_invariant {start s : HandoffState} (hstart : start.phase = .query 0)
    (hrun : HandoffRun setup start trace s) : HandoffSafe setup trace ∧ PhaseOk setup trace s := by
  induction hrun with
  | nil =>
    have hnil : ∀ {pre post : List HandoffEvent} {e : HandoffEvent}, [] ≠ pre ++ e :: post := by
      simp
    refine ⟨⟨fun _ _ _ h => absurd h hnil, fun _ _ _ _ _ h => absurd h hnil, Nat.zero_le _,
      fun _ _ _ h => absurd h hnil, fun _ _ _ h => absurd h hnil⟩, ?_⟩
    unfold PhaseOk
    rw [hstart]
    exact ⟨Nat.zero_le _, rfl, fun _ h => absurd h List.not_mem_nil⟩
  | step answer status _ hstep ih => exact handoffStep_safe ih.1 ih.2 hstep

/-- Whatever firmware answers, every run of the handoff loop keeps the protocol: after a
    first `ExitBootServices` only it and `GetMemoryMap` are called; each call of it takes
    the key just returned, while the boot information describes the translation of that
    very map; there are at most four; the jump comes directly after one that succeeds,
    and no firmware call does. -/
theorem handoffRun_safe {start s : HandoffState} (hstart : start.phase = .query 0)
    (hrun : HandoffRun setup start trace s) : HandoffSafe setup trace :=
  (handoffRun_invariant hstart hrun).1

theorem handoffStep_query {s : HandoffState} {attempt : ℕ} (answer : MapAnswer) (status : UInt64)
    (h : s.phase = .query attempt) : handoffStep setup answer status s =
      some (.getMemoryMap setup.mapBytes answer, afterMap setup attempt answer s) := by
  rw [handoffStep, h]

theorem handoffStep_exit {s : HandoffState} {attempt : ℕ} (answer : MapAnswer) (status : UInt64)
    (h : s.phase = .exit attempt) : handoffStep setup answer status s =
      some (.exitBootServices s.mapkey s.info status, afterExit attempt status s) := by
  rw [handoffStep, h]

/-- A handoff with one LOADER range that holds the kernel's only segment. -/
def retrySetup : HandoffSetup where
  efimap := 0x1000
  mapBytes := 0x1000
  sypasCap := 16
  kernelPlan := ⟨0x400000, 0x400000, 0x401000,
    [⟨0x400000, 0x400000, 0x401000, 0, 0, 0x1000, 5⟩], by decide⟩
  entry := 0x400000
  bootinfo := 0x8000
  stackBase := 0x10000
  stackSize := 0x10000

def retryAnswer (key : UInt64) : MapAnswer where
  status := 0
  map := bytesAt (Ram.image [(0, 4, 2), (8, 8, 0x400000), (24, 8, 2)]) 0 40
  key := key
  stride := 40
  size_lt := by rw [length_bytesAt]; decide

def retryStart : HandoffState := ⟨.query 0, ⟨fun _ => 0, []⟩, 0, ⟨0, 0, []⟩⟩

/-- The first `ExitBootServices` fails, the second succeeds. -/
theorem retriedHandoff_safe : ∃ trace s, HandoffRun retrySetup retryStart trace s ∧
    s.phase = .leave ∧ trace.length = 4 ∧ HandoffSafe retrySetup trace := by
  have h₁ : (afterMap retrySetup 0 (retryAnswer 7) retryStart).phase = .exit 0 := by
    decide +kernel
  have h₂ : (afterExit 0 efiLoadError (afterMap retrySetup 0 (retryAnswer 7) retryStart)).phase =
      .query 1 := by
    decide +kernel
  have h₃ : (afterMap retrySetup 1 (retryAnswer 9) (afterExit 0 efiLoadError
      (afterMap retrySetup 0 (retryAnswer 7) retryStart))).phase = .exit 1 := by
    decide +kernel
  have hrun := ((((HandoffRun.nil : HandoffRun retrySetup retryStart _ _).step
    (retryAnswer 7) 0 (handoffStep_query _ _ rfl)).step
    (retryAnswer 7) efiLoadError (handoffStep_exit _ _ h₁)).step
    (retryAnswer 9) 0 (handoffStep_query _ _ h₂)).step
    (retryAnswer 9) 0 (handoffStep_exit _ _ h₃)
  exact ⟨_, _, hrun, rfl, rfl, handoffRun_safe rfl hrun⟩

end Sypas
