import Sypas.Boot
import Sypas.Kernel.Tables

/-!
# The checks of the boot information

What `kmain` asks of the record that it is given, and that the loader's record has it.

## Main definitions

- `Sypas.checkBootinfo` — the code
- `Sypas.KernelAccepts` — the records that pass

## Main results

- `Sypas.checkBootinfo_decides` — any other record ends in a panic
- `Sypas.KernelEntry.kernelAccepts` — the record of the loader passes
-/

namespace Sypas

open Interaction Program

/-! ## The code -/

/-- A field of the record at `bi`. -/
@[irreducible] def bootinfoAt (mem : ℕ → UInt8) (bi : UInt64) (f : BootinfoField) : UInt64 :=
  UInt64.ofNat (sypasBootinfo.get mem bi.toNat f)

/-- `bi->f` -/
def readBootinfo (bi : UInt64) (f : BootinfoField) : KernelM UInt64 :=
  compute fun s => (bootinfoAt s.pmm.ram.mem bi f, s)

/-- The checks of `kmain`, for the record at `bi`. -/
def checkBootinfo (bi : UInt64) : KernelM Unit := do
  if bi = 0 then panic "boot: NULL bootinfo" []
  else
    let magic ← readBootinfo bi .magic
    if magic ≠ sypasBootMagic then panic "boot: bad magic %lx" [.long magic]
    else
      let major ← readBootinfo bi .versionMajor
      if major.toUInt16 ≠ sypasBootVersionMajor then
        panic "boot: unsupported protocol major %u (kernel speaks %u)"
          [.int major.toUInt32, .int sypasBootVersionMajor.toUInt32]
      else
        let size ← readBootinfo bi .size
        if size.toUInt32 < sizeofBootinfo then
          panic "boot: short bootinfo (%u bytes, need %u)"
            [.int size.toUInt32, .int sizeofBootinfo]
        else pure ()

/-! ## What passes -/

/-- A record of the protocol's first major version, with at least the fields of its first minor
    one. -/
structure KernelAccepts (mem : ℕ → UInt8) (bi : UInt64) : Prop where
  nonnull : bi ≠ 0
  magic : bootinfoAt mem bi .magic = sypasBootMagic
  major : (bootinfoAt mem bi .versionMajor).toUInt16 = sypasBootVersionMajor
  size : sizeofBootinfo ≤ (bootinfoAt mem bi .size).toUInt32

/-- What a panic puts on the console. -/
def panicLog (reason : List Char) : List Char :=
  bannerText ++ "reason : ".toList ++ reason ++ ['\n'] ++ haltedText

section Check

variable {img : KernelImage} {prompt : Bool} {k s : Kernel} {b g : Board} {out : List UInt8}
  {R : KernelEnd → Kernel → Board → Prop} {bi : UInt64}

theorem readBootinfo_wp (h : Online img prompt k b out s g) (f : BootinfoField)
    {Q : UInt64 → Kernel → Board → Prop} (hnext : Q (bootinfoAt k.pmm.ram.mem bi f) s g) :
    (readBootinfo bi f).wp (hardware img prompt) R Q s g := by
  refine wp_compute ?_
  have hpmm : s.pmm = k.pmm := by
    rw [h.at_board.kernel]
  rw [hpmm]
  exact hnext

/-- What the panic of a failed check ends in. -/
def FailsCheck (img : KernelImage) (prompt : Bool) (k : Kernel) (b : Board) (out : List UInt8)
    (e : KernelEnd) (s : Kernel) (g : Board) : Prop :=
  ∃ fmt ap reason, e = .panicked fmt ap ∧ kvprintf (literal fmt) ap = .ok reason ∧
    Logged img prompt k.alerted b.quieted out (panicLog reason) s g

theorem failsCheck_wp {fmt : String} {ap : List Arg} {Q : Unit → Kernel → Board → Prop}
    (h : Online img prompt k b out s g) (hkinds : formatKinds fmt = some (ap.map Arg.kind))
    (hbad : ¬KernelAccepts k.pmm.ram.mem bi) :
    (panic fmt ap).wp (hardware img prompt) (fun e s' g' =>
      ¬KernelAccepts k.pmm.ram.mem bi ∧ FailsCheck img prompt k b out e s' g') Q s g :=
  panic_wp h hkinds fun reason _ _ hreason hlog => ⟨hbad, fmt, ap, reason, rfl, hreason, hlog⟩

theorem formatKinds_null : formatKinds "boot: NULL bootinfo" = some [] := rfl

theorem formatKinds_magic : formatKinds "boot: bad magic %lx" = some [.long] := rfl

theorem formatKinds_major :
    formatKinds "boot: unsupported protocol major %u (kernel speaks %u)" = some [.int, .int] := rfl

theorem formatKinds_size :
    formatKinds "boot: short bootinfo (%u bytes, need %u)" = some [.int, .int] := rfl

theorem checkBootinfo_wp (h : Online img prompt k b out s g) :
    (checkBootinfo bi).wp (hardware img prompt)
      (fun e s' g' =>
        ¬KernelAccepts k.pmm.ram.mem bi ∧ FailsCheck img prompt k b out e s' g')
      (fun _ s' g' => KernelAccepts k.pmm.ram.mem bi ∧ Online img prompt k b out s' g') s g := by
  unfold checkBootinfo
  by_cases hnull : bi = 0
  · rw [if_pos hnull]
    exact failsCheck_wp h formatKinds_null fun hok => hok.nonnull hnull
  rw [if_neg hnull]
  refine wp_bind (readBootinfo_wp h .magic ?_)
  by_cases hmagic : bootinfoAt k.pmm.ram.mem bi .magic ≠ sypasBootMagic
  · rw [if_pos hmagic]
    exact failsCheck_wp h formatKinds_magic fun hok => hmagic hok.magic
  rw [if_neg hmagic]
  refine wp_bind (readBootinfo_wp h .versionMajor ?_)
  by_cases hmajor : (bootinfoAt k.pmm.ram.mem bi .versionMajor).toUInt16 ≠ sypasBootVersionMajor
  · rw [if_pos hmajor]
    exact failsCheck_wp h formatKinds_major fun hok => hmajor hok.major
  rw [if_neg hmajor]
  refine wp_bind (readBootinfo_wp h .size ?_)
  by_cases hsize : (bootinfoAt k.pmm.ram.mem bi .size).toUInt32 < sizeofBootinfo
  · rw [if_pos hsize]
    exact failsCheck_wp h formatKinds_size fun hok => UInt32.not_lt.2 hok.size hsize
  rw [if_neg hsize]
  exact wp_pure ⟨⟨hnull, not_not.1 hmagic, not_not.1 hmajor, UInt32.not_lt.1 hsize⟩, h⟩

/-- In every run the checks pass where the record is of the protocol, and otherwise stop the
    kernel with a report. -/
theorem checkBootinfo_decides (h : Online img prompt k b out s g)
    {trace : List (Interaction.Event Kernel KernelCall KernelCall.Answer)} {g' : Board}
    {y : Interaction Kernel KernelCall KernelCall.Answer (Except KernelEnd Unit)}
    (hrun : Run (hardware img prompt) g (checkBootinfo bi s) trace g' y) :
    (∀ c s' next, y = .call c s' next → Permits img s' g' c) ∧
    ∀ r s', y = .done r s' →
      KernelAccepts k.pmm.ram.mem bi ∧ r = .ok () ∧ Online img prompt k b out s' g' ∨
      ¬KernelAccepts k.pmm.ram.mem bi ∧
        ∃ e, r = .error e ∧ FailsCheck img prompt k b out e s' g' := by
  have hwp : (checkBootinfo bi).wp _ _ _ s g := checkBootinfo_wp h
  refine ⟨fun c s' next hy => ?_, fun r s' hy => ?_⟩
  · subst hy
    exact hrun.guarantee hwp
  · subst hy
    have hend := hrun.result hwp
    cases r with
    | ok a => exact Or.inl ⟨hend.1, rfl, hend.2⟩
    | error e => exact Or.inr ⟨hend.1, e, rfl, hend.2⟩

/-- A run of the checks that comes to its end. -/
theorem checkBootinfo_exists_run (h : Online img prompt k b out s g) (bi : UInt64) :
    ∃ trace g' r s', Run (hardware img prompt) g (checkBootinfo bi s) trace g' (.done r s') := by
  have hwp : (checkBootinfo bi).wp _ _ _ s g := checkBootinfo_wp h
  exact Interaction.wp.exists_run (hardware_answers img prompt) hwp

end Check

/-! ## Two records -/

/-- A processor whose memory has a record at 0x1000, with this magic number. -/
def recordCore (magic : UInt64) : X86.Core :=
  { looseCore with
    mem := Ram.image [(0x1000, 8, magic.toNat), (0x1008, 2, 1), (0x100C, 4, 360)] }

theorem bootinfoAt_record (magic : UInt64) (f : BootinfoField) :
    bootinfoAt (wiredKernel (recordCore magic)).pmm.ram.mem 0x1000 f =
      UInt64.ofNat (sypasBootinfo.get
        (Ram.image [(0x1000, 8, magic.toNat), (0x1008, 2, 1), (0x100C, 4, 360)]) 0x1000 f) := by
  rw [bootinfoAt]
  rfl

theorem record_accepted :
    KernelAccepts (wiredKernel (recordCore sypasBootMagic)).pmm.ram.mem 0x1000 where
  nonnull := by decide
  magic := by
    rw [bootinfoAt_record]
    decide +kernel
  major := by
    rw [bootinfoAt_record]
    decide +kernel
  size := by
    rw [bootinfoAt_record]
    decide +kernel

theorem record_rejected : ¬KernelAccepts (wiredKernel (recordCore 1)).pmm.ram.mem 0x1000 := by
  intro h
  have hmagic := h.magic
  rw [bootinfoAt_record] at hmagic
  exact absurd hmagic (by decide +kernel)

/-- A record with another magic number stops the kernel, and the line says so; one with the right
    one passes. -/
theorem checkBootinfo_decides_records :
    (∃ trace g' e s' reason u, Run (hardware tablesImage true) wiredBoard
        (checkBootinfo 0x1000 (wiredKernel (recordCore 1))) trace g' (.done (.error e) s') ∧
      g'.uart = some u ∧ u.queued = (textBytes (panicLog reason)).flatMap crlf) ∧
    ∃ trace g' s', Run (hardware tablesImage true) wiredBoard
      (checkBootinfo 0x1000 (wiredKernel (recordCore sypasBootMagic))) trace g'
      (.done (.ok ()) s') := by
  have hon := wired_online tablesImage
  constructor
  · obtain ⟨trace, g', r, s', hrun⟩ := checkBootinfo_exists_run (hon (recordCore 1)) 0x1000
    obtain ⟨hok, -, -⟩ | ⟨-, e, rfl, fmt, ap, reason, -, -, hlog⟩ :=
      (checkBootinfo_decides (hon (recordCore 1)) hrun).2 r s' rfl
    · exact absurd hok record_rejected
    · obtain ⟨u, hu, -, hqueued⟩ := hlog.serial rfl rfl
      exact ⟨trace, g', e, s', reason, u, hrun, hu, hqueued⟩
  · obtain ⟨trace, g', r, s', hrun⟩ :=
      checkBootinfo_exists_run (hon (recordCore sypasBootMagic)) 0x1000
    obtain ⟨-, rfl, -⟩ | ⟨hbad, -⟩ :=
      (checkBootinfo_decides (hon (recordCore sypasBootMagic)) hrun).2 r s' rfl
    · exact ⟨trace, g', s', hrun⟩
    · exact absurd record_accepted hbad

/-! ## The loader's record -/

theorem HasInfo.bootinfoAt_eq {mem : ℕ → UInt8} {bi : UInt64} {info : BootinfoField → ℕ}
    (h : HasInfo mem bi info) (f : BootinfoField) :
    bootinfoAt mem bi f = UInt64.ofNat (info f) := by
  rw [bootinfoAt, h f]

/-- The record that the loader hands over passes. -/
theorem KernelEntry.kernelAccepts {file : List UInt8} {st : UInt64} {plan : ElfLoadPlan}
    {stack smap : UInt64} {out : List MemmapEntry} {rsp rdi rip : UInt64} {mem : ℕ → UInt8}
    {g : Ledger} (h : KernelEntry file st plan stack smap out rsp rdi rip mem g)
    (hnonnull : rdi ≠ 0) : KernelAccepts mem rdi := by
  obtain ⟨located, mid, -, -, hinfo⟩ := h.info
  refine ⟨hnonnull, ?_, ?_, ?_⟩
  · rw [hinfo.bootinfoAt_eq]
    rfl
  · rw [hinfo.bootinfoAt_eq]
    rfl
  · rw [hinfo.bootinfoAt_eq]
    change sizeofBootinfo ≤ (UInt64.ofNat sizeofBootinfo.toNat).toUInt32
    decide

end Sypas
