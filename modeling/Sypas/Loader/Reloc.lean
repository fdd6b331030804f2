import Sypas.Lib.Memory
import Sypas.Loader.Arith

/-!
# Bounded self-relocation (`bootloader/uefi/reloc.c`)

`sypasReloc` runs over a flat memory and logs its accesses. Both tables are
read from memory entry by entry, so an entry may already have been overwritten
by an earlier relocation when it is read.

## Main definitions

- `Sypas.sypasReloc` — the relocator

## Main results

- `Sypas.sypasReloc_confined` — all accesses stay inside the image
- `Sypas.sypasReloc_accesses` — a bound on the number of accesses
- `Sypas.sypasReloc_bounded` — termination, bounds and frame together
-/

namespace Sypas

open Ram

/-- `Elf64_Dyn`. -/
structure Elf64Dyn where
  dTag : Int64
  dVal : UInt64

/-- `Elf64_Rela`. -/
structure Elf64Rela where
  rOffset : UInt64
  rInfo : UInt64
  rAddend : Int64

def dtNull : Int64 := 0
def dtRela : Int64 := 7
def dtRelasz : Int64 := 8
def dtRelaent : Int64 := 9

def rX8664Relative : UInt32 := 8

def sizeofElf64Dyn : UInt64 := 16
def sizeofElf64Rela : UInt64 := 24

theorem toNat_sizeofElf64Dyn : sizeofElf64Dyn.toNat = 16 := rfl

theorem toNat_sizeofElf64Rela : sizeofElf64Rela.toNat = 24 := rfl

def Elf64Dyn.at (mem : ℕ → UInt8) (a : ℕ) : Elf64Dyn where
  dTag := (u64At mem a).toInt64
  dVal := u64At mem (a + 8)

def Elf64Rela.at (mem : ℕ → UInt8) (a : ℕ) : Elf64Rela where
  rOffset := u64At mem a
  rInfo := u64At mem (a + 8)
  rAddend := (u64At mem (a + 16)).toInt64

/-- base + addend for a signed addend, or `none` when the sum leaves 64 bits. -/
def addSignedOk (base : UInt64) (addend : Int64) : Option UInt64 :=
  if addend ≥ 0 then addOk base addend.toUInt64
  else
    -- Avoid negating INT64_MIN as a signed value.
    let magnitude := 0 - addend.toUInt64
    if base < magnitude then none else some (base - magnitude)

/-- The locals filled by the scan of the dynamic table. -/
structure DynScan where
  rela : UInt64 := 0
  relasz : UInt64 := 0
  relaent : UInt64 := sizeofElf64Rela
  haveRela : Bool := false
  haveRelasz : Bool := false
  terminated : Bool := false

/-- The `switch (d->d_tag)` of the scan. -/
def DynScan.record (scan : DynScan) (d : Elf64Dyn) : DynScan :=
  if d.dTag = dtRela then { scan with rela := d.dVal, haveRela := true }
  else if d.dTag = dtRelasz then { scan with relasz := d.dVal, haveRelasz := true }
  else if d.dTag = dtRelaent then { scan with relaent := d.dVal }
  else scan

/-- The scan loop from entry `i` on, with `n` entries left before the image end. -/
def scanDynamic (dynamic : ℕ) : (n i : ℕ) → DynScan → StateM Ram DynScan
  | 0, _, scan => pure scan
  | n + 1, i, scan => do
    let d ← readWith Elf64Dyn.at (dynamic + 16 * i) 16
    if d.dTag = dtNull then pure { scan with terminated := true }
    else scanDynamic dynamic n (i + 1) (scan.record d)

/-- The checks on one table entry: the address and value it stores, or `none`
    when the entry is refused. -/
def checkRelocation (base imageSize : UInt64) (r : Elf64Rela) : Option (UInt64 × UInt64) :=
  if r.rInfo.toUInt32 ≠ rX8664Relative then none
  else if r.rOffset > imageSize ∨ 8 > imageSize - r.rOffset then none
  else match addOk base r.rOffset, addSignedOk base r.rAddend with
    | some target, some value => some (target, value)
    | _, _ => none

/-- The relocation loop from entry `i` on, with `n` entries left in the table. -/
def applyRelocations (base imageSize : UInt64) (table : ℕ) : (n i : ℕ) → StateM Ram UInt64
  | 0, _ => pure 0
  | n + 1, i => do
    let r ← readWith Elf64Rela.at (table + 24 * i) 24
    match checkRelocation base imageSize r with
    | none => pure 1
    | some (target, value) =>
      write64 target.toNat value
      applyRelocations base imageSize table n (i + 1)

/-- `sypas_reloc`: 0 on success, 1 on any malformed input. -/
def sypasReloc (base imageSize dynamic : UInt64) : StateM Ram UInt64 :=
  if imageSize = 0 then pure 1
  else match addOk base imageSize with
    | none => pure 1
    | some imageEnd =>
      if dynamic < base ∨ dynamic > imageEnd ∨ imageEnd - dynamic < sizeofElf64Dyn then pure 1
      else do
        let maxDynamicEntries := (imageEnd - dynamic) / sizeofElf64Dyn
        let scan ← scanDynamic dynamic.toNat maxDynamicEntries.toNat 0 {}
        if !scan.terminated ∨ scan.haveRela ≠ scan.haveRelasz then pure 1
        else if !scan.haveRela then pure 0                    -- no relocation table
        else if scan.relaent ≠ sizeofElf64Rela ∨ scan.relasz % scan.relaent ≠ 0 then pure 1
        else if scan.rela > imageSize ∨ scan.relasz > imageSize - scan.rela then pure 1
        else
          let table := base + scan.rela
          let count := scan.relasz / scan.relaent
          applyRelocations base imageSize table.toNat count.toNat 0

/-! ## Confinement -/

/-- The addresses of the loaded image. -/
def image (base imageSize : UInt64) : Set ℕ :=
  Set.Ico base.toNat (base.toNat + imageSize.toNat)

theorem scanDynamic_confined {S : Set ℕ} {dynamic : ℕ} {n i : ℕ} {scan : DynScan}
    (h : ∀ a, dynamic + 16 * i ≤ a → a < dynamic + 16 * (i + n) → a ∈ S) :
    Confined S (scanDynamic dynamic n i scan) := by
  induction n generalizing i scan with
  | zero => exact Confined.pure S scan
  | succ n ih =>
    rw [scanDynamic]
    refine Confined.bind (Confined.readWith fun a ha ha' => h a ha (by omega)) fun d => ?_
    refine Confined.ite (fun _ => Confined.pure S _) fun _ => ?_
    exact ih fun a ha ha' => h a (by omega) (by omega)

/-- An accepted entry stores eight bytes inside the image. -/
theorem checkRelocation_target {base imageSize target value : UInt64} {r : Elf64Rela}
    (h : checkRelocation base imageSize r = some (target, value)) :
    base.toNat ≤ target.toNat ∧ target.toNat + 8 ≤ base.toNat + imageSize.toNat := by
  unfold checkRelocation at h
  split at h
  · contradiction
  split at h
  · contradiction
  next hoff =>
  split at h
  · next target' value' htarget _ =>
    obtain ⟨rfl, rfl⟩ := Prod.mk.inj (Option.some.inj h)
    obtain ⟨_, htarget⟩ := addOk_eq_some_iff.1 htarget
    simp only [not_or, gt_iff_lt, UInt64.not_lt] at hoff
    obtain ⟨hle, hroom⟩ := hoff
    rw [UInt64.le_iff_toNat_le, UInt64.toNat_sub_of_le _ _ hle] at hroom
    rw [UInt64.le_iff_toNat_le] at hle
    have h8 : (8 : UInt64).toNat = 8 := rfl
    omega
  · contradiction

/-- The table entries are inside the image by hypothesis; the targets are
    inside it by the checks made on each entry as it is read. -/
theorem applyRelocations_confined {base imageSize : UInt64} {table n i : ℕ}
    (h : ∀ a, table + 24 * i ≤ a → a < table + 24 * (i + n) → a ∈ image base imageSize) :
    Confined (image base imageSize) (applyRelocations base imageSize table n i) := by
  induction n generalizing i with
  | zero => exact Confined.pure _ _
  | succ n ih =>
    rw [applyRelocations]
    refine Confined.bind (Confined.readWith fun a ha ha' => h a ha (by omega)) fun r => ?_
    split
    · exact Confined.pure _ _
    · next target value hcheck =>
      have htarget := checkRelocation_target hcheck
      refine Confined.bind (Confined.write64 fun a ha ha' => ⟨by omega, by omega⟩) fun _ => ?_
      exact ih fun a ha ha' => h a (by omega) (by omega)

/-- What the bound checks on the dynamic pointer establish. -/
theorem dynamic_span {base imageEnd dynamic : UInt64}
    (h : ¬(dynamic < base ∨ dynamic > imageEnd ∨ imageEnd - dynamic < sizeofElf64Dyn)) :
    base.toNat ≤ dynamic.toNat ∧ (imageEnd - dynamic).toNat = imageEnd.toNat - dynamic.toNat := by
  simp only [not_or, gt_iff_lt, UInt64.not_lt] at h
  exact ⟨UInt64.le_iff_toNat_le.1 h.1, UInt64.toNat_sub_of_le _ _ h.2.1⟩

/-- The check on the size of the table's entries. -/
theorem table_shape_iff {relaent relasz : UInt64} :
    (relaent ≠ sizeofElf64Rela ∨ relasz % relaent ≠ 0) ↔
      ¬(relaent = sizeofElf64Rela ∧ relasz.toNat % 24 = 0) := by
  rw [not_and_or]
  refine or_congr_right' fun hent => not_congr ?_
  rw [not_not.1 hent, ← UInt64.toNat_inj, UInt64.toNat_mod, toNat_sizeofElf64Rela,
    UInt64.toNat_zero]

/-- The check on the place of the table: the sum of offset and size is not formed. -/
theorem table_room_iff {imageSize rela relasz : UInt64} :
    (rela > imageSize ∨ relasz > imageSize - rela) ↔
      ¬rela.toNat + relasz.toNat ≤ imageSize.toNat := by
  rw [gt_iff_lt, UInt64.lt_iff_toNat_lt]
  by_cases hle : rela.toNat ≤ imageSize.toNat
  · rw [gt_iff_lt, UInt64.lt_iff_toNat_lt,
      UInt64.toNat_sub_of_le _ _ (UInt64.le_iff_toNat_le.2 hle)]
    omega
  · exact iff_of_true (.inl (not_le.1 hle)) (by omega)

/-- What the checks on the relocation table's entry size, size and offset establish. -/
theorem table_span {imageSize : UInt64} {scan : DynScan}
    (hent : ¬(scan.relaent ≠ sizeofElf64Rela ∨ scan.relasz % scan.relaent ≠ 0))
    (htab : ¬(scan.rela > imageSize ∨ scan.relasz > imageSize - scan.rela)) :
    (scan.relasz / scan.relaent).toNat = scan.relasz.toNat / 24 ∧
      scan.rela.toNat + scan.relasz.toNat ≤ imageSize.toNat := by
  have hshape := not_not.1 (mt table_shape_iff.2 hent)
  rw [UInt64.toNat_div, hshape.1, toNat_sizeofElf64Rela]
  exact ⟨rfl, not_not.1 (mt table_room_iff.2 htab)⟩

theorem sypasReloc_confined (base imageSize dynamic : UInt64) :
    Confined (image base imageSize) (sypasReloc base imageSize dynamic) := by
  unfold sypasReloc
  refine Confined.ite (fun _ => Confined.pure _ _) fun _ => ?_
  split
  · exact Confined.pure _ _
  next imageEnd hend =>
  obtain ⟨hwrap, hend⟩ := addOk_eq_some_iff.1 hend
  refine Confined.ite (fun _ => Confined.pure _ _) fun hdyn => ?_
  obtain ⟨hlo, hspan⟩ := dynamic_span hdyn
  refine Confined.bind (scanDynamic_confined fun a ha ha' => ?_) fun scan => ?_
  · rw [UInt64.toNat_div, hspan, toNat_sizeofElf64Dyn] at ha'
    exact ⟨by omega, by omega⟩
  refine Confined.ite (fun _ => Confined.pure _ _) fun _ => ?_
  refine Confined.ite (fun _ => Confined.pure _ _) fun _ => ?_
  refine Confined.ite (fun _ => Confined.pure _ _) fun hent => ?_
  refine Confined.ite (fun _ => Confined.pure _ _) fun htab => ?_
  obtain ⟨hcount, hroom⟩ := table_span hent htab
  have htable : (base + scan.rela).toNat = base.toNat + scan.rela.toNat :=
    Word.toNat_add_of_lt (by omega)
  refine applyRelocations_confined fun a ha ha' => ?_
  rw [hcount] at ha'
  exact ⟨by omega, by omega⟩

/-! ## Termination -/

theorem scanDynamic_accesses (dynamic n i : ℕ) (scan : DynScan) :
    AtMost n (scanDynamic dynamic n i scan) := by
  induction n generalizing i scan with
  | zero => exact AtMost.pure 0 scan
  | succ n ih =>
    rw [scanDynamic, Nat.add_comm]
    refine AtMost.bind (AtMost.readWith _ _ _) fun d => ?_
    exact AtMost.ite (fun _ => AtMost.pure n _) fun _ => ih (i + 1) _

theorem applyRelocations_accesses (base imageSize : UInt64) (table n i : ℕ) :
    AtMost (2 * n) (applyRelocations base imageSize table n i) := by
  induction n generalizing i with
  | zero => exact AtMost.pure 0 _
  | succ n ih =>
    rw [applyRelocations, show 2 * (n + 1) = 1 + (1 + 2 * n) by omega]
    refine AtMost.bind (AtMost.readWith _ _ _) fun r => ?_
    split
    · exact AtMost.pure _ _
    · exact AtMost.bind (AtMost.write64 _ _) fun _ => ih (i + 1)

/-- The relocator makes at most one access for each dynamic entry that fits the
    image and two for each relocation that does. -/
theorem sypasReloc_accesses (base imageSize dynamic : UInt64) :
    AtMost (imageSize.toNat / 16 + 2 * (imageSize.toNat / 24))
      (sypasReloc base imageSize dynamic) := by
  unfold sypasReloc
  refine AtMost.ite (fun _ => AtMost.pure _ _) fun _ => ?_
  split
  · exact AtMost.pure _ _
  next imageEnd hend =>
  obtain ⟨_, hend⟩ := addOk_eq_some_iff.1 hend
  refine AtMost.ite (fun _ => AtMost.pure _ _) fun hdyn => ?_
  obtain ⟨hlo, hspan⟩ := dynamic_span hdyn
  refine AtMost.bind ((scanDynamic_accesses _ _ _ _).mono ?_) fun scan => ?_
  · rw [UInt64.toNat_div, hspan, toNat_sizeofElf64Dyn]
    exact Nat.div_le_div_right (by omega)
  refine AtMost.ite (fun _ => AtMost.pure _ _) fun _ => ?_
  refine AtMost.ite (fun _ => AtMost.pure _ _) fun _ => ?_
  refine AtMost.ite (fun _ => AtMost.pure _ _) fun hent => ?_
  refine AtMost.ite (fun _ => AtMost.pure _ _) fun htab => ?_
  refine (applyRelocations_accesses _ _ _ _ _).mono ?_
  obtain ⟨hcount, hroom⟩ := table_span hent htab
  rw [hcount]
  have := Nat.div_le_div_right (c := 24) (show scan.relasz.toNat ≤ imageSize.toNat by omega)
  omega

/-- The relocator terminates, every address it touches belongs to the image, and
    no byte outside the image changes, for every content of memory. -/
theorem sypasReloc_bounded (base imageSize dynamic : UInt64) (mem : ℕ → UInt8) :
    (sypasReloc base imageSize dynamic ⟨mem, []⟩).2.log.length ≤
        imageSize.toNat / 16 + 2 * (imageSize.toNat / 24) ∧
      (∀ acc ∈ (sypasReloc base imageSize dynamic ⟨mem, []⟩).2.log,
        ∀ a, acc.addr ≤ a → a < acc.addr + acc.len →
          base.toNat ≤ a ∧ a < base.toNat + imageSize.toNat) ∧
      ∀ a, a < base.toNat ∨ base.toNat + imageSize.toNat ≤ a →
        (sypasReloc base imageSize dynamic ⟨mem, []⟩).2.mem a = mem a := by
  have hconf := sypasReloc_confined base imageSize dynamic
  refine ⟨?_, fun acc hacc a ha ha' => hconf.log_inside mem acc hacc a ha ha', fun a ha => ?_⟩
  · simpa using sypasReloc_accesses base imageSize dynamic ⟨mem, []⟩
  · refine hconf.mem_eq ⟨mem, []⟩ fun hin => ?_
    obtain ⟨hlo, hhi⟩ := Set.mem_Ico.1 hin
    omega

end Sypas
