import Sypas.Lib.Checksum
import Sypas.Lib.Memory

/-!
# The ACPI root pointer (`bootloader/uefi/acpi.c`, `find_acpi_rsdp`)

The validator reads a candidate through a pointer into flat memory. The loader runs it on
the entries of the firmware's configuration table and prefers the ACPI 2.0 entries.

## Main definitions

- `Sypas.sypasAcpiValidateRsdp` — the validator
- `Sypas.findAcpiRsdp` — the loader's choice
- `Sypas.ValidRsdp` — what a root pointer has to be

## Main results

- `Sypas.sypasAcpiValidateRsdp_eq_ok_iff` — the validator accepts exactly valid candidates
- `Sypas.findAcpiRsdp_spec` — which candidate is chosen, and what the verdict depends on
- `Sypas.acpiRsdp_corruption` — a change of one covered byte is detected
-/

namespace Sypas

open Checksum Ram

def rsdpV1Length : UInt32 := 20
def rsdpV2MinLength : UInt32 := 36
def rsdpMaxLength : UInt32 := 4096

/-- `sypas_acpi_rsdp_status_t`. -/
inductive AcpiRsdpStatus where
  | ok
  | errNull
  | errSignature
  | errChecksum
  | errRevision
  | errLength
  | errExtendedChecksum
deriving DecidableEq, Repr

/-- `"RSD PTR "`. -/
def rsdpSignature : List UInt8 := [0x52, 0x53, 0x44, 0x20, 0x50, 0x54, 0x52, 0x20]

/-- `revision`, at offset 15 of `acpi_rsdp_t`. -/
def rsdpRevision (mem : ℕ → UInt8) (rsdp : UInt64) : UInt8 := mem (rsdp.toNat + 15)

/-- `length`, at offset 20 of `acpi_rsdp_t`. -/
def rsdpLength (mem : ℕ → UInt8) (rsdp : UInt64) : UInt32 := u32At mem (rsdp.toNat + 20)

/-- `equal_signature`. -/
def equalSignature (mem : ℕ → UInt8) (signature : ℕ) : Bool :=
  (List.range 8).all fun i => mem (signature + i) = rsdpSignature.getD i 0

/-- `checksum_ok`. -/
def checksumOk (mem : ℕ → UInt8) (data : ℕ) (length : UInt32) : Bool :=
  sum8 mem data length.toNat = 0

/-- `sypas_acpi_validate_rsdp`. -/
def sypasAcpiValidateRsdp (mem : ℕ → UInt8) (rsdp : UInt64) : AcpiRsdpStatus :=
  if rsdp = 0 then .errNull
  else if !equalSignature mem rsdp.toNat then .errSignature
  else if !checksumOk mem rsdp.toNat rsdpV1Length then .errChecksum
  else if rsdpRevision mem rsdp = 0 then .ok
  else if rsdpRevision mem rsdp < 2 then .errRevision
  else if rsdpLength mem rsdp < rsdpV2MinLength ∨ rsdpLength mem rsdp > rsdpMaxLength then
    .errLength
  else if !checksumOk mem rsdp.toNat (rsdpLength mem rsdp) then .errExtendedChecksum
  else .ok

/-! ## The configuration table -/

/-- `EFI_GUID`. -/
structure EfiGuid where
  data1 : UInt32
  data2 : UInt16
  data3 : UInt16
  data4 : Vector UInt8 8
deriving DecidableEq

/-- The first eight bytes of a GUID as a little-endian word. -/
def EfiGuid.low (g : EfiGuid) : UInt64 :=
  UInt64.ofNat (g.data1.toNat + 2 ^ 32 * g.data2.toNat + 2 ^ 48 * g.data3.toNat)

/-- The last eight bytes of a GUID as a little-endian word. -/
def EfiGuid.high (g : EfiGuid) : UInt64 :=
  UInt64.ofNat (leNat (fun i => g.data4.toList.getD i 0) 0 8)

/-- `guid_eq`. -/
def guidEq (a b : EfiGuid) : Bool := a.low = b.low ∧ a.high = b.high

def efiAcpi20TableGuid : EfiGuid :=
  ⟨0x8868e871, 0xe4f1, 0x11d3, #v[0xbc, 0x22, 0x00, 0x80, 0xc7, 0x3c, 0x88, 0x81]⟩

def efiAcpi10TableGuid : EfiGuid :=
  ⟨0xeb9d2d30, 0x2d88, 0x11d3, #v[0x9a, 0x16, 0x00, 0x90, 0x27, 0x3f, 0xc1, 0x4d]⟩

/-- `EFI_CONFIGURATION_TABLE`. -/
structure EfiConfigurationTable where
  vendorGuid : EfiGuid
  vendorTable : UInt64

/-- The loop of `find_acpi_rsdp`, with its fallback `v1`. -/
def findAcpiRsdpFrom (mem : ℕ → UInt8) (v1 : UInt64) : List EfiConfigurationTable → UInt64
  | [] => v1
  | ct :: rest =>
    if guidEq ct.vendorGuid efiAcpi20TableGuid ∧ sypasAcpiValidateRsdp mem ct.vendorTable = .ok then
      ct.vendorTable -- prefer ACPI >= 2.0
    else if guidEq ct.vendorGuid efiAcpi10TableGuid ∧
        sypasAcpiValidateRsdp mem ct.vendorTable = .ok then
      findAcpiRsdpFrom mem ct.vendorTable rest
    else findAcpiRsdpFrom mem v1 rest

/-- `find_acpi_rsdp`. -/
def findAcpiRsdp (mem : ℕ → UInt8) (table : List EfiConfigurationTable) : UInt64 :=
  findAcpiRsdpFrom mem 0 table

/-! ## What the validator accepts -/

/-- A root pointer: the signature, the base checksum, and for ACPI 2.0 a sensible length with
    its extended checksum. -/
structure ValidRsdp (mem : ℕ → UInt8) (rsdp : UInt64) : Prop where
  nonnull : rsdp ≠ 0
  signature : ∀ i < 8, mem (rsdp.toNat + i) = rsdpSignature.getD i 0
  checksum : byteSum mem rsdp.toNat 20 % 256 = 0
  extended : rsdpRevision mem rsdp = 0 ∨
    2 ≤ (rsdpRevision mem rsdp).toNat ∧ 36 ≤ (rsdpLength mem rsdp).toNat ∧
      (rsdpLength mem rsdp).toNat ≤ 4096 ∧
      byteSum mem rsdp.toNat (rsdpLength mem rsdp).toNat % 256 = 0

/-- The bytes that a candidate's verdict may depend on. -/
def rsdpExtent (mem : ℕ → UInt8) (rsdp : UInt64) : ℕ :=
  if rsdpRevision mem rsdp = 0 then 20 else max 24 (rsdpLength mem rsdp).toNat

/-- The bytes that the checksums of a root pointer cover. -/
def rsdpCovered (mem : ℕ → UInt8) (rsdp : UInt64) : ℕ :=
  if rsdpRevision mem rsdp = 0 then 20 else (rsdpLength mem rsdp).toNat

variable {mem mem' : ℕ → UInt8} {rsdp : UInt64}

theorem equalSignature_iff {a : ℕ} :
    equalSignature mem a = true ↔ ∀ i < 8, mem (a + i) = rsdpSignature.getD i 0 := by
  simp [equalSignature]

theorem checksumOk_iff {a : ℕ} {length : UInt32} :
    checksumOk mem a length = true ↔ byteSum mem a length.toNat % 256 = 0 := by
  rw [checksumOk, decide_eq_true_eq, sum8_eq_zero_iff]

theorem checksumOk_base_iff {a : ℕ} :
    checksumOk mem a rsdpV1Length = true ↔ byteSum mem a 20 % 256 = 0 := checksumOk_iff

theorem sypasAcpiValidateRsdp_eq_ok_iff :
    sypasAcpiValidateRsdp mem rsdp = .ok ↔ ValidRsdp mem rsdp := by
  have h2 : (2 : UInt8).toNat = 2 := rfl
  have h36 : rsdpV2MinLength.toNat = 36 := rfl
  have h4096 : rsdpMaxLength.toNat = 4096 := rfl
  unfold sypasAcpiValidateRsdp
  by_cases hnull : rsdp = 0
  · rw [if_pos hnull]
    exact ⟨fun h => (nomatch h), fun h => absurd hnull h.nonnull⟩
  rw [if_neg hnull]
  by_cases hsignature : equalSignature mem rsdp.toNat = true
  swap
  · rw [if_pos (by simpa using hsignature)]
    exact ⟨fun h => (nomatch h), fun h => absurd (equalSignature_iff.2 h.signature) hsignature⟩
  rw [if_neg (by simpa using hsignature)]
  by_cases hsum : checksumOk mem rsdp.toNat rsdpV1Length = true
  swap
  · rw [if_pos (by simpa using hsum)]
    exact ⟨fun h => (nomatch h), fun h => absurd (checksumOk_base_iff.2 h.checksum) hsum⟩
  rw [if_neg (by simpa using hsum)]
  have hbase := equalSignature_iff.1 hsignature
  have hchecksum := checksumOk_base_iff.1 hsum
  -- revision 0 has no extended part
  by_cases hold : rsdpRevision mem rsdp = 0
  · rw [if_pos hold]
    exact ⟨fun _ => ⟨hnull, hbase, hchecksum, .inl hold⟩, fun _ => rfl⟩
  rw [if_neg hold]
  -- revision 1 does not exist
  by_cases hone : rsdpRevision mem rsdp < 2
  · rw [if_pos hone]
    refine ⟨fun h => (nomatch h), fun h => ?_⟩
    rw [UInt8.lt_iff_toNat_lt, h2] at hone
    obtain hzero | ⟨htwo, -⟩ := h.extended
    · exact absurd hzero hold
    · omega
  rw [if_neg hone]
  rw [UInt8.lt_iff_toNat_lt, h2, not_lt] at hone
  by_cases hlength : rsdpLength mem rsdp < rsdpV2MinLength ∨ rsdpLength mem rsdp > rsdpMaxLength
  · rw [if_pos hlength]
    refine ⟨fun h => (nomatch h), fun h => ?_⟩
    rw [gt_iff_lt, UInt32.lt_iff_toNat_lt, UInt32.lt_iff_toNat_lt, h36, h4096] at hlength
    obtain hzero | ⟨-, hlow, hhigh, -⟩ := h.extended
    · exact absurd hzero hold
    · omega
  rw [if_neg hlength]
  rw [gt_iff_lt, UInt32.lt_iff_toNat_lt, UInt32.lt_iff_toNat_lt, h36, h4096, not_or, not_lt,
    not_lt] at hlength
  by_cases hextended : checksumOk mem rsdp.toNat (rsdpLength mem rsdp) = true
  · rw [if_neg (by simpa using hextended)]
    exact ⟨fun _ => ⟨hnull, hbase, hchecksum, .inr ⟨hone, hlength.1, hlength.2,
      checksumOk_iff.1 hextended⟩⟩, fun _ => rfl⟩
  · rw [if_pos (by simpa using hextended)]
    refine ⟨fun h => (nomatch h), fun h => ?_⟩
    obtain hzero | ⟨-, -, -, hsum'⟩ := h.extended
    · exact absurd hzero hold
    · exact absurd (checksumOk_iff.2 hsum') hextended

theorem rsdpLength_congr (h : ∀ i < 24, mem (rsdp.toNat + i) = mem' (rsdp.toNat + i)) :
    rsdpLength mem rsdp = rsdpLength mem' rsdp := by
  have hnat : leNat mem (rsdp.toNat + 20) 4 = leNat mem' (rsdp.toNat + 20) 4 := by
    apply leNat_congr
    intro b hb hb'
    have hi := h (b - rsdp.toNat) (by omega)
    rwa [Nat.add_sub_cancel' (by omega)] at hi
  rw [rsdpLength, rsdpLength, u32At, u32At, hnat]

theorem twenty_le_rsdpExtent : 20 ≤ rsdpExtent mem rsdp := by
  unfold rsdpExtent
  split <;> omega

theorem equalSignature_congr {a : ℕ} (h : ∀ i < 8, mem (a + i) = mem' (a + i)) :
    equalSignature mem a = equalSignature mem' a := by
  rw [Bool.eq_iff_iff, equalSignature_iff, equalSignature_iff]
  exact forall₂_congr fun i hi => by rw [h i hi]

theorem checksumOk_congr {a : ℕ} {length : UInt32}
    (h : ∀ i < length.toNat, mem (a + i) = mem' (a + i)) :
    checksumOk mem a length = checksumOk mem' a length := by
  rw [Bool.eq_iff_iff, checksumOk_iff, checksumOk_iff, byteSum_congr h]

/-- The verdict depends on the bytes of the extent only. The length is among them when the
    revision sends the validator there. -/
theorem sypasAcpiValidateRsdp_congr
    (h : ∀ i < rsdpExtent mem rsdp, mem (rsdp.toNat + i) = mem' (rsdp.toNat + i)) :
    sypasAcpiValidateRsdp mem rsdp = sypasAcpiValidateRsdp mem' rsdp := by
  have hbase : ∀ i < 20, mem (rsdp.toNat + i) = mem' (rsdp.toNat + i) :=
    fun i hi => h i (hi.trans_le twenty_le_rsdpExtent)
  have hsignature := equalSignature_congr fun i hi => hbase i (hi.trans (by decide))
  have hchecksum : checksumOk mem rsdp.toNat rsdpV1Length =
      checksumOk mem' rsdp.toNat rsdpV1Length := checksumOk_congr hbase
  have hrevision : rsdpRevision mem rsdp = rsdpRevision mem' rsdp := hbase 15 (by decide)
  unfold sypasAcpiValidateRsdp
  rw [← hsignature, ← hchecksum, ← hrevision]
  by_cases hold : rsdpRevision mem rsdp = 0
  · simp only [if_pos hold]
  · have hextent : rsdpExtent mem rsdp = max 24 (rsdpLength mem rsdp).toNat := if_neg hold
    have hlength : rsdpLength mem rsdp = rsdpLength mem' rsdp :=
      rsdpLength_congr fun i hi => h i (by omega)
    have hextended : checksumOk mem rsdp.toNat (rsdpLength mem rsdp) =
        checksumOk mem' rsdp.toNat (rsdpLength mem rsdp) :=
      checksumOk_congr fun i hi => h i (by omega)
    rw [← hlength, ← hextended]

/-! ## The choice -/

theorem guidEq_iff {a b : EfiGuid} : guidEq a b = true ↔ a = b := by
  refine ⟨fun h => ?_, fun h => by rw [h, guidEq]; simp⟩
  rw [guidEq, decide_eq_true_eq] at h
  obtain ⟨hlow, hhigh⟩ := h
  have ha := a.data1.toNat_lt
  have ha' := a.data2.toNat_lt
  have ha'' := a.data3.toNat_lt
  have hb := b.data1.toNat_lt
  have hb' := b.data2.toNat_lt
  have hb'' := b.data3.toNat_lt
  rw [EfiGuid.low, EfiGuid.low, ← UInt64.toNat_inj, UInt64.toNat_ofNat_of_lt' (by
    change _ < 2 ^ 64; omega), UInt64.toNat_ofNat_of_lt' (by change _ < 2 ^ 64; omega)] at hlow
  rw [EfiGuid.high, EfiGuid.high, ← UInt64.toNat_inj, UInt64.toNat_ofNat_of_lt' leNat_lt,
    UInt64.toNat_ofNat_of_lt' leNat_lt] at hhigh
  cases a with
  | mk a1 a2 a3 a4 =>
    cases b with
    | mk b1 b2 b3 b4 =>
      rw [EfiGuid.mk.injEq]
      refine ⟨UInt32.toNat_inj.1 ?_, UInt16.toNat_inj.1 ?_, UInt16.toNat_inj.1 ?_, ?_⟩
      · dsimp only at *; omega
      · dsimp only at *; omega
      · dsimp only at *; omega
      · apply Vector.ext
        intro i hi
        have hbyte := leNat_inj hhigh i (Nat.zero_le i) (by omega)
        simpa [hi] using hbyte

/-- An entry with the given GUID whose pointer is a root pointer. -/
def Candidate (mem : ℕ → UInt8) (guid : EfiGuid) (ct : EfiConfigurationTable) : Prop :=
  ct.vendorGuid = guid ∧ ValidRsdp mem ct.vendorTable

theorem candidate_iff {guid : EfiGuid} {ct : EfiConfigurationTable} :
    (guidEq ct.vendorGuid guid = true ∧ sypasAcpiValidateRsdp mem ct.vendorTable = .ok) ↔
      Candidate mem guid ct := by
  rw [guidEq_iff, sypasAcpiValidateRsdp_eq_ok_iff, Candidate]

theorem efiAcpi20_ne_efiAcpi10 : efiAcpi20TableGuid ≠ efiAcpi10TableGuid := by decide

section Choice

variable {v1 : UInt64} {ct : EfiConfigurationTable} {front back rest : List EfiConfigurationTable}

theorem findAcpiRsdpFrom_acpi20 (h : Candidate mem efiAcpi20TableGuid ct) :
    findAcpiRsdpFrom mem v1 (ct :: rest) = ct.vendorTable := by
  rw [findAcpiRsdpFrom, if_pos (candidate_iff.2 h)]

theorem findAcpiRsdpFrom_acpi10 (h : Candidate mem efiAcpi10TableGuid ct) :
    findAcpiRsdpFrom mem v1 (ct :: rest) = findAcpiRsdpFrom mem ct.vendorTable rest := by
  have hnot : ¬Candidate mem efiAcpi20TableGuid ct :=
    fun h' => efiAcpi20_ne_efiAcpi10 (h'.1.symm.trans h.1)
  rw [findAcpiRsdpFrom, if_neg (mt candidate_iff.1 hnot), if_pos (candidate_iff.2 h)]

theorem findAcpiRsdpFrom_skip (h : ¬Candidate mem efiAcpi20TableGuid ct)
    (h' : ¬Candidate mem efiAcpi10TableGuid ct) :
    findAcpiRsdpFrom mem v1 (ct :: rest) = findAcpiRsdpFrom mem v1 rest := by
  rw [findAcpiRsdpFrom, if_neg (mt candidate_iff.1 h), if_neg (mt candidate_iff.1 h')]

/-- Before the first ACPI 2.0 candidate only the fallback changes, and it is not used. -/
theorem findAcpiRsdpFrom_first (hct : Candidate mem efiAcpi20TableGuid ct)
    (hfront : ∀ c ∈ front, ¬Candidate mem efiAcpi20TableGuid c) :
    findAcpiRsdpFrom mem v1 (front ++ ct :: back) = ct.vendorTable := by
  induction front generalizing v1 with
  | nil => exact findAcpiRsdpFrom_acpi20 hct
  | cons c front ih =>
    have hrest := fun c hc => hfront c (List.mem_cons_of_mem _ hc)
    rw [List.cons_append]
    by_cases hold : Candidate mem efiAcpi10TableGuid c
    · rw [findAcpiRsdpFrom_acpi10 hold, ih hrest]
    · rw [findAcpiRsdpFrom_skip (hfront c List.mem_cons_self) hold, ih hrest]

/-- Without any candidate the fallback stands. -/
theorem findAcpiRsdpFrom_none (h : ∀ c ∈ rest, ¬Candidate mem efiAcpi20TableGuid c)
    (h' : ∀ c ∈ rest, ¬Candidate mem efiAcpi10TableGuid c) :
    findAcpiRsdpFrom mem v1 rest = v1 := by
  induction rest with
  | nil => rfl
  | cons c rest ih =>
    rw [findAcpiRsdpFrom_skip (h c List.mem_cons_self) (h' c List.mem_cons_self)]
    exact ih (fun c hc => h c (List.mem_cons_of_mem _ hc))
      fun c hc => h' c (List.mem_cons_of_mem _ hc)

/-- Without an ACPI 2.0 candidate the last ACPI 1.0 candidate stands. -/
theorem findAcpiRsdpFrom_last (hct : Candidate mem efiAcpi10TableGuid ct)
    (h : ∀ c ∈ front ++ ct :: back, ¬Candidate mem efiAcpi20TableGuid c)
    (hback : ∀ c ∈ back, ¬Candidate mem efiAcpi10TableGuid c) :
    findAcpiRsdpFrom mem v1 (front ++ ct :: back) = ct.vendorTable := by
  induction front generalizing v1 with
  | nil =>
    rw [List.nil_append, findAcpiRsdpFrom_acpi10 hct]
    exact findAcpiRsdpFrom_none (fun c hc => h c (List.mem_cons_of_mem _ hc)) hback
  | cons c front ih =>
    rw [List.cons_append] at h ⊢
    have hrest := fun c hc => h c (List.mem_cons_of_mem _ hc)
    by_cases hold : Candidate mem efiAcpi10TableGuid c
    · rw [findAcpiRsdpFrom_acpi10 hold, ih hrest]
    · rw [findAcpiRsdpFrom_skip (h c List.mem_cons_self) hold, ih hrest]

end Choice

/-- The loader hands over the first ACPI 2.0 candidate, else the last ACPI 1.0 candidate, else
    nothing; and a verdict depends on the bytes of the extent only. -/
theorem findAcpiRsdp_spec (mem : ℕ → UInt8) (table : List EfiConfigurationTable) :
    (∀ front ct back, table = front ++ ct :: back → Candidate mem efiAcpi20TableGuid ct →
      (∀ c ∈ front, ¬Candidate mem efiAcpi20TableGuid c) →
      findAcpiRsdp mem table = ct.vendorTable) ∧
    ((∀ c ∈ table, ¬Candidate mem efiAcpi20TableGuid c) →
      (∀ front ct back, table = front ++ ct :: back → Candidate mem efiAcpi10TableGuid ct →
        (∀ c ∈ back, ¬Candidate mem efiAcpi10TableGuid c) →
        findAcpiRsdp mem table = ct.vendorTable) ∧
      ((∀ c ∈ table, ¬Candidate mem efiAcpi10TableGuid c) → findAcpiRsdp mem table = 0)) ∧
    (∀ rsdp, sypasAcpiValidateRsdp mem rsdp = .ok ↔ ValidRsdp mem rsdp) ∧
    ∀ rsdp mem', (∀ i < rsdpExtent mem rsdp, mem (rsdp.toNat + i) = mem' (rsdp.toNat + i)) →
      sypasAcpiValidateRsdp mem' rsdp = sypasAcpiValidateRsdp mem rsdp := by
  refine ⟨?_, fun h => ⟨?_, fun h' => findAcpiRsdpFrom_none h h'⟩,
    fun rsdp => sypasAcpiValidateRsdp_eq_ok_iff,
    fun rsdp mem' h => (sypasAcpiValidateRsdp_congr h).symm⟩
  · rintro front ct back rfl hct hfront
    exact findAcpiRsdpFrom_first hct hfront
  · rintro front ct back rfl hct hback
    exact findAcpiRsdpFrom_last hct h hback

/-- A revision 2 root pointer at 4096 and a revision 0 one at 8192. -/
def sampleRsdps : ℕ → UInt8 := fun a =>
  if a < 8192 then
    (rsdpSignature ++ [223, 0, 0, 0, 0, 0, 0, 2, 0, 0, 0, 0, 36, 0, 0, 0] ++
      [0, 0, 0, 0, 0, 0, 0, 0, 220]).getD (a - 4096) 0
  else (rsdpSignature ++ [225]).getD (a - 8192) 0

theorem sampleRsdps_findAcpiRsdp :
    findAcpiRsdp sampleRsdps
      [⟨efiAcpi10TableGuid, 8192⟩, ⟨efiAcpi20TableGuid, 4096⟩, ⟨efiAcpi10TableGuid, 8192⟩] =
        4096 := by
  refine (findAcpiRsdp_spec sampleRsdps _).1 [⟨efiAcpi10TableGuid, 8192⟩]
    ⟨efiAcpi20TableGuid, 4096⟩ [⟨efiAcpi10TableGuid, 8192⟩] rfl ?_ ?_
  · exact ⟨rfl, sypasAcpiValidateRsdp_eq_ok_iff.1 (by decide +kernel)⟩
  · intro c hc
    rw [List.mem_singleton] at hc
    subst hc
    exact fun h => efiAcpi20_ne_efiAcpi10 h.1.symm

/-! ## Corruption -/

theorem ValidRsdp.rsdpCovered_eq (h : ValidRsdp mem rsdp) :
    rsdpCovered mem rsdp = rsdpExtent mem rsdp := by
  unfold rsdpCovered rsdpExtent
  split
  · rfl
  · obtain hzero | ⟨-, hlow, -⟩ := h.extended
    · contradiction
    · omega

/-- A changed byte of the first twenty breaks the base checksum, whatever it does to the
    revision. -/
theorem ValidRsdp.not_update_base (h : ValidRsdp mem rsdp) {k : ℕ} {b : UInt8}
    (hk : k < 20) (hb : b ≠ mem (rsdp.toNat + k)) :
    ¬ValidRsdp (Function.update mem (rsdp.toNat + k) b) rsdp :=
  fun h' => not_both_zero hk hb h.checksum h'.checksum

/-- A changed byte behind the length leaves revision and length alone and breaks the extended
    checksum. -/
theorem ValidRsdp.not_update_extended (h : ValidRsdp mem rsdp) {k : ℕ} {b : UInt8}
    (hrevision : 2 ≤ (rsdpRevision mem rsdp).toNat) (hk : 24 ≤ k)
    (hk' : k < (rsdpLength mem rsdp).toNat) (hb : b ≠ mem (rsdp.toNat + k)) :
    ¬ValidRsdp (Function.update mem (rsdp.toNat + k) b) rsdp := by
  intro h'
  have hfield : ∀ i < 24, Function.update mem (rsdp.toNat + k) b (rsdp.toNat + i) =
      mem (rsdp.toNat + i) := fun i hi => Function.update_of_ne (by omega) _ _
  have hrevision' : rsdpRevision (Function.update mem (rsdp.toNat + k) b) rsdp =
      rsdpRevision mem rsdp := hfield 15 (by decide)
  have hlength' := rsdpLength_congr hfield
  have hnonzero : rsdpRevision mem rsdp ≠ 0 := by
    intro hzero
    rw [hzero] at hrevision
    exact absurd hrevision (by decide)
  obtain hzero | ⟨-, -, -, hsum⟩ := h.extended
  · exact hnonzero hzero
  obtain hzero' | ⟨-, -, -, hsum'⟩ := h'.extended
  · exact hnonzero (hrevision' ▸ hzero')
  · rw [hlength'] at hsum'
    exact not_both_zero hk' hb hsum hsum'

/-- A change of one covered byte is detected, except in the length itself, and nothing else
    matters. -/
theorem acpiRsdp_corruption (hok : sypasAcpiValidateRsdp mem rsdp = .ok) :
    (∀ k b, b ≠ mem (rsdp.toNat + k) →
      (k < 20 ∨ 2 ≤ (rsdpRevision mem rsdp).toNat ∧ 24 ≤ k ∧ k < (rsdpLength mem rsdp).toNat) →
      sypasAcpiValidateRsdp (Function.update mem (rsdp.toNat + k) b) rsdp ≠ .ok) ∧
    ∀ mem', (∀ i < rsdpCovered mem rsdp, mem (rsdp.toNat + i) = mem' (rsdp.toNat + i)) →
      sypasAcpiValidateRsdp mem' rsdp = .ok := by
  have hvalid := sypasAcpiValidateRsdp_eq_ok_iff.1 hok
  constructor
  · intro k b hb hk hok'
    have hvalid' := sypasAcpiValidateRsdp_eq_ok_iff.1 hok'
    obtain hk | ⟨hrevision, hk, hk'⟩ := hk
    · exact hvalid.not_update_base hk hb hvalid'
    · exact hvalid.not_update_extended hrevision hk hk' hb hvalid'
  · intro mem' h
    rw [hvalid.rsdpCovered_eq] at h
    rw [← sypasAcpiValidateRsdp_congr h, hok]

theorem sampleRsdps_corruption :
    sypasAcpiValidateRsdp (Function.update sampleRsdps (4096 + 15) 0) 4096 ≠ .ok ∧
      sypasAcpiValidateRsdp (Function.update sampleRsdps (4096 + 30) 7) 4096 ≠ .ok ∧
      ∀ mem', (∀ i < 36, sampleRsdps (4096 + i) = mem' (4096 + i)) →
        sypasAcpiValidateRsdp mem' 4096 = .ok := by
  have h := @acpiRsdp_corruption sampleRsdps 4096 (by decide +kernel)
  exact ⟨h.1 15 0 (by decide +kernel) (.inl (by decide)),
    h.1 30 7 (by decide +kernel) (.inr (by decide +kernel)), h.2⟩

end Sypas
