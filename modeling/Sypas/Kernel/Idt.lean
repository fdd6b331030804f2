import Sypas.Kernel.Gdt
import Sypas.Kernel.Interrupts

/-!
# The interrupt descriptor table (`kernel/arch/x86_64/idt.c`)

The loop that gives each of the 256 vectors the gate of its stub.

## Main definitions

- `Sypas.idtEntry` — the layout of a gate
- `Sypas.idtInit` — the stores of `idt_init`

## Main results

- `Sypas.idtInit_gates` — the processor finds the stub of every vector
-/

namespace Sypas

open Ram X86 Prog

def idtEntries : ℕ := 256

/-- The fields of `struct idt_entry`. -/
inductive IdtField where
  | offsetLo
  | selector
  | ist
  | typeAttr
  | offsetMid
  | offsetHi
  | zero
deriving DecidableEq

def IdtField.place : IdtField → ℕ × ℕ
  | offsetLo => (0, 2)
  | selector => (2, 2)
  | ist => (4, 1)
  | typeAttr => (5, 1)
  | offsetMid => (6, 2)
  | offsetHi => (8, 4)
  | zero => (12, 4)

/-- `struct idt_entry`. -/
def idtEntry : Layout IdtField where
  offset f := f.place.1
  width f := f.place.2
  size := 16
  inside := by rintro ⟨⟩ <;> decide
  apart := by rintro ⟨⟩ ⟨⟩ h <;> first | exact absurd rfl h | decide

/-- The assignments of `idt_set`. -/
def idtFields (addr : UInt64) : List (IdtField × ℕ) :=
  [(.offsetLo, (addr &&& 0xFFFF).toNat), (.selector, 0x08), (.ist, 0), (.typeAttr, 0x8E),
    (.offsetMid, ((addr >>> 16) &&& 0xFFFF).toNat), (.offsetHi, (addr >>> 32).toUInt32.toNat),
    (.zero, 0)]

/-- `idt_set`, for the table at `idt`. -/
def idtSet (idt vec : ℕ) (stub : UInt64) : StateM Ram Unit :=
  idtEntry.assignAll (idt + 16 * vec) (idtFields stub)

/-- The first `n` rounds of the loop of `idt_init`, for the stubs of `isr_stub_table`. -/
def idtSetAll (idt : UInt64) (isrStubTable : UInt8 → UInt64) (n : ℕ) : StateM Ram Unit :=
  forRange 0 n fun i => idtSet idt.toNat i (isrStubTable (UInt8.ofNat i))

/-- The stores of `idt_init`. -/
def idtInit (idt idtp : UInt64) (isrStubTable : UInt8 → UInt64) : StateM Ram Unit := do
  idtSetAll idt isrStubTable idtEntries
  storeTablePtr idtp (16 * idtEntries - 1) idt

/-! ## One gate -/

theorem idtSet_outside {idt vec a : ℕ} {stub : UInt64} (s : Ram)
    (h : a < idt + 16 * vec ∨ idt + 16 * vec + 16 ≤ a) :
    (idtSet idt vec stub s).2.mem a = s.mem a :=
  Layout.assignAll_outside _ s h

/-- A gate is put together from its parts. -/
theorem gate_eq_of_get {mem : ℕ → UInt8} {a : ℕ} {stub : UInt64}
    (hlo : idtEntry.get mem a .offsetLo = stub.toNat % 2 ^ 16)
    (hmid : idtEntry.get mem a .offsetMid = stub.toNat / 2 ^ 16 % 2 ^ 16)
    (hhi : idtEntry.get mem a .offsetHi = stub.toNat / 2 ^ 32)
    (hselector : idtEntry.get mem a .selector = 0x08) (hist : idtEntry.get mem a .ist = 0)
    (htype : idtEntry.get mem a .typeAttr = 0x8E) :
    Gate.at mem a = ⟨stub, gdtKcode, 0, 0x8E⟩ := by
  have hoffset : leNat mem a 2 + 2 ^ 16 * leNat mem (a + 6) 2 + 2 ^ 32 * leNat mem (a + 8) 4 =
      stub.toNat := by
    change idtEntry.get mem a .offsetLo + 2 ^ 16 * idtEntry.get mem a .offsetMid +
      2 ^ 32 * idtEntry.get mem a .offsetHi = stub.toNat
    rw [hlo, hmid, hhi]
    omega
  have hgate : (Gate.at mem a).selector = gdtKcode :=
    congrArg UInt16.ofNat (show leNat mem (a + 2) 2 = 8 from hselector)
  have hbyte : mem (a + 4) = 0 := byte_eq_of_get rfl hist
  have hattr : mem (a + 5) = 0x8E := byte_eq_of_get rfl htype
  unfold Gate.at at hgate ⊢
  rw [hoffset, UInt64.ofNat_toNat, hbyte, hattr]
  exact congrArg (Gate.mk stub · 0 0x8E) hgate

theorem idtSet_gate (idt vec : ℕ) (stub : UInt64) (s : Ram) :
    Gate.at (idtSet idt vec stub s).2.mem (idt + 16 * vec) = ⟨stub, gdtKcode, 0, 0x8E⟩ := by
  have hlt := stub.toNat_lt
  have hlo : (stub &&& 0xFFFF).toNat = stub.toNat % 2 ^ 16 := Word.toNat_and_mask stub rfl
  have hmid : ((stub >>> 16) &&& 0xFFFF).toNat = stub.toNat / 2 ^ 16 % 2 ^ 16 := by
    rw [Word.toNat_and_mask (k := 16) (stub >>> 16) rfl, UInt64.toNat_shiftRight,
      Nat.shiftRight_eq_div_pow]
    rfl
  have hhi : (stub >>> 32).toUInt32.toNat = stub.toNat / 2 ^ 32 := by
    rw [UInt64.toNat_toUInt32, UInt64.toNat_shiftRight, Nat.shiftRight_eq_div_pow]
    exact Nat.mod_eq_of_lt (by change stub.toNat / 2 ^ 32 < 2 ^ 32; omega)
  have hget := fun f => idtEntry.get_assignAll (idt + 16 * vec) (idtFields stub) f s
  refine gate_eq_of_get ?_ ?_ ?_ ?_ ?_ ?_ <;> rw [idtSet, hget] <;>
    simp only [idtFields, hlo, hmid, hhi, idtEntry, IdtField.place]
  · simp
  · simp
  · simp
    omega
  · simp
  · simp
  · simp

/-! ## The table -/

/-- The gates of `n` vectors are in place. -/
def GatesUpTo (idt : UInt64) (isrStubTable : UInt8 → UInt64) (mem : ℕ → UInt8) (n : ℕ) : Prop :=
  ∀ i < n, Gate.at mem (idt.toNat + 16 * i) = ⟨isrStubTable (UInt8.ofNat i), gdtKcode, 0, 0x8E⟩

/-- The table at `idt` has a gate for every vector, and `idtr` names the table. -/
structure KernelIdt (idt : UInt64) (isrStubTable : UInt8 → UInt64) (c : Core) : Prop where
  gates : ∀ vec : UInt8,
    Gate.at c.mem (idt.toNat + 16 * vec.toNat) = ⟨isrStubTable vec, gdtKcode, 0, 0x8E⟩
  idtr : c.idtr = ⟨idt, 4095⟩

/-- A gate depends on its 12 bytes only. -/
theorem Gate.at_congr {mem mem' : ℕ → UInt8} {a : ℕ}
    (h : ∀ b, a ≤ b → b < a + 12 → mem' b = mem b) : Gate.at mem' a = Gate.at mem a := by
  unfold Gate.at u16At
  rw [leNat_congr fun b hlo hhi => h b (by omega) (by omega),
    leNat_congr fun b hlo hhi => h b (by omega) (by omega),
    leNat_congr fun b hlo hhi => h b (by omega) (by omega),
    leNat_congr fun b hlo hhi => h b (by omega) (by omega), h _ (by omega) (by omega),
    h _ (by omega) (by omega)]

variable {idt idtp : UInt64} {isrStubTable : UInt8 → UInt64}

theorem idtSetAll_spec {n : ℕ} (hn : n ≤ 256) (s : Ram) :
    GatesUpTo idt isrStubTable (idtSetAll idt isrStubTable n s).2.mem n ∧
      ∀ a, a < idt.toNat ∨ idt.toNat + 4096 ≤ a →
        (idtSetAll idt isrStubTable n s).2.mem a = s.mem a := by
  refine forRange_invariant (fun n (t : Ram) => GatesUpTo idt isrStubTable t.mem n ∧
    ∀ a, a < idt.toNat ∨ idt.toNat + 4096 ≤ a → t.mem a = s.mem a) (Nat.zero_le _) ?_ ?_
  · exact ⟨fun i hi => absurd hi (Nat.not_lt_zero i), fun _ _ => rfl⟩
  · rintro k t - hk ⟨hgates, hframe⟩
    refine ⟨fun i hi => ?_, fun a ha => ?_⟩
    · obtain rfl | hlt := Nat.eq_or_lt_of_le (Nat.le_of_lt_succ hi)
      · exact idtSet_gate idt.toNat i _ t
      · rw [Gate.at_congr fun b _ hhi => idtSet_outside t (by omega)]
        exact hgates i hlt
    · rw [idtSet_outside t (by omega), hframe a ha]

/-- After `idt_init` and `lidt`, the processor finds the stub of every vector behind an interrupt
    gate of ring 0. -/
theorem idtInit_gates (s : Ram)
    (hapart : idtp.toNat + 10 ≤ idt.toNat ∨ idt.toNat + 4096 ≤ idtp.toNat) {c : Core}
    (hmem : c.mem = (idtInit idt idtp isrStubTable s).2.mem) :
    KernelIdt idt isrStubTable { c with idtr := c.tableAt idtp } ∧
    ∀ a, a < idt.toNat ∨ idt.toNat + 4096 ≤ a → a < idtp.toNat ∨ idtp.toNat + 10 ≤ a →
      c.mem a = s.mem a := by
  obtain ⟨hgates, hframe⟩ := @idtSetAll_spec idt isrStubTable idtEntries le_rfl s
  unfold idtInit at hmem
  rw [bind_run] at hmem
  generalize (idtSetAll idt isrStubTable idtEntries s).2 = t at hgates hframe hmem
  have hptr : ∀ a, a < idtp.toNat ∨ idtp.toNat + 10 ≤ a → c.mem a = t.mem a := by
    intro a ha
    rw [hmem]
    exact storeTablePtr_outside _ ha
  have hstored : ∀ a, idtp.toNat ≤ a → a < idtp.toNat + 10 →
      c.mem a = (storeTablePtr idtp (4095 : UInt16).toNat idt t).2.mem a :=
    fun a _ _ => congrFun hmem a
  refine ⟨⟨fun vec => ?_, tableAt_storeTablePtr _ hstored⟩, fun a hidt hidtp => ?_⟩
  · have hvec := vec.toNat_lt
    have hgate := hgates vec.toNat hvec
    rw [UInt8.ofNat_toNat] at hgate
    rw [← hgate]
    exact Gate.at_congr fun b _ hhi => hptr b (by omega)
  · rw [hptr a hidtp, hframe a hidt]

/-! ## Both tables -/

section Install

variable {status : Core → UInt64} {code : Code} {gdt gp : UInt64}

/-- The four objects of `gdt_init` and `idt_init`, and the two words of its far return, share no
    byte. -/
structure TablesApart (gdt gp idt idtp rsp : UInt64) : Prop where
  gp_gdt : gp.toNat + 10 ≤ gdt.toNat ∨ gdt.toNat + 24 ≤ gp.toNat
  idtp_idt : idtp.toNat + 10 ≤ idt.toNat ∨ idt.toNat + 4096 ≤ idtp.toNat
  idt_gdt : idt.toNat + 4096 ≤ gdt.toNat ∨ gdt.toNat + 24 ≤ idt.toNat
  idtp_gdt : idtp.toNat + 10 ≤ gdt.toNat ∨ gdt.toNat + 24 ≤ idtp.toNat
  stack_gdt : rsp.toNat ≤ gdt.toNat ∨ gdt.toNat + 24 ≤ rsp.toNat - 16
  room : 16 ≤ rsp.toNat

/-- The stores of `idt_init` leave the segment descriptors alone. -/
theorem TablesApart.keeps_gdt {rsp : UInt64} {mem mem' : ℕ → UInt8}
    (hapart : TablesApart gdt gp idt idtp rsp) (h : KernelGdt gdt mem)
    (hframe : ∀ a, a < idt.toNat ∨ idt.toNat + 4096 ≤ a → a < idtp.toNat ∨ idtp.toNat + 10 ≤ a →
      mem' a = mem a) : KernelGdt gdt mem' := by
  refine h.congr fun a hlo hhi => hframe a ?_ ?_
  · obtain h | h := hapart.idt_gdt
    · exact Or.inr (by omega)
    · exact Or.inl (by omega)
  · obtain h | h := hapart.idtp_gdt
    · exact Or.inr (by omega)
    · exact Or.inl (by omega)

/-- From any state of the processor, `gdt_init` and `idt_init` run through and leave it with the
    kernel's segments and with a gate for every vector. -/
theorem tables_installed {c : Core} {a next jump stop : UInt64}
    (hapart : TablesApart gdt gp idt idtp c.rsp)
    (hload : Listing code a ((gdtLoad gp next).map .op ++ [.lretq]) jump)
    (hreload : Listing code next (gdtReload.map .op) stop) :
    ∃ d, Reaches status code ⟨{ c with mem := (gdtTables gdt gp ⟨c.mem, []⟩).2.mem }, a⟩
        ⟨d, stop⟩ ∧ d.rsp = c.rsp ∧
      ∀ d' : Core, d' = { d with mem := (idtInit idt idtp isrStubTable ⟨d.mem, []⟩).2.mem } →
        KernelSegments gdt { d' with idtr := d'.tableAt idtp } ∧
        KernelIdt idt isrStubTable { d' with idtr := d'.tableAt idtp } := by
  obtain ⟨hgdt, htable, -⟩ := gdtTables_spec ⟨c.mem, []⟩ hapart.gp_gdt
  obtain ⟨d, hreach, hsegs, hrsp, -⟩ := gdtLoad_reaches status
    (c := { c with mem := (gdtTables gdt gp ⟨c.mem, []⟩).2.mem }) hgdt (htable _ rfl) hapart.room
    hapart.stack_gdt hload hreload
  refine ⟨d, hreach, hrsp, ?_⟩
  intro d' hd'
  generalize hstored : (idtInit idt idtp isrStubTable ⟨d.mem, []⟩).2.mem = stored at hd'
  have hmem : d'.mem = (idtInit idt idtp isrStubTable ⟨d.mem, []⟩).2.mem := by
    rw [hstored, hd']
  obtain ⟨hidt, hframe⟩ := idtInit_gates ⟨d.mem, []⟩ hapart.idtp_idt hmem
  have htable' : KernelGdt gdt d'.mem := hapart.keeps_gdt hsegs.table hframe
  subst hd'
  exact ⟨⟨htable', hsegs.gdtr, hsegs.cs, hsegs.data, hsegs.null⟩, hidt⟩

end Install

/-- The assembly of `gdt_init`, at 0x3000 and behind the label at 0x3100. -/
def gdtText : Code := fun a =>
  if a.toNat < 0x3100 then
    (((gdtLoad 0x8100 0x3100).map .op ++ [.lretq])[a.toNat - 0x3000]?).map fun i => (i, a + 1)
  else ((gdtReload.map .op)[a.toNat - 0x3100]?).map fun i => (i, a + 1)

/-- The processor as the loader may leave it. -/
def looseCore : Core where
  regs := fun _ => 0
  rsp := 0xA000
  rflags := 2
  cs := 0x38
  segs := fun _ => 0x30
  gdtr := ⟨0, 0⟩
  idtr := ⟨0, 0⟩
  mem := fun _ => 0

theorem looseCore_tables : ∃ d stop,
    Reaches (fun _ => 0) gdtText
        ⟨{ looseCore with mem := (gdtTables 0x8000 0x8100 ⟨looseCore.mem, []⟩).2.mem }, 0x3000⟩
        ⟨d, stop⟩ ∧ d.rsp = looseCore.rsp ∧
      ∀ d' : Core, d' = { d with mem := (idtInit 0x6000 0x8200 UInt8.toUInt64 ⟨d.mem, []⟩).2.mem } →
        KernelSegments 0x8000 { d' with idtr := d'.tableAt 0x8200 } ∧
        KernelIdt 0x6000 UInt8.toUInt64 { d' with idtr := d'.tableAt 0x8200 } := by
  have hload : Listing gdtText 0x3000 ((gdtLoad 0x8100 0x3100).map .op ++ [.lretq]) 0x3005 :=
    .of_follow (by decide +kernel)
  have hreload : Listing gdtText 0x3100 (gdtReload.map .op) 0x3107 := .of_follow (by decide +kernel)
  have hapart : TablesApart 0x8000 0x8100 0x6000 0x8200 looseCore.rsp :=
    ⟨by decide, by decide, by decide, by decide, by decide, by decide⟩
  obtain ⟨d, h⟩ := tables_installed hapart hload hreload
  exact ⟨d, _, h⟩

end Sypas
