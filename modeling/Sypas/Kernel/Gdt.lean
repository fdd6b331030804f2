import Sypas.Lib.Layout
import Sypas.Lib.X86Stack

/-!
# The global descriptor table (`kernel/arch/x86_64/gdt.c`)

The table is built in memory, and the inline assembly loads it and every segment
register with it.

## Main definitions

- `Sypas.gdtEntry` — the layout of a descriptor
- `Sypas.gdtTables`, `Sypas.gdtLoad` — the stores and the assembly of `gdt_init`

## Main results

- `Sypas.gdtLoad_reaches` — no segment load faults, and the registers name the new table
-/

namespace Sypas

open Ram X86

/-- The fields of `struct gdt_entry`. -/
inductive GdtField where
  | limitLo
  | baseLo
  | baseMid
  | access
  | gran
  | baseHi
deriving DecidableEq

def GdtField.place : GdtField → ℕ × ℕ
  | limitLo => (0, 2)
  | baseLo => (2, 2)
  | baseMid => (4, 1)
  | access => (5, 1)
  | gran => (6, 1)
  | baseHi => (7, 1)

/-- `struct gdt_entry`. -/
def gdtEntry : Layout GdtField where
  offset f := f.place.1
  width f := f.place.2
  size := 8
  inside := by rintro ⟨⟩ <;> decide
  apart := by rintro ⟨⟩ ⟨⟩ h <;> first | exact absurd rfl h | decide

/-- The fields of `struct gdt_ptr` and `struct idt_ptr`. -/
inductive PtrField where
  | limit
  | base
deriving DecidableEq

def PtrField.place : PtrField → ℕ × ℕ
  | limit => (0, 2)
  | base => (2, 8)

/-- `struct gdt_ptr` and `struct idt_ptr`. -/
def tablePtr : Layout PtrField where
  offset f := f.place.1
  width f := f.place.2
  size := 10
  inside := by rintro ⟨⟩ <;> decide
  apart := by rintro ⟨⟩ ⟨⟩ h <;> first | exact absurd rfl h | decide

/-- The assignments to a `struct gdt_ptr` or `struct idt_ptr`. -/
def storeTablePtr (ptr : UInt64) (limit : ℕ) (base : UInt64) : StateM Ram Unit := do
  tablePtr.assign ptr.toNat .limit limit
  tablePtr.assign ptr.toNat .base base.toNat

def gdtKcode : UInt16 := 0x08
def gdtKdata : UInt16 := 0x10

/-- The assignments of `gdt_set`. -/
def gdtFields (access gran : UInt8) : List (GdtField × ℕ) :=
  [(.limitLo, 0xFFFF), (.baseLo, 0), (.baseMid, 0), (.access, access.toNat), (.gran, gran.toNat),
    (.baseHi, 0)]

/-- `gdt_set`, for the table at `gdt`. -/
def gdtSet (gdt i : ℕ) (access gran : UInt8) : StateM Ram Unit :=
  gdtEntry.assignAll (gdt + 8 * i) (gdtFields access gran)

/-- The stores of `gdt_init`. -/
def gdtTables (gdt gp : UInt64) : StateM Ram Unit := do
  gdtSet gdt.toNat 0 0 0
  gdtSet gdt.toNat 1 0x9A 0xA0
  gdtSet gdt.toNat 2 0x92 0xC0
  storeTablePtr gp (3 * 8 - 1) gdt

/-- The assembly of `gdt_init`; `next` is the address of its label `1`. -/
def gdtLoad (gp next : UInt64) : List Op :=
  [.lgdt gp, .pushImm gdtKcode.toUInt64, .movImm .rax next, .push .rax]

def gdtReload : List Op :=
  [.movImm .rax gdtKdata.toUInt64, .movSeg .ds .rax, .movSeg .es .rax, .movSeg .ss .rax,
    .clear .rax, .movSeg .fs .rax, .movSeg .gs .rax]

/-! ## The table -/

/-- The table at `gdt` holds the kernel's code and data descriptors. -/
structure KernelGdt (gdt : UInt64) (mem : ℕ → UInt8) : Prop where
  code : IsCode mem (gdt.toNat + 8)
  data : IsData mem (gdt.toNat + 16)

/-- It depends on its 24 bytes only. -/
theorem KernelGdt.congr {gdt : UInt64} {mem mem' : ℕ → UInt8} (h : KernelGdt gdt mem)
    (hmem : ∀ a, gdt.toNat ≤ a → a < gdt.toNat + 24 → mem' a = mem a) : KernelGdt gdt mem' where
  code := by
    unfold IsCode
    rw [hmem _ (by omega) (by omega), hmem _ (by omega) (by omega)]
    exact h.code
  data := by
    unfold IsData
    rw [hmem _ (by omega) (by omega)]
    exact h.data

/-- A field of one byte. -/
theorem byte_eq_of_get {F : Type} {L : Layout F} {mem : ℕ → UInt8} {a v : ℕ} {f : F}
    (hwidth : L.width f = 1) (hget : L.get mem a f = v) : mem (a + L.offset f) = UInt8.ofNat v := by
  rw [Layout.get, hwidth, leNat, leNat, Nat.mul_zero, Nat.add_zero] at hget
  rw [← hget, UInt8.ofNat_toNat]

theorem gdtSet_outside {gdt i a : ℕ} {access gran : UInt8} (s : Ram)
    (h : a < gdt + 8 * i ∨ gdt + 8 * i + 8 ≤ a) :
    (gdtSet gdt i access gran s).2.mem a = s.mem a :=
  Layout.assignAll_outside _ s h

/-- The access byte and the flags of a descriptor. -/
theorem gdtSet_flags {gdt i : ℕ} {access gran : UInt8} (s : Ram) :
    (gdtSet gdt i access gran s).2.mem (gdt + 8 * i + 5) = access ∧
    (gdtSet gdt i access gran s).2.mem (gdt + 8 * i + 6) = gran := by
  have haccess : gdtEntry.get (gdtSet gdt i access gran s).2.mem (gdt + 8 * i) .access =
      access.toNat := by
    rw [gdtSet, Layout.get_assignAll]
    simp [gdtFields, gdtEntry, GdtField.place]
  have hgran : gdtEntry.get (gdtSet gdt i access gran s).2.mem (gdt + 8 * i) .gran =
      gran.toNat := by
    rw [gdtSet, Layout.get_assignAll]
    simp [gdtFields, gdtEntry, GdtField.place]
  exact ⟨(byte_eq_of_get rfl haccess).trans UInt8.ofNat_toNat,
    (byte_eq_of_get rfl hgran).trans UInt8.ofNat_toNat⟩

theorem storeTablePtr_outside {ptr base : UInt64} {limit a : ℕ} (s : Ram)
    (h : a < ptr.toNat ∨ ptr.toNat + 10 ≤ a) :
    (storeTablePtr ptr limit base s).2.mem a = s.mem a := by
  unfold storeTablePtr
  simp only [Prog.bind_run, Layout.assign_mem]
  rw [Layout.set_outside _ _ _ h, Layout.set_outside _ _ _ h]

/-- `lgdt` and `lidt` read what has been stored. -/
theorem tableAt_storeTablePtr {ptr base : UInt64} {limit : UInt16} (s : Ram) {c : Core}
    (hmem : ∀ a, ptr.toNat ≤ a → a < ptr.toNat + 10 →
      c.mem a = (storeTablePtr ptr limit.toNat base s).2.mem a) :
    c.tableAt ptr = ⟨base, limit⟩ := by
  have hlimit : tablePtr.get c.mem ptr.toNat .limit = limit.toNat := by
    rw [tablePtr.get_congr hmem, storeTablePtr]
    simp only [Prog.bind_run, Layout.assign_mem, Layout.get_set]
    exact Nat.mod_eq_of_lt limit.toNat_lt
  have hbase : tablePtr.get c.mem ptr.toNat .base = base.toNat := by
    rw [tablePtr.get_congr hmem, storeTablePtr]
    simp only [Prog.bind_run, Layout.assign_mem, Layout.get_set]
    exact Nat.mod_eq_of_lt base.toNat_lt
  refine TableRegister.mk.injEq .. ▸ ⟨?_, ?_⟩
  · change UInt64.ofNat (tablePtr.get c.mem ptr.toNat .base) = base
    rw [hbase, UInt64.ofNat_toNat]
  · change UInt16.ofNat (tablePtr.get c.mem ptr.toNat .limit) = limit
    rw [hlimit, UInt16.ofNat_toNat]

/-- What `gdt_init` stores. -/
theorem gdtTables_spec {gdt gp : UInt64} (s : Ram)
    (hapart : gp.toNat + 10 ≤ gdt.toNat ∨ gdt.toNat + 24 ≤ gp.toNat) :
    KernelGdt gdt (gdtTables gdt gp s).2.mem ∧
    (∀ c : Core, c.mem = (gdtTables gdt gp s).2.mem → c.tableAt gp = ⟨gdt, 23⟩) ∧
    ∀ a, a < gdt.toNat ∨ gdt.toNat + 24 ≤ a → a < gp.toNat ∨ gp.toNat + 10 ≤ a →
      (gdtTables gdt gp s).2.mem a = s.mem a := by
  unfold gdtTables
  simp only [Prog.bind_run]
  have hfirst := fun a => @gdtSet_outside gdt.toNat 0 a 0 0 s
  generalize (gdtSet gdt.toNat 0 0 0 s).2 = t₀ at hfirst ⊢
  have hsecond := fun a => @gdtSet_outside gdt.toNat 1 a 0x9A 0xA0 t₀
  have hcode := @gdtSet_flags gdt.toNat 1 0x9A 0xA0 t₀
  generalize (gdtSet gdt.toNat 1 0x9A 0xA0 t₀).2 = t₁ at hsecond hcode ⊢
  have hthird := fun a => @gdtSet_outside gdt.toNat 2 a 0x92 0xC0 t₁
  have hdata := @gdtSet_flags gdt.toNat 2 0x92 0xC0 t₁
  generalize (gdtSet gdt.toNat 2 0x92 0xC0 t₁).2 = t₂ at hthird hdata ⊢
  have hptr : ∀ a, a < gp.toNat ∨ gp.toNat + 10 ≤ a →
      (storeTablePtr gp (3 * 8 - 1) gdt t₂).2.mem a = t₂.mem a :=
    fun a => storeTablePtr_outside t₂
  refine ⟨⟨?_, ?_⟩, fun c hc => ?_, fun a hgdt hgp => ?_⟩
  · unfold IsCode
    rw [hptr _ (by omega), hptr _ (by omega), hthird _ (by omega), hthird _ (by omega), hcode.1,
      hcode.2]
    decide
  · unfold IsData
    rw [hptr _ (by omega), hdata.1]
    decide
  · have hstored : ∀ a, gp.toNat ≤ a → a < gp.toNat + 10 →
        c.mem a = (storeTablePtr gp (23 : UInt16).toNat gdt t₂).2.mem a :=
      fun a _ _ => congrFun hc a
    exact tableAt_storeTablePtr t₂ hstored
  · rw [hptr a hgp, hthird a (by omega), hsecond a (by omega), hfirst a (by omega)]

/-! ## The segment registers -/

def gdtRegister (gdt : UInt64) : TableRegister := ⟨gdt, 23⟩

/-- The segment registers name the descriptors of the table at `gdt`. -/
structure KernelSegments (gdt : UInt64) (c : Core) : Prop where
  table : KernelGdt gdt c.mem
  gdtr : c.gdtr = gdtRegister gdt
  cs : c.cs = gdtKcode
  data : ∀ s ∈ [Seg.ss, .ds, .es], c.segs s = gdtKdata
  null : ∀ s ∈ [Seg.fs, .gs], c.segs s = 0

section Load

variable {status : Core → UInt64} {code : Code} {gdt gp : UInt64} {c : Core}

theorem KernelGdt.canEnter (h : KernelGdt gdt c.mem) (hgdtr : c.gdtr = gdtRegister gdt) :
    c.CanEnter gdtKcode :=
  ⟨gdt.toNat + 8, by rw [hgdtr]; rfl, h.code⟩

theorem KernelGdt.canLoad (h : KernelGdt gdt c.mem) (hgdtr : c.gdtr = gdtRegister gdt) (s : Seg) :
    c.CanLoad s gdtKdata :=
  .inr ⟨gdt.toNat + 16, by rw [hgdtr]; rfl, h.data⟩

theorem canLoad_null {s : Seg} (hs : s ≠ .ss) : c.CanLoad s 0 := .inl ⟨hs, rfl⟩

/-- A segment register is loaded. -/
theorem exec_movSeg {s : Seg} {r : Reg} {selector : UInt16}
    (hreg : (c.regs r).toUInt16 = selector) (h : c.CanLoad s selector) :
    (Op.movSeg s r).exec status c = some { c with segs := Function.update c.segs s selector } := by
  subst hreg
  exact if_pos h

/-- The code behind the far return. -/
theorem execAll_gdtReload (h : KernelGdt gdt c.mem) (hgdtr : c.gdtr = gdtRegister gdt)
    (hcs : c.cs = gdtKcode) :
    ∃ d, execAll status gdtReload c = some d ∧ KernelSegments gdt d ∧ d.rsp = c.rsp ∧
      d.mem = c.mem ∧ d.idtr = c.idtr ∧ d.regs = Function.update c.regs .rax 0 ∧
      ∃ left, d.rflags = withStatus c.rflags left := by
  have hexec : execAll status gdtReload c = (execAll status [.clear .rax, .movSeg .fs .rax,
      .movSeg .gs .rax] { c.set .rax gdtKdata.toUInt64 with
        segs := Function.update (Function.update (Function.update c.segs .ds gdtKdata) .es gdtKdata)
          .ss gdtKdata }) := by
    rw [gdtReload, execAll, Op.exec, Option.bind_some]
    rw [execAll, exec_movSeg rfl (h.canLoad hgdtr .ds), Option.bind_some]
    rw [execAll, exec_movSeg rfl (h.canLoad hgdtr .es), Option.bind_some]
    rw [execAll, exec_movSeg rfl (h.canLoad hgdtr .ss), Option.bind_some]
    rfl
  rw [hexec, execAll, Op.exec, Option.bind_some]
  rw [execAll, exec_movSeg rfl (canLoad_null (by decide)), Option.bind_some]
  rw [execAll, exec_movSeg rfl (canLoad_null (by decide)), Option.bind_some]
  refine ⟨_, rfl, ⟨h, hgdtr, hcs, ?_, ?_⟩, rfl, rfl, rfl, Function.update_idem _ _ _, _, rfl⟩
  · simp [Core.set]
  · simp [Core.set]

variable (status) in
/-- The assembly of `gdt_init` runs to its end and reloads every segment register. -/
theorem gdtLoad_reaches {a next jump stop : UInt64} (hgdt : KernelGdt gdt c.mem)
    (htable : c.tableAt gp = gdtRegister gdt) (hroom : 16 ≤ c.rsp.toNat)
    (hapart : c.rsp.toNat ≤ gdt.toNat ∨ gdt.toNat + 24 ≤ c.rsp.toNat - 16)
    (hload : Listing code a ((gdtLoad gp next).map .op ++ [.lretq]) jump)
    (hreload : Listing code next (gdtReload.map .op) stop) :
    ∃ d, Reaches status code ⟨c, a⟩ ⟨d, stop⟩ ∧ KernelSegments gdt d ∧ d.rsp = c.rsp ∧
      d.idtr = c.idtr ∧ d.regs = Function.update c.regs .rax 0 ∧
      (∃ left, d.rflags = withStatus c.rflags left) ∧
      ∀ b, b < c.rsp.toNat - 16 ∨ c.rsp.toNat ≤ b → d.mem b = c.mem b := by
  obtain ⟨ret, hops, hret⟩ := hload.append
  cases hret with
  | @cons _ b _ _ _ hfetch _ =>
  -- the far return finds the label and the selector on the stack
  set c₀ : Core := { c with gdtr := c.tableAt gp } with hc₀
  set c₁ : Core := (c₀.push gdtKcode.toUInt64).set .rax next with hc₁
  have hexec : execAll status (gdtLoad gp next) c = some (c₁.push next) := rfl
  have hroom₀ : 8 ≤ c₀.rsp.toNat := by
    change 8 ≤ c.rsp.toNat
    omega
  have hrsp₁ : c₁.rsp.toNat = c.rsp.toNat - 8 := Core.toNat_push gdtKcode.toUInt64 hroom₀
  have htop₁ : c₁.Top [gdtKcode.toUInt64] :=
    ((Core.Top.nil c₀).push hroom₀).congr rfl fun _ _ _ => rfl
  have htop := htop₁.push (w := next) (by omega)
  have hmem : ∀ x, x < c.rsp.toNat - 16 ∨ c.rsp.toNat ≤ x → (c₁.push next).mem x = c.mem x := by
    intro x hx
    rw [Core.push_outside (by omega) (by omega)]
    have hbelow : x < c₀.rsp.toNat - 8 ∨ c₀.rsp.toNat ≤ x := by
      change x < c.rsp.toNat - 8 ∨ c.rsp.toNat ≤ x
      omega
    exact Core.push_outside hroom₀ hbelow
  have hgdt' : KernelGdt gdt (c₁.push next).mem := hgdt.congr fun x hlo hhi => hmem x (by omega)
  have hlret : (c₁.push next).lret =
      some ⟨{ (c₁.push next).drop 16 with cs := gdtKcode }, next⟩ := by
    unfold Core.lret
    rw [htop.top, htop.word (i := 1) rfl]
    exact if_pos (hgdt'.canEnter htable)
  obtain ⟨d, hd, hsegs, hrsp, hdmem, hidtr, hregs, hflags⟩ := @execAll_gdtReload status gdt
    { (c₁.push next).drop 16 with cs := gdtKcode } hgdt' htable rfl
  refine ⟨d, ((hops.reaches hexec).trans (reaches_of_exec hfetch hlret)).trans (hreload.reaches hd),
    hsegs, ?_, hidtr, ?_, hflags, fun x hx => ?_⟩
  · rw [hrsp]
    change c.rsp - 8 - 8 + 16 = c.rsp
    grind
  · rw [hregs]
    exact Function.update_idem _ _ _
  · rw [hdmem]
    exact hmem x hx

end Load

end Sypas
