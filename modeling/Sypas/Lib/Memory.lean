import Sypas.Lib.State

/-!
# Byte-addressed memory with an access log

Memory is a function from addresses to bytes. A program over it is a
`StateM Ram` computation whose state also records every access it makes, so
that both the final bytes and the set of touched addresses can be specified.

## Main definitions

- `Ram` — memory contents together with the accesses made so far
- `Ram.read8`, `Ram.read64`, `Ram.write64`, … — little-endian accesses
- `Ram.copyUp`, `Ram.fillUp` — the byte loops `*d++ = *s++` and `*d++ = c`
- `Ram.loadBytes`, `Ram.storeBytes` — the same loops to and from a local buffer
- `Ram.Confined` — all accesses inside a set, everything outside it unchanged
- `Ram.AtMost` — a bound on the number of accesses

## Main results

- `Ram.Confined.bind`, `Ram.AtMost.bind` — both compose along a program
- `Ram.copyUp_mem` — a copy between disjoint ranges
- `Ram.fillUp_mem` — a fill
-/

/-- One access: its direction, first address and length in bytes. -/
structure Access where
  isWrite : Bool
  addr : ℕ
  len : ℕ
deriving DecidableEq, Repr

/-- Memory contents and the log of accesses, latest first. -/
structure Ram where
  mem : ℕ → UInt8
  log : List Access

/-- An access touches only addresses of `S`. -/
def Access.Inside (S : Set ℕ) (x : Access) : Prop :=
  ∀ a, x.addr ≤ a → a < x.addr + x.len → a ∈ S

namespace Ram

variable {α β : Type}

/-! ## Little-endian values -/

/-- The unsigned value of `n` bytes stored least significant first. -/
def leNat (mem : ℕ → UInt8) (a : ℕ) : ℕ → ℕ
  | 0 => 0
  | n + 1 => (mem a).toNat + 256 * leNat mem (a + 1) n

def u16At (mem : ℕ → UInt8) (a : ℕ) : UInt16 := UInt16.ofNat (leNat mem a 2)

def u32At (mem : ℕ → UInt8) (a : ℕ) : UInt32 := UInt32.ofNat (leNat mem a 4)

def u64At (mem : ℕ → UInt8) (a : ℕ) : UInt64 := UInt64.ofNat (leNat mem a 8)

/-- `mem` with the `n` low bytes of `v` stored at `a`, least significant first. -/
def storeLe (mem : ℕ → UInt8) (a n v : ℕ) : ℕ → UInt8 := fun b =>
  if a ≤ b ∧ b < a + n then UInt8.ofNat (v / 256 ^ (b - a)) else mem b

/-- Memory that is zero but for the little-endian fields `(address, width, value)`. -/
def image (fields : List (ℕ × ℕ × ℕ)) : ℕ → UInt8 :=
  fields.foldl (fun mem field => storeLe mem field.1 field.2.1 field.2.2) fun _ => 0

theorem storeLe_outside {mem : ℕ → UInt8} {a n v b : ℕ} (h : b < a ∨ a + n ≤ b) :
    storeLe mem a n v b = mem b := by
  rw [storeLe, if_neg (by omega)]

theorem leNat_congr {mem mem' : ℕ → UInt8} {a n : ℕ}
    (h : ∀ b, a ≤ b → b < a + n → mem b = mem' b) : leNat mem a n = leNat mem' a n := by
  induction n generalizing a with
  | zero => rfl
  | succ n ih =>
    rw [leNat, leNat, h a le_rfl (by omega), ih (fun b hb hb' => h b (by omega) (by omega))]

theorem leNat_lt {mem : ℕ → UInt8} {a n : ℕ} : leNat mem a n < 256 ^ n := by
  induction n generalizing a with
  | zero => simp [leNat]
  | succ n ih =>
    have hbyte := (mem a).toNat_lt
    have hrest := ih (a := a + 1)
    rw [leNat, pow_succ]
    omega

/-- The bytes of a value are determined by it. -/
theorem leNat_inj {mem mem' : ℕ → UInt8} {a n : ℕ} (h : leNat mem a n = leNat mem' a n) :
    ∀ b, a ≤ b → b < a + n → mem b = mem' b := by
  induction n generalizing a with
  | zero => intro b hb hb'; omega
  | succ n ih =>
    have hbyte := (mem a).toNat_lt
    have hbyte' := (mem' a).toNat_lt
    rw [leNat, leNat] at h
    intro b hb hb'
    by_cases hba : b = a
    · subst hba
      exact UInt8.toNat_inj.1 (by omega)
    · have hrest : leNat mem (a + 1) n = leNat mem' (a + 1) n := by omega
      exact ih hrest b (by omega) (by omega)

/-- What is read behind the first `j` bytes of a stored value. -/
theorem leNat_storeLe_add (mem : ℕ → UInt8) (a n v : ℕ) {j k : ℕ} (h : j + k ≤ n) :
    leNat (storeLe mem a n v) (a + j) k = v / 256 ^ j % 256 ^ k := by
  induction k generalizing j with
  | zero => simp [leNat, Nat.mod_one]
  | succ k ih =>
    have hbyte : storeLe mem a n v (a + j) = UInt8.ofNat (v / 256 ^ j) := by
      rw [storeLe, if_pos (by omega), Nat.add_sub_cancel_left]
    have hrest := ih (j := j + 1) (by omega)
    rw [leNat, hbyte, Nat.add_assoc, hrest, UInt8.toNat_ofNat', pow_succ' 256 k, Nat.mod_mul,
      Nat.div_div_eq_div_mul, ← pow_succ]

/-- A stored value is read back. -/
theorem u64At_storeLe (mem : ℕ → UInt8) (a : ℕ) (v : UInt64) :
    u64At (storeLe mem a 8 v.toNat) a = v := by
  have h := leNat_storeLe_add mem a 8 v.toNat (j := 0) (k := 8) le_rfl
  have hlt : v.toNat < 256 ^ 8 := v.toNat_lt
  rw [Nat.add_zero, pow_zero, Nat.div_one, Nat.mod_eq_of_lt hlt] at h
  rw [u64At, h, UInt64.ofNat_toNat]

theorem leNat_shift (mem : ℕ → UInt8) (d a n : ℕ) :
    leNat (fun b => mem (d + b)) a n = leNat mem (d + a) n := by
  induction n generalizing a with
  | zero => rfl
  | succ n ih => rw [leNat, leNat, ih, Nat.add_assoc]

/-! ## Accesses -/

/-- Log one access. -/
def note (isWrite : Bool) (a n : ℕ) : StateM Ram Unit :=
  modify fun s => { s with log := ⟨isWrite, a, n⟩ :: s.log }

/-- Read an object of `n` bytes at `a`, decoded by `f`. -/
def readWith (f : (ℕ → UInt8) → ℕ → α) (a n : ℕ) : StateM Ram α := do
  note false a n
  let s ← get
  pure (f s.mem a)

def read8 (a : ℕ) : StateM Ram UInt8 := readWith (fun mem b => mem b) a 1

def read64 (a : ℕ) : StateM Ram UInt64 := readWith u64At a 8

def write8 (a : ℕ) (v : UInt8) : StateM Ram Unit := do
  note true a 1
  modify fun s => { s with mem := Function.update s.mem a v }

def write64 (a : ℕ) (v : UInt64) : StateM Ram Unit := do
  note true a 8
  modify fun s => { s with mem := storeLe s.mem a 8 v.toNat }

@[simp] theorem readWith_run (f : (ℕ → UInt8) → ℕ → α) (a n : ℕ) (s : Ram) :
    readWith f a n s = (f s.mem a, ⟨s.mem, ⟨false, a, n⟩ :: s.log⟩) := rfl

@[simp] theorem read8_run (a : ℕ) (s : Ram) :
    read8 a s = (s.mem a, ⟨s.mem, ⟨false, a, 1⟩ :: s.log⟩) := rfl

@[simp] theorem read64_run (a : ℕ) (s : Ram) :
    read64 a s = (u64At s.mem a, ⟨s.mem, ⟨false, a, 8⟩ :: s.log⟩) := rfl

@[simp] theorem write8_run (a : ℕ) (v : UInt8) (s : Ram) :
    write8 a v s = ((), ⟨Function.update s.mem a v, ⟨true, a, 1⟩ :: s.log⟩) := rfl

@[simp] theorem write64_run (a : ℕ) (v : UInt64) (s : Ram) :
    write64 a v s = ((), ⟨storeLe s.mem a 8 v.toNat, ⟨true, a, 8⟩ :: s.log⟩) := rfl

/-! ## Confinement -/

/-- From `s` to `t` only addresses of `S` were accessed, and only they changed. -/
def Within (S : Set ℕ) (s t : Ram) : Prop :=
  (∀ x ∈ t.log, x ∈ s.log ∨ x.Inside S) ∧ ∀ a, a ∉ S → t.mem a = s.mem a

theorem Within.refl (S : Set ℕ) (s : Ram) : Within S s s :=
  ⟨fun _ h => Or.inl h, fun _ _ => rfl⟩

theorem Within.trans {S : Set ℕ} {s t u : Ram} (h₁ : Within S s t) (h₂ : Within S t u) :
    Within S s u := by
  refine ⟨fun x hx => ?_, fun a ha => (h₂.2 a ha).trans (h₁.2 a ha)⟩
  rcases h₂.1 x hx with hx | hx
  · exact h₁.1 x hx
  · exact Or.inr hx

/-- A program that accesses only `S` and leaves all other bytes unchanged,
    whatever memory it starts in. -/
def Confined (S : Set ℕ) (x : StateM Ram α) : Prop := ∀ s, Within S s (x s).2

theorem Confined.pure (S : Set ℕ) (a : α) : Confined S (pure a : StateM Ram α) :=
  fun s => Within.refl S s

/-- Sequencing keeps confinement. The continuation must be confined for every
    value, since the value may have been read from rewritten memory. -/
theorem Confined.bind {S : Set ℕ} {x : StateM Ram α} {f : α → StateM Ram β}
    (hx : Confined S x) (hf : ∀ a, Confined S (f a)) : Confined S (x >>= f) :=
  fun s => (hx s).trans (hf _ _)

theorem Confined.ite {S : Set ℕ} {c : Prop} [Decidable c] {x y : StateM Ram α}
    (hx : c → Confined S x) (hy : ¬c → Confined S y) : Confined S (if c then x else y) := by
  split
  · next h => exact hx h
  · next h => exact hy h

theorem Confined.readWith {S : Set ℕ} {f : (ℕ → UInt8) → ℕ → α} {a n : ℕ}
    (h : ∀ b, a ≤ b → b < a + n → b ∈ S) : Confined S (readWith f a n) := by
  intro s
  refine ⟨fun x hx => ?_, fun _ _ => rfl⟩
  rcases List.mem_cons.1 hx with rfl | hx
  · exact Or.inr h
  · exact Or.inl hx

theorem Confined.write64 {S : Set ℕ} {a : ℕ} {v : UInt64}
    (h : ∀ b, a ≤ b → b < a + 8 → b ∈ S) : Confined S (write64 a v) := by
  intro s
  refine ⟨fun x hx => ?_, fun b hb => ?_⟩
  · rcases List.mem_cons.1 hx with rfl | hx
    · exact Or.inr h
    · exact Or.inl hx
  · exact storeLe_outside (by
      by_contra hcon
      exact hb (h b (by omega) (by omega)))

theorem Confined.write8 {S : Set ℕ} {a : ℕ} {v : UInt8} (h : a ∈ S) : Confined S (write8 a v) := by
  intro s
  refine ⟨fun x hx => ?_, fun b hb => Function.update_of_ne ?_ _ _⟩
  · obtain rfl | hx := List.mem_cons.1 hx
    · refine Or.inr fun b hlo hhi => ?_
      obtain rfl : b = a := by
        dsimp only at hlo hhi
        omega
      exact h
    · exact Or.inl hx
  · rintro rfl
    exact hb h

/-- A confined program keeps every byte outside its set. -/
theorem Confined.mem_eq {S : Set ℕ} {x : StateM Ram α} (h : Confined S x) (s : Ram) {a : ℕ}
    (ha : a ∉ S) : (x s).2.mem a = s.mem a := (h s).2 a ha

/-- Started with an empty log, a confined program logs only accesses inside its set. -/
theorem Confined.log_inside {S : Set ℕ} {x : StateM Ram α} (h : Confined S x)
    (mem : ℕ → UInt8) : ∀ acc ∈ (x ⟨mem, []⟩).2.log, acc.Inside S := by
  intro acc hacc
  rcases (h ⟨mem, []⟩).1 acc hacc with hnil | hin
  · cases hnil
  · exact hin

/-! ## Counting accesses -/

/-- A program that makes at most `n` accesses, whatever memory it starts in. -/
def AtMost (n : ℕ) (x : StateM Ram α) : Prop := ∀ s, (x s).2.log.length ≤ s.log.length + n

theorem AtMost.mono {m n : ℕ} {x : StateM Ram α} (h : AtMost m x) (hle : m ≤ n) : AtMost n x :=
  fun s => (h s).trans (by omega)

theorem AtMost.pure (n : ℕ) (a : α) : AtMost n (pure a : StateM Ram α) :=
  fun _ => Nat.le_add_right _ _

theorem AtMost.bind {m n : ℕ} {x : StateM Ram α} {f : α → StateM Ram β}
    (hx : AtMost m x) (hf : ∀ a, AtMost n (f a)) : AtMost (m + n) (x >>= f) := by
  intro s
  have h₁ := hx s
  have h₂ := hf (x s).1 (x s).2
  rw [Prog.bind_run]
  omega

theorem AtMost.ite {n : ℕ} {c : Prop} [Decidable c] {x y : StateM Ram α}
    (hx : c → AtMost n x) (hy : ¬c → AtMost n y) : AtMost n (if c then x else y) := by
  split
  · next h => exact hx h
  · next h => exact hy h

theorem AtMost.readWith (f : (ℕ → UInt8) → ℕ → α) (a n : ℕ) : AtMost 1 (readWith f a n) :=
  fun _ => le_rfl

theorem AtMost.write64 (a : ℕ) (v : UInt64) : AtMost 1 (write64 a v) :=
  fun _ => le_rfl

/-! ## Byte loops -/

/-- `while (n--) *dst++ = *src++;` -/
def copyUp (dst src : ℕ) : ℕ → StateM Ram Unit
  | 0 => pure ()
  | n + 1 => do
    let byte ← read8 src
    write8 dst byte
    copyUp (dst + 1) (src + 1) n

/-- `while (n--) *dst++ = c;` -/
def fillUp (dst : ℕ) (c : UInt8) : ℕ → StateM Ram Unit
  | 0 => pure ()
  | n + 1 => do
    write8 dst c
    fillUp (dst + 1) c n

/-- `mem` with `n` bytes at `dst` replaced by those at `src`. -/
def blit (mem : ℕ → UInt8) (dst src n : ℕ) : ℕ → UInt8 := fun a =>
  if dst ≤ a ∧ a < dst + n then mem (src + (a - dst)) else mem a

/-- The copy loop between disjoint ranges moves the source bytes as they were. -/
theorem copyUp_mem (dst src n : ℕ) (s : Ram) (h : dst + n ≤ src ∨ src + n ≤ dst) :
    (copyUp dst src n s).2.mem = blit s.mem dst src n := by
  induction n generalizing dst src s with
  | zero =>
    funext a
    rw [blit, if_neg (by omega)]
    rfl
  | succ n ih =>
    simp only [copyUp, Prog.bind_run, read8_run, write8_run]
    rw [ih (dst + 1) (src + 1) _ (by omega)]
    funext a
    simp only [blit]
    by_cases ha : a = dst
    · subst ha
      rw [if_neg (by omega), if_pos (by omega), Function.update_self, Nat.sub_self]
      rfl
    · by_cases hin : dst + 1 ≤ a ∧ a < dst + 1 + n
      · rw [if_pos hin, if_pos (by omega), Function.update_of_ne (by omega)]
        congr 1
        omega
      · rw [if_neg hin, if_neg (by omega), Function.update_of_ne ha]

theorem fillUp_mem (dst : ℕ) (c : UInt8) (n : ℕ) (s : Ram) :
    (fillUp dst c n s).2.mem = fun a => if dst ≤ a ∧ a < dst + n then c else s.mem a := by
  induction n generalizing dst s with
  | zero =>
    funext a
    rw [if_neg (by omega)]
    rfl
  | succ n ih =>
    simp only [fillUp, Prog.bind_run, write8_run]
    rw [ih]
    funext a
    by_cases ha : a = dst
    · subst ha
      rw [if_neg (by omega), if_pos (by omega)]
      exact Function.update_self ..
    · by_cases hin : dst + 1 ≤ a ∧ a < dst + 1 + n
      · rw [if_pos hin, if_pos (by omega)]
      · rw [if_neg hin, if_neg (by omega)]
        exact Function.update_of_ne ha ..

theorem fillUp_confined (dst : ℕ) (c : UInt8) (n : ℕ) {S : Set ℕ}
    (h : ∀ a, dst ≤ a → a < dst + n → a ∈ S) : Confined S (fillUp dst c n) := by
  induction n generalizing dst with
  | zero => exact .pure S ()
  | succ n ih =>
    refine .bind (.write8 (h dst le_rfl (by omega))) fun _ => ?_
    exact ih (dst + 1) fun a hlo hhi => h a (by omega) (by omega)

theorem copyUp_confined (dst src n : ℕ) {S : Set ℕ} (hdst : ∀ a, dst ≤ a → a < dst + n → a ∈ S)
    (hsrc : ∀ a, src ≤ a → a < src + n → a ∈ S) : Confined S (copyUp dst src n) := by
  induction n generalizing dst src with
  | zero => exact .pure S ()
  | succ n ih =>
    refine .bind (.readWith fun a hlo hhi => hsrc a hlo (by omega)) fun byte => ?_
    refine .bind (.write8 (hdst dst le_rfl (by omega))) fun _ => ?_
    exact ih (dst + 1) (src + 1) (fun a hlo hhi => hdst a (by omega) (by omega))
      fun a hlo hhi => hsrc a (by omega) (by omega)

/-- A counted loop of confined rounds is confined. -/
theorem Confined.forRange {S : Set ℕ} {lo hi : ℕ} {body : ℕ → StateM Ram Unit}
    (h : ∀ i, lo ≤ i → i < hi → Confined S (body i)) : Confined S (Prog.forRange lo hi body) :=
  fun s => Prog.forRange_preserves (Within S s) (Within.refl S s) fun i t hlo hhi hin =>
    hin.trans (h i hlo hhi t)

/-! ## Byte strings -/

/-- The `n` bytes from `a` on. -/
def bytesAt (mem : ℕ → UInt8) (a n : ℕ) : List UInt8 := (List.range n).map fun k => mem (a + k)

/-- Copy `n` bytes out of memory, into a local buffer. -/
def loadBytes (src : ℕ) : ℕ → StateM Ram (List UInt8)
  | 0 => pure []
  | n + 1 => do
    let byte ← read8 src
    let rest ← loadBytes (src + 1) n
    pure (byte :: rest)

/-- Copy a local buffer into memory. -/
def storeBytes (dst : ℕ) : List UInt8 → StateM Ram Unit
  | [] => pure ()
  | byte :: rest => do
    write8 dst byte
    storeBytes (dst + 1) rest

/-- `mem` with the bytes `l` stored from `dst` on. -/
def patch (mem : ℕ → UInt8) (dst : ℕ) (l : List UInt8) : ℕ → UInt8 := fun a =>
  if dst ≤ a ∧ a < dst + l.length then l.getD (a - dst) 0 else mem a

@[simp] theorem length_bytesAt (mem : ℕ → UInt8) (a n : ℕ) : (bytesAt mem a n).length = n := by
  rw [bytesAt, List.length_map, List.length_range]

theorem getD_bytesAt (mem : ℕ → UInt8) (a : ℕ) {n k : ℕ} (hk : k < n) :
    (bytesAt mem a n).getD k 0 = mem (a + k) := by
  simp [bytesAt, List.getD_eq_getElem?_getD, hk]

theorem bytesAt_succ (mem : ℕ → UInt8) (a n : ℕ) :
    bytesAt mem a (n + 1) = mem a :: bytesAt mem (a + 1) n := by
  simp only [bytesAt, List.range_succ_eq_map, List.map_cons, List.map_map, Nat.add_zero]
  congr 2
  funext k
  simp only [Function.comp_apply, Nat.succ_eq_add_one]
  congr 1
  omega

theorem bytesAt_congr {mem mem' : ℕ → UInt8} {a n : ℕ}
    (h : ∀ b, a ≤ b → b < a + n → mem b = mem' b) : bytesAt mem a n = bytesAt mem' a n := by
  refine List.map_congr_left fun k hk => h _ (by omega) ?_
  have := List.mem_range.1 hk
  omega

theorem bytesAt_blit (mem : ℕ → UInt8) (dst src n : ℕ) :
    bytesAt (blit mem dst src n) dst n = bytesAt mem src n := by
  refine List.map_congr_left fun k hk => ?_
  have := List.mem_range.1 hk
  rw [blit, if_pos (by omega), Nat.add_sub_cancel_left]

theorem bytesAt_patch (mem : ℕ → UInt8) (dst : ℕ) (l : List UInt8) :
    bytesAt (patch mem dst l) dst l.length = l := by
  refine List.ext_getElem (by simp) fun k hk hk' => ?_
  simp [bytesAt, patch, hk']

/-- A copy stores the bytes that stand at its source. -/
theorem blit_eq_patch (mem : ℕ → UInt8) (dst src n : ℕ) :
    blit mem dst src n = patch mem dst (bytesAt mem src n) := by
  funext a
  rw [blit, patch, length_bytesAt]
  split
  · rw [getD_bytesAt mem src (by omega)]
  · rfl

theorem loadBytes_fst (src n : ℕ) (s : Ram) : (loadBytes src n s).1 = bytesAt s.mem src n := by
  induction n generalizing src s with
  | zero => rfl
  | succ n ih =>
    rw [loadBytes, bytesAt_succ]
    simp only [Prog.bind_run, read8_run, Prog.pure_run, ih]

theorem loadBytes_mem (src n : ℕ) (s : Ram) : (loadBytes src n s).2.mem = s.mem := by
  induction n generalizing src s with
  | zero => rfl
  | succ n ih =>
    rw [loadBytes]
    simp only [Prog.bind_run, read8_run, Prog.pure_run, ih]

theorem storeBytes_mem (dst : ℕ) (l : List UInt8) (s : Ram) :
    (storeBytes dst l s).2.mem = patch s.mem dst l := by
  induction l generalizing dst s with
  | nil =>
    funext a
    rw [patch, if_neg (by simp)]
    rfl
  | cons byte rest ih =>
    simp only [storeBytes, Prog.bind_run, write8_run, ih]
    funext a
    simp only [patch, List.length_cons]
    by_cases ha : a = dst
    · subst ha
      rw [if_neg (by omega), if_pos (by omega), Function.update_self, Nat.sub_self]
      rfl
    · by_cases hin : dst + 1 ≤ a ∧ a < dst + 1 + rest.length
      · rw [if_pos hin, if_pos (by omega), show a - dst = a - (dst + 1) + 1 by omega,
          List.getD_cons_succ]
      · rw [if_neg hin, if_neg (by omega), Function.update_of_ne ha]

end Ram
