import Mathlib

/-!
# Formatted output (`kernel/debug/kprintf.c`)

`kvprintf` walks a NUL-terminated format and emits characters. A pointer into the format is the
rest of the string: the empty list stands for the pointer at the terminator, and there is no
pointer behind it to read through. A run either returns what it emitted or stops at the first
fault.

## Main definitions

- `Sypas.CString` — the characters of a string in front of its terminator
- `Sypas.Arg` — the values of an argument list
- `Sypas.emitUint`, `Sypas.kvprintf` — the formatter
-/

namespace Sypas

/-- The characters in front of a terminating NUL. -/
structure CString where
  chars : List Char
  nul_not_mem : '\x00' ∉ chars

/-- An argument of the variable argument list: a 32-bit or a 64-bit integer, a string that may be
    a null pointer, or a pointer. -/
inductive Arg where
  | int (v : UInt32)
  | long (v : UInt64)
  | str (s : Option CString)
  | ptr (v : UInt64)

inductive ArgKind where
  | int
  | long
  | str
  | ptr
deriving DecidableEq, Repr

def Arg.kind : Arg → ArgKind
  | .int _ => .int
  | .long _ => .long
  | .str _ => .str
  | .ptr _ => .ptr

/-- What C leaves undefined: a read behind the format's terminator, an argument that is missing
    or of another type, an index outside the digit buffer. -/
inductive Fault where
  | pastTerminator
  | argument
  | digitBuffer
deriving DecidableEq, Repr

/-! ## Pointers into the format -/

/-- `*fmt`. -/
def deref (fmt : List Char) : Char := fmt.headD '\x00'

/-- `fmt++`, whose result is read in every place the source has one. -/
def advance : List Char → Except Fault (List Char)
  | [] => .error .pastTerminator
  | _ :: fmt => .ok fmt

/-! ## Numbers -/

def lowerDigits : List Char :=
  ['0', '1', '2', '3', '4', '5', '6', '7', '8', '9', 'a', 'b', 'c', 'd', 'e', 'f']

def upperDigits : List Char :=
  ['0', '1', '2', '3', '4', '5', '6', '7', '8', '9', 'A', 'B', 'C', 'D', 'E', 'F']

/-- The digit loop of `emit_uint`: `buf` is the part of the buffer already written and `room` the
    number of its bytes that are left. -/
def fillDigits (dig : List Char) (base : UInt64) : ℕ → UInt64 → List Char → Except Fault (List Char)
  | 0, _, _ => .error .digitBuffer
  | room + 1, v, buf =>
    let buf := buf ++ [dig.getD (v % base).toNat '\x00']
    if v / base ≠ 0 then fillDigits dig base room (v / base) buf else .ok buf

/-- `emit_uint`, with its buffer of 24 bytes. -/
def emitUint (v base : UInt64) (upper : Bool) (width : Int32) (zero : Bool) :
    Except Fault (List Char) := do
  let dig := if upper then upperDigits else lowerDigits
  let buf ← fillDigits dig base 24 v []
  let pad := width - Int32.ofNat buf.length
  pure (List.replicate pad.toInt.toNat (if zero then '0' else ' ') ++ buf.reverse)

/-! ## Arguments -/

def vaStr : List Arg → Except Fault (Option CString × List Arg)
  | .str s :: ap => .ok (s, ap)
  | _ => .error .argument

def vaInt : List Arg → Except Fault (UInt32 × List Arg)
  | .int v :: ap => .ok (v, ap)
  | _ => .error .argument

def vaPtr : List Arg → Except Fault (UInt64 × List Arg)
  | .ptr v :: ap => .ok (v, ap)
  | _ => .error .argument

/-- `longs ? va_arg(ap, i64) : va_arg(ap, i32)`. -/
def vaSigned (longs : ℕ) : List Arg → Except Fault (Int64 × List Arg)
  | .long v :: ap => if longs ≠ 0 then .ok (v.toInt64, ap) else .error .argument
  | .int v :: ap => if longs ≠ 0 then .error .argument else .ok (v.toInt32.toInt64, ap)
  | _ => .error .argument

/-- `longs ? va_arg(ap, u64) : va_arg(ap, u32)`. -/
def vaUnsigned (longs : ℕ) : List Arg → Except Fault (UInt64 × List Arg)
  | .long v :: ap => if longs ≠ 0 then .ok (v, ap) else .error .argument
  | .int v :: ap => if longs ≠ 0 then .error .argument else .ok (v.toUInt64, ap)
  | _ => .error .argument

/-! ## The conversion specification -/

/-- What stands between `%` and the conversion character. -/
structure Spec where
  zero : Bool
  width : Int32
  longs : ℕ

def scanZero : List Char → Bool × List Char
  | [] => (false, [])
  | c :: fmt => if c = '0' then (true, fmt) else (false, c :: fmt)

/-- The width loop. A width beyond `int` wraps. -/
def scanWidth (width : Int32) : List Char → Int32 × List Char
  | [] => (width, [])
  | c :: fmt =>
    if '0' ≤ c ∧ c ≤ '9' then scanWidth (width * 10 + Int32.ofNat (c.toNat - 48)) fmt
    else (width, c :: fmt)

def scanLongs (longs : ℕ) : List Char → ℕ × List Char
  | [] => (longs, [])
  | c :: fmt => if c = 'l' then scanLongs (longs + 1) fmt else (longs, c :: fmt)

def scanSpec (fmt : List Char) : Spec × List Char :=
  let (zero, fmt) := scanZero fmt
  let (width, fmt) := scanWidth 0 fmt
  let (longs, fmt) := scanLongs 0 fmt
  (⟨zero, width, longs⟩, fmt)

/-- The `switch` over the conversion character. -/
def convert (spec : Spec) (c : Char) (ap : List Arg) : Except Fault (List Char × List Arg) :=
  match c with
  | 's' => do
    let (s, ap) ← vaStr ap
    pure ((s.map CString.chars).getD "(null)".toList, ap)
  | 'c' => do
    let (v, ap) ← vaInt ap
    pure ([Char.ofNat (v.toNat % 256)], ap)
  | 'd' | 'i' => do
    let (v, ap) ← vaSigned spec.longs ap
    -- unsigned negate: INT64_MIN-safe
    let m := if v < 0 then 0 - v.toUInt64 else v.toUInt64
    let out ← emitUint m 10 false spec.width spec.zero
    pure ((if v < 0 then ['-'] else []) ++ out, ap)
  | 'u' => do
    let (v, ap) ← vaUnsigned spec.longs ap
    pure (← emitUint v 10 false spec.width spec.zero, ap)
  | 'x' | 'X' => do
    let (v, ap) ← vaUnsigned spec.longs ap
    pure (← emitUint v 16 (c = 'X') spec.width spec.zero, ap)
  | 'p' => do
    let (v, ap) ← vaPtr ap
    pure ("0x".toList ++ (← emitUint v 16 false 16 true), ap)
  | '%' => pure (['%'], ap)
  | _ => pure (['%', c], ap)

theorem advance_length {fmt fmt' : List Char} (h : advance fmt = .ok fmt') :
    fmt'.length < fmt.length := by
  cases fmt with
  | nil => nomatch h
  | cons c fmt =>
    cases h
    simp

theorem scanZero_length (fmt : List Char) : (scanZero fmt).2.length ≤ fmt.length := by
  cases fmt with
  | nil => simp [scanZero]
  | cons c fmt =>
    rw [scanZero]
    split <;> simp

theorem scanWidth_length (width : Int32) (fmt : List Char) :
    (scanWidth width fmt).2.length ≤ fmt.length := by
  induction fmt generalizing width with
  | nil => simp [scanWidth]
  | cons c fmt ih =>
    rw [scanWidth]
    split
    · exact (ih _).trans (Nat.le_succ _)
    · exact le_rfl

theorem scanLongs_length (longs : ℕ) (fmt : List Char) :
    (scanLongs longs fmt).2.length ≤ fmt.length := by
  induction fmt generalizing longs with
  | nil => simp [scanLongs]
  | cons c fmt ih =>
    rw [scanLongs]
    split
    · exact (ih _).trans (Nat.le_succ _)
    · exact le_rfl

theorem scanSpec_length (fmt : List Char) : (scanSpec fmt).2.length ≤ fmt.length :=
  (scanLongs_length _ _).trans ((scanWidth_length _ _).trans (scanZero_length _))

/-! ## The loop -/

/-- The loop of `kvprintf` from `fmt` on, with the characters it emits. -/
def kvprintfFrom (fmt : List Char) (ap : List Arg) : Except Fault (List Char) :=
  match fmt with
  | [] => .ok []
  | c :: fmt =>
    if c ≠ '%' then do
      let out ← kvprintfFrom fmt ap
      pure (c :: out)
    else
      match convert (scanSpec fmt).1 (deref (scanSpec fmt).2) ap with
      | .error fault => .error fault
      | .ok (emitted, ap) =>
        match _hnext : advance (scanSpec fmt).2 with
        | .error fault => .error fault
        | .ok next => do
          let out ← kvprintfFrom next ap
          pure (emitted ++ out)
termination_by fmt.length
decreasing_by
  · simp
  · have hrest := advance_length _hnext
    have hscan := scanSpec_length fmt
    rw [List.length_cons]
    omega

/-- `kvprintf`. -/
def kvprintf (fmt : CString) (ap : List Arg) : Except Fault (List Char) :=
  kvprintfFrom fmt.chars ap

end Sypas
