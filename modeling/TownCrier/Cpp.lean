import TownCrier.BigEndian
import Mathlib.Data.Rat.Defs

/-!
# What the enclave code takes from its language

Exceptions, undefined behaviour, C strings and numeric conversions, as the
compiled enclave has them on x86-64. A computation ends with a value, with an
exception which a handler may catch, or in undefined behaviour, which no
handler sees. Log output is not modelled.
-/
namespace TownCrier.Cpp
open BigEndian

/-- The exception classes which the enclave code raises or tells apart. -/
inductive Exn where
  | runtimeError | overflowError | invalidArgument | badAlloc | decryptionException
  deriving DecidableEq, Repr

/-- `std::overflow_error` derives from `std::runtime_error`; the others do not. -/
def Exn.isRuntimeError : Exn → Bool
  | .runtimeError | .overflowError => true
  | _ => false

inductive Fault where
  | throw (e : Exn)
  | undefined
  deriving DecidableEq, Repr

abbrev Exec := Except Fault

def raise {A : Type} (e : Exn) : Exec A := .error (.throw e)
def undefined {A : Type} : Exec A := .error .undefined

/-- `try x catch (...) h`, where the handler chooses by the exception. -/
def catchExn {A : Type} (x : Exec A) (h : Exn → Exec A) : Exec A :=
  match x with
  | .ok a => .ok a
  | .error (.throw e) => h e
  | .error .undefined => .error .undefined

@[simp] theorem catchExn_ok {A : Type} (a : A) (h : Exn → Exec A) :
    catchExn (.ok a) h = .ok a := rfl
@[simp] theorem catchExn_raise {A : Type} (e : Exn) (h : Exn → Exec A) :
    catchExn (raise e) h = h e := rfl
@[simp] theorem catchExn_undefined {A : Type} (h : Exn → Exec A) :
    catchExn undefined h = undefined := rfl

section
variable {A B : Type} (e : Exn) (f : A → Exec B) (g : A → B)

@[simp] theorem bind_ok (a : A) : (.ok a >>= f) = f a := rfl
@[simp] theorem bind_error (e : Fault) : (.error e >>= f) = .error e := rfl
@[simp] theorem bind_raise : (raise e >>= f) = raise e := rfl
@[simp] theorem bind_undefined : (undefined >>= f) = undefined := rfl
@[simp] theorem map_ok (a : A) : g <$> (.ok a : Exec A) = .ok (g a) := rfl
@[simp] theorem map_error (e : Fault) : g <$> (.error e : Exec A) = .error e := rfl
@[simp] theorem map_raise : g <$> (raise e : Exec A) = raise e := rfl
@[simp] theorem map_undefined : g <$> (undefined : Exec A) = undefined := rfl

theorem pure_eq_ok (a : A) : (pure a : Exec A) = .ok a := rfl

theorem bind_eq_ok {x : Exec A} {f : A → Exec B} {b : B} (h : (x >>= f) = .ok b) :
    ∃ a, x = .ok a ∧ f a = .ok b := by
  cases x with
  | error e => cases h
  | ok a => exact ⟨a,rfl,h⟩

theorem ne_ok {x : Exec A} {e : Fault} (h : x = .error e) (a : A) : x ≠ .ok a := by
  intro hok
  cases h.symm.trans hok

end

/-- `catch (const std::runtime_error &)` -/
def catchRuntime {A : Type} (x : Exec A) (h : Exec A) : Exec A :=
  catchExn x fun e => if e.isRuntimeError then h else raise e

@[simp] theorem catchRuntime_ok {A : Type} (a : A) (h : Exec A) :
    catchRuntime (.ok a) h = .ok a := rfl
@[simp] theorem catchRuntime_raise {A : Type} (e : Exn) (h : Exec A) :
    catchRuntime (raise e) h = if e.isRuntimeError then h else raise e := rfl

/-- The characters of a literal. -/
def ascii (s : String) : Bytes := s.toList.map fun c => UInt8.ofNat c.toNat

/-- What `c_str()` or a `%s` conversion sees: everything before the first NUL. -/
def cstr (s : Bytes) : Bytes := s.takeWhile (· ≠ 0)

def isSpace (c : UInt8) : Bool := c = 32 ∨ 9 ≤ c ∧ c ≤ 13

/-- `snprintf` into a buffer of `n` bytes keeps one of them for the terminator. -/
def snprintf (n : ℕ) (s : Bytes) : Bytes := s.take (n-1)

/-- Decimal digits, as `%d` and `PRIu64` print them. -/
def decimal (n : ℕ) : Bytes := (Nat.toDigits 10 n).map fun c => UInt8.ofNat c.toNat

/-- Conversion of a floating-point value rounds towards zero. -/
def truncate (d : ℚ) : ℤ := d.num.tdiv d.den

/-- `(int) d`: `cvttsd2si` yields the least integer when the value does not fit. -/
def toInt32 (d : ℚ) : Int32 :=
  if -2^31 ≤ truncate d ∧ truncate d < 2^31 then Int32.ofInt (truncate d) else Int32.minValue

/-- `(long) d`, likewise. -/
def toInt64 (d : ℚ) : Int64 :=
  if -2^63 ≤ truncate d ∧ truncate d < 2^63 then Int64.ofInt (truncate d) else Int64.minValue

/-- `(uint64_t) d`: below `2^63` the signed conversion, above it a biased one.
Both wrap a negative value around; outside their range they saturate oddly. -/
def toUInt64 (d : ℚ) : UInt64 :=
  if truncate d < -2^63 then 0x8000000000000000
  else if truncate d < 2^64 then UInt64.ofInt (truncate d) else 0

/-- `(int) n` of an unsigned 64-bit value keeps the low four bytes. -/
def narrow (n : UInt64) : Int32 := Int32.ofInt n.toNat

/-- `(uint64_t) n` of an `int` extends its sign. -/
def widen (n : Int32) : UInt64 := UInt64.ofInt n.toInt

@[simp] theorem truncate_intCast (a : ℤ) : truncate (a : ℚ) = a := by
  simp [truncate]

theorem toNat_ofInt (a : ℤ) : (UInt64.ofInt a).toNat = (a%2^64).toNat := by
  rw [UInt64.ofInt,UInt64.toNat_ofNat']
  omega

theorem toUInt64_intCast {a : ℤ} (hlow : -2^63 ≤ a) (hhigh : a < 2^64) :
    (toUInt64 (a : ℚ)).toNat = (a%2^64).toNat := by
  rw [toUInt64,truncate_intCast,if_neg (by omega),if_pos hhigh,toNat_ofInt]

theorem widen_toNat (n : Int32) : (widen n).toNat = (n.toInt%2^64).toNat := toNat_ofInt _

/-- The low four bytes survive the round trip through `int`. -/
theorem widen_narrow (n : UInt64) : (widen (narrow n)).toNat%2^32 = n.toNat%2^32 := by
  rw [widen_toNat,narrow,Int32.toInt_ofInt,Int.bmod,show (Int32.size : ℤ) = 2^32 from rfl]
  split_ifs <;> omega

end TownCrier.Cpp
