import TownCrier.Cpp
import Mathlib.Algebra.Field.Rat

/-!
# Numbers written as text

`strtod`, `strtol` and `atoi` of the C library. A text denotes a fraction, which
is rounded to the nearest binary64 value, ties to even. The sign of a zero and
the payload of a `nan` are not kept, because nothing in the enclave looks at them.
-/
namespace TownCrier.Numerals
open BigEndian Cpp

inductive Double where
  | finite (q : ℚ)
  | infinite (negative : Bool)
  | nan
  deriving DecidableEq

/-- `(int)` of a value that does not fit is the least integer. -/
def Double.toInt32 : Double → Int32
  | .finite q => Cpp.toInt32 q
  | _ => Int32.minValue

/-- `n/d`, a tie to the even neighbour. -/
def halfEven (n d : ℕ) : ℕ :=
  if 2*(n%d) < d ∨ 2*(n%d) = d ∧ n/d%2 = 0 then n/d else n/d+1

/-- The exponent of the last of the 53 binary places of `n/d`, or the least one. -/
def lastPlace (n d : ℕ) : ℤ :=
  let e : ℤ := n.log2-d.log2
  let e := if n*2^(-e).toNat < d*2^e.toNat then e-1 else e
  max (e-52) (-1074)

def round (negative : Bool) (n d : ℕ) : Double :=
  if n = 0 then .finite 0
  else
    let u := lastPlace n d
    let m := halfEven (n*2^(-u).toNat) (d*2^u.toNat)
    if 2^1024 ≤ m*2^u.toNat then .infinite negative
    else .finite ((if negative then -1 else 1)*(m*2^u.toNat)/2^(-u).toNat)

def lower (c : UInt8) : UInt8 := if 65 ≤ c ∧ c ≤ 90 then c+32 else c

def digitValue (base : ℕ) (c : UInt8) : Option ℕ :=
  let d := if 48 ≤ c ∧ c ≤ 57 then c.toNat-48
    else if 97 ≤ lower c ∧ lower c ≤ 122 then (lower c).toNat-87 else base
  if d < base then some d else none

/-- The digits at the beginning, and what follows them. -/
def digits (base : ℕ) : Bytes → List ℕ × Bytes
  | [] => ([],[])
  | c::cs =>
      match digitValue base c with
      | some d => (d::(digits base cs).1,(digits base cs).2)
      | none => ([],c::cs)

def number (base : ℕ) (ds : List ℕ) : ℕ := ds.foldl (fun n d => n*base+d) 0

def sign : Bytes → Bool × Bytes
  | 43::cs => (false,cs)
  | 45::cs => (true,cs)
  | cs => (false,cs)

/-- Digits with a point among them: their value, how many follow the point, the rest. -/
def mantissa (base : ℕ) (s : Bytes) : Option (ℕ × ℕ × Bytes) :=
  let (whole,rest) := digits base s
  let (fraction,rest) :=
    match rest with
    | 46::cs => digits base cs
    | _ => ([],rest)
  if whole++fraction = [] then none
  else some (number base (whole++fraction),fraction.length,rest)

/-- Without a digit after it the marker does not belong to the number. -/
def exponent (marker : UInt8) : Bytes → ℤ × Bytes
  | [] => (0,[])
  | c::cs =>
      let (negative,t) := sign cs
      let (ds,rest) := digits 10 t
      if lower c ≠ marker ∨ ds = [] then (0,c::cs)
      else (if negative then -number 10 ds else number 10 ds,rest)

def scale (negative : Bool) (base n : ℕ) (e : ℤ) : Double :=
  round negative (n*base^e.toNat) (base^(-e).toNat)

def hexadecimal (negative : Bool) (s : Bytes) : Option (Double × Bytes) := do
  let (n,places,rest) ← mantissa 16 s
  let (e,rest) := exponent 112 rest
  return (scale negative 2 n (e-4*places),rest)

def decimalNumber (negative : Bool) (s : Bytes) : Option (Double × Bytes) := do
  let (n,places,rest) ← mantissa 10 s
  let (e,rest) := exponent 101 rest
  return (scale negative 10 n (e-places),rest)

/-- The value, and the text from `endptr` on. -/
def strtod (s : Bytes) : Double × Bytes :=
  let (negative,t) := sign (s.dropWhile isSpace)
  let word := t.map lower
  if (ascii "infinity").isPrefixOf word then (.infinite negative,t.drop 8)
  else if (ascii "inf").isPrefixOf word then (.infinite negative,t.drop 3)
  else if (ascii "nan").isPrefixOf word then (.nan,t.drop 3)
  else
    let hex := if (ascii "0x").isPrefixOf word then hexadecimal negative (t.drop 2) else none
    ((hex <|> decimalNumber negative t).getD (.finite 0,s))

/-- `strtol` in base ten, which clamps. -/
def strtol (s : Bytes) : ℤ :=
  let (negative,t) := sign (s.dropWhile isSpace)
  let n : ℤ := number 10 (digits 10 t).1
  if negative then max (-n) (-2^63) else min n (2^63-1)

/-- `atoi` casts the result of `strtol`. -/
def atoi (s : Bytes) : Int32 := Int32.ofInt (strtol s)

end TownCrier.Numerals
