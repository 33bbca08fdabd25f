import TownCrier.BigEndian

/-!
# Hexadecimal digits

A byte is written with two digits, in lower case, and read in either case. What is
read back from the written text are the bytes, and what is written of the bytes that
were read is the text in lower case.
-/
namespace TownCrier.Hexadecimal
open BigEndian

/-- The characters `0` to `9`, `A` to `F` and `a` to `f`. -/
def IsDigit (c : UInt8) : Prop := 48 ≤ c ∧ c ≤ 57 ∨ 65 ≤ c ∧ c ≤ 70 ∨ 97 ≤ c ∧ c ≤ 102

instance (c : UInt8) : Decidable (IsDigit c) := inferInstanceAs (Decidable (_ ∨ _))

def digit (n : UInt8) : UInt8 := if n < 10 then n+48 else n-10+97

def digitValue (c : UInt8) : UInt8 :=
  if c ≤ 57 then c-48 else if c ≤ 70 then c-65+10 else c-97+10

def lower (c : UInt8) : UInt8 := if 65 ≤ c ∧ c ≤ 70 then c+32 else c

def write (bs : Bytes) : Bytes := bs.flatMap fun b => [digit (b/16),digit (b%16)]

/-- The values of pairs of digits; a digit without another one is left out. -/
def read : Bytes → Bytes
  | [] => []
  | [_] => []
  | a::b::rest => (digitValue a*16+digitValue b)::read rest

theorem digit_isDigit {n : UInt8} (h : n < 16) : IsDigit (digit n) := by
  unfold digit IsDigit
  grind

theorem digitValue_digit {n : UInt8} (h : n < 16) : digitValue (digit n) = n := by
  unfold digitValue digit
  grind

theorem digitValue_lt {c : UInt8} (h : IsDigit c) : digitValue c < 16 := by
  unfold IsDigit at h
  unfold digitValue
  grind

theorem digit_digitValue {c : UInt8} (h : IsDigit c) : digit (digitValue c) = lower c := by
  unfold IsDigit at h
  unfold digitValue digit lower
  grind

/-- A byte and its two halves. -/
theorem halves (b : UInt8) : b/16 < 16 ∧ b%16 < 16 ∧ b/16*16+b%16 = b := by
  grind

theorem halves_pair {a b : UInt8} (ha : a < 16) (hb : b < 16) :
    (a*16+b)/16 = a ∧ (a*16+b)%16 = b := by
  grind

@[simp] theorem write_nil : write [] = [] := rfl
@[simp] theorem write_cons (b : UInt8) (bs : Bytes) :
    write (b::bs) = digit (b/16)::digit (b%16)::write bs := rfl

theorem write_append (as bs : Bytes) : write (as++bs) = write as++write bs :=
  List.flatMap_append

@[simp] theorem write_length (bs : Bytes) : (write bs).length = 2*bs.length := by
  induction bs with
  | nil => rfl
  | cons b bs ih =>
      simp only [write_cons,List.length_cons,ih]
      omega

theorem write_isDigit (bs : Bytes) : ∀ c ∈ write bs, IsDigit c := by
  induction bs with
  | nil => exact List.forall_mem_nil _
  | cons b bs ih =>
      have hb := halves b
      simp only [write_cons,List.forall_mem_cons]
      exact ⟨digit_isDigit hb.1,digit_isDigit hb.2.1,ih⟩

@[simp] theorem read_write (bs : Bytes) : read (write bs) = bs := by
  induction bs with
  | nil => rfl
  | cons b bs ih =>
      have hb := halves b
      rw [write_cons,read,digitValue_digit hb.1,digitValue_digit hb.2.1,hb.2.2,ih]

theorem read_length {ds : Bytes} (h : Even ds.length) : 2*(read ds).length = ds.length := by
  induction ds using read.induct with
  | case1 => rfl
  | case2 a => exact absurd h Nat.not_even_one
  | case3 a b rest ih =>
      have hrest : Even rest.length := by simpa [Nat.even_add_one] using h
      rw [read,List.length_cons,List.length_cons,List.length_cons,← ih hrest]
      omega

theorem write_read {ds : Bytes} (h : Even ds.length) (hds : ∀ c ∈ ds, IsDigit c) :
    write (read ds) = ds.map lower := by
  induction ds using read.induct with
  | case1 => rfl
  | case2 a => exact absurd h Nat.not_even_one
  | case3 a b rest ih =>
      have hrest : Even rest.length := by simpa [Nat.even_add_one] using h
      simp only [List.forall_mem_cons] at hds
      obtain ⟨ha,hb,hds⟩ := hds
      have hpair := halves_pair (digitValue_lt ha) (digitValue_lt hb)
      rw [read,write_cons,hpair.1,hpair.2,digit_digitValue ha,digit_digitValue hb,ih hrest hds]
      rfl

end TownCrier.Hexadecimal
