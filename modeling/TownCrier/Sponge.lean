import TownCrier.BigEndian
import Mathlib.Data.Nat.Bitwise

/-!
# The Keccak sponge, bit by bit

The permutation on 1600 bits by coordinates: `x` is a column, `y` a row and `z`
a place in a lane, and all three are read modulo their range. The rotation
counts come from a walk over the lanes and the round constants from a shift
register. A message is padded with a one, zeros and a one to whole blocks, which
are mixed into the state one after another.
-/
namespace TownCrier.Sponge
open BigEndian

abbrev State := Fin 5 → Fin 5 → Fin 64 → Bool

def parity (A : State) (x : Fin 5) (z : Fin 64) : Bool :=
  A x 0 z ^^ A x 1 z ^^ A x 2 z ^^ A x 3 z ^^ A x 4 z

def theta (A : State) : State := fun x y z => A x y z ^^ (parity A (x-1) z ^^ parity A (x+1) (z-1))

/-- The lanes in the order in which their rotation counts grow. -/
def walk : ℕ → Fin 5 × Fin 5
  | 0 => (1,0)
  | t+1 => ((walk t).2,2*(walk t).1+3*(walk t).2)

/-- The walk meets every lane but the first, which stays as it is. -/
def offset (x y : Fin 5) : ℕ :=
  match (List.range 24).find? fun t => walk t = (x,y) with
  | some t => (t+1)*(t+2)/2
  | none => 0

def rho (A : State) : State := fun x y z => A x y (z-Fin.ofNat 64 (offset x y))

def pi (A : State) : State := fun x y z => A (x+3*y) x z

def chi (A : State) : State := fun x y z => A x y z ^^ (!A (x+1) y z && A (x+2) y z)

/-- Multiplication by `x` modulo `x^8+x^6+x^5+x^4+1`. -/
def register : ℕ → BitVec 8
  | 0 => 1
  | t+1 => register t <<< 1 ^^^ if (register t).msb then 0x71 else 0

/-- Only the places `2^j-1` of a lane can be changed. -/
def roundConstant (i : ℕ) (z : Fin 64) : Bool :=
  (List.range 7).any fun j => z.val = 2^j-1 && (register (j+7*i)).getLsbD 0

def iota (i : ℕ) (A : State) : State := fun x y z =>
  if x = 0 ∧ y = 0 then A x y z ^^ roundConstant i z else A x y z

def round (A : State) (i : ℕ) : State := iota i (chi (pi (rho (theta A))))

def permutation (A : State) : State := (List.range 24).foldl round A

/-- A one, as few zeros as fill the last block, and a one, behind `m` bits. -/
def pad (r m : ℕ) : List Bool := true::(List.replicate ((r-(m+2)%r)%r) false++[true])

def mix (A : State) (block : List Bool) : State := fun x y z =>
  A x y z ^^ block.getD (64*(5*y.val+x.val)+z.val) false

/-- The whole blocks of `r` bits, each followed by the permutation. -/
def absorb (r : ℕ) (A : State) (M : List Bool) : State :=
  (List.range (M.length/r)).foldl (fun A k => permutation (mix A ((M.drop (k*r)).take r))) A

def squeeze (d : ℕ) (A : State) : List Bool :=
  (List.range d).map fun i => A (Fin.ofNat 5 (i/64)) (Fin.ofNat 5 (i/320)) (Fin.ofNat 64 i)

/-- The digest of `d` bits at rate `r`; it has to fit one block. -/
def digest (r d : ℕ) (M : List Bool) : List Bool :=
  squeeze d (absorb r (fun _ _ _ => false) (M++pad r M.length))

/-- Bytes as bits, the lowest bit of each byte first. -/
def bits (b : Bytes) : List Bool := b.flatMap fun c => (List.range 8).map c.toNat.testBit

theorem absorb_append {r : ℕ} (hr : 0 < r) (A : State) {B : List Bool} (hB : B.length = r)
    (M : List Bool) : absorb r A (B++M) = absorb r (permutation (mix A B)) M := by
  have hcount : (B++M).length/r = M.length/r+1 := by
    rw [List.length_append,hB,Nat.add_div_left _ hr]
  have hfirst : ((B++M).drop (0*r)).take r = B := by
    rw [Nat.zero_mul,List.drop_zero,← hB,List.take_left]
  have hnext : ∀ k, (B++M).drop ((k+1)*r) = M.drop (k*r) := by
    intro k
    rw [Nat.succ_mul,Nat.add_comm,← hB,List.drop_append]
    simp
  rw [absorb,hcount,List.range_succ_eq_map,List.foldl_cons,List.foldl_map,hfirst,absorb]
  simp only [hnext]

theorem absorb_short {r : ℕ} (A : State) {M : List Bool} (h : M.length < r) :
    absorb r A M = A := by
  rw [absorb,Nat.div_eq_of_lt h]
  rfl

theorem absorb_block {r : ℕ} (hr : 0 < r) (A : State) {B : List Bool} (hB : B.length = r) :
    absorb r A B = permutation (mix A B) := by
  have h := absorb_append hr A hB []
  rwa [List.append_nil,absorb_short (M := []) _ hr] at h

/-- Whole blocks in front of a message do not change its padding. -/
theorem pad_add (r m : ℕ) : pad r (r+m) = pad r m := by
  rw [pad,pad,show r+m+2 = r+(m+2) by omega,Nat.add_mod_left]

@[simp] theorem bits_nil : bits [] = [] := rfl

theorem bits_cons (c : UInt8) (b : Bytes) :
    bits (c::b) = (List.range 8).map c.toNat.testBit++bits b := rfl

theorem bits_append (b c : Bytes) : bits (b++c) = bits b++bits c := List.flatMap_append

@[simp] theorem bits_length (b : Bytes) : (bits b).length = 8*b.length := by
  induction b with
  | nil => rfl
  | cons c b ih =>
      rw [bits_cons,List.length_append,ih,List.length_map,List.length_range,List.length_cons]
      omega

theorem bits_drop (n : ℕ) (b : Bytes) : bits (b.drop n) = (bits b).drop (8*n) := by
  induction n generalizing b with
  | zero => rfl
  | succ n ih =>
      cases b with
      | nil => simp
      | cons c b =>
          rw [List.drop_succ_cons,ih,bits_cons,Nat.mul_succ,Nat.add_comm,← List.drop_drop,
            List.drop_left' (by simp)]

theorem bits_take (n : ℕ) (b : Bytes) : bits (b.take n) = (bits b).take (8*n) := by
  rcases Nat.le_total n b.length with h | h
  · have hsplit := congrArg bits (List.take_append_drop n b)
    rw [bits_append] at hsplit
    rw [← hsplit,List.take_left' (by rw [bits_length,List.length_take_of_le h])]
  · rw [List.take_of_length_le h,List.take_of_length_le (by rw [bits_length]; omega)]

/-- The number that bytes stand for with the lowest byte first has their bits. -/
theorem testBit_value_reverse (b : Bytes) (i : ℕ) :
    (value b.reverse).testBit i = (bits b).getD i false := by
  induction b generalizing i with
  | nil => simp
  | cons c b ih =>
      have hvalue : value (c::b).reverse = 2^8*value b.reverse+c.toNat := by
        rw [List.reverse_cons,value_append]
        simp [Nat.mul_comm]
      rw [hvalue,Nat.testBit_two_pow_mul_add _ c.toNat_lt,ih,bits_cons]
      split_ifs with hi
      · rw [List.getD_append _ _ _ _ (by simpa using hi),List.getD_eq_getElem _ _ (by simpa using hi)]
        simp
      · rw [List.getD_append_right _ _ _ _ (by simp; omega)]
        simp

/-- The bytes of a number, the lowest first, are its bits. -/
theorem bits_reverse_fixed (k n : ℕ) :
    bits (fixed k n).reverse = (List.range (8*k)).map n.testBit := by
  apply List.ext_getElem
  · simp
  · intro i h₁ h₂
    have hi : i < 8*k := by simpa using h₂
    rw [List.getElem_map,List.getElem_range,← List.getD_eq_getElem _ false h₁,
      ← testBit_value_reverse,List.reverse_reverse,value_fixed,show 256^k = 2^(8*k) by
        rw [Nat.pow_mul],Nat.testBit_mod_two_pow]
    simp [hi]

end TownCrier.Sponge
