import Mathlib.Data.Nat.Log
import Mathlib.Tactic.Ring
import Mathlib.Tactic.Linarith

/-!
# Big-endian byte strings

Byte strings read as natural numbers, most significant byte first. Two writers
are related to the one reader: `fixed` pads or truncates to a given width, and
`minimal` is the unique representation without a leading zero byte. Nothing
here depends on the program which uses these formats.
-/
namespace TownCrier.BigEndian

abbrev Bytes := List UInt8

def value : Bytes → ℕ
  | [] => 0
  | b::bs => b.toNat*256^bs.length+value bs

/-- The lowest `width` bytes of a number, most significant first. -/
def fixed : ℕ → ℕ → Bytes
  | 0, _ => []
  | width+1, n => UInt8.ofNat (n/256^width)::fixed width n

/-- Division steps until zero; the number itself is enough fuel. -/
def sizeLoop : ℕ → ℕ → ℕ
  | 0, _ => 0
  | fuel+1, n => if n = 0 then 0 else sizeLoop fuel (n/256)+1

def size (n : ℕ) : ℕ := sizeLoop n n

def minimal (n : ℕ) : Bytes := fixed (size n) n

/-- No superfluous leading zero byte. -/
def Canonical (bs : Bytes) : Prop := bs.head? ≠ some 0

instance (bs : Bytes) : Decidable (Canonical bs) := inferInstanceAs (Decidable (_ ≠ _))

@[simp] theorem value_nil : value [] = 0 := rfl
@[simp] theorem value_cons (b : UInt8) (bs : Bytes) :
    value (b::bs) = b.toNat*256^bs.length+value bs := rfl

@[simp] theorem fixed_length (width n : ℕ) : (fixed width n).length = width := by
  induction width with
  | zero => rfl
  | succ width ih => simp [fixed,ih]

theorem value_lt (bs : Bytes) : value bs < 256^bs.length := by
  induction bs with
  | nil => simp
  | cons b bs ih =>
      have hb : b.toNat ≤ 255 := by have := b.toNat_lt; omega
      have h := Nat.mul_le_mul_right (256^bs.length) hb
      simp only [value_cons,List.length_cons,Nat.pow_succ]
      omega

theorem value_append (as bs : Bytes) :
    value (as++bs) = value as*256^bs.length+value bs := by
  induction as with
  | nil => simp
  | cons a as ih =>
      rw [List.cons_append,value_cons,ih,value_cons,List.length_append,Nat.pow_add]
      ring

/-- The last bytes are what is left of a division. -/
theorem value_drop (bs : Bytes) (n : ℕ) :
    value (bs.drop n) = value bs%256^(bs.length-n) := by
  have h := value_append (bs.take n) (bs.drop n)
  rw [List.take_append_drop,List.length_drop] at h
  have hlt := value_lt (bs.drop n)
  rw [List.length_drop] at hlt
  rw [h,Nat.mul_add_mod_of_lt hlt]

theorem value_fixed (width n : ℕ) : value (fixed width n) = n%256^width := by
  induction width with
  | zero => simp [fixed,Nat.mod_one]
  | succ width ih =>
      have hb : (UInt8.ofNat (n/256^width)).toNat = n/256^width%256 := UInt8.toNat_ofNat'
      simp only [fixed,value_cons,fixed_length,ih,hb]
      rw [Nat.pow_succ,Nat.mod_mul]
      ring

theorem value_fixed_of_lt {width n : ℕ} (h : n < 256^width) : value (fixed width n) = n := by
  rw [value_fixed,Nat.mod_eq_of_lt h]

theorem fixed_mod (width n : ℕ) : fixed width (n%256^width) = fixed width n := by
  suffices h : ∀ k, width ≤ k → fixed width (n%256^k) = fixed width n from h width le_rfl
  intro k hk
  induction width with
  | zero => rfl
  | succ width ih =>
      obtain ⟨j,rfl⟩ : ∃ j, k = width+1+j := ⟨k-(width+1),by omega⟩
      simp only [fixed,List.cons.injEq]
      refine ⟨?_,ih (by omega)⟩
      have hp : 256^(width+1+j) = 256^width*(256*256^j) := by ring
      rw [hp,Nat.mod_mul_right_div_self]
      apply UInt8.toNat_inj.mp
      simp only [UInt8.toNat_ofNat']
      exact Nat.mod_mod_of_dvd _ (Dvd.intro _ rfl)

/-- Reading and writing back at the same width loses nothing. -/
theorem fixed_value (bs : Bytes) : fixed bs.length (value bs) = bs := by
  induction bs with
  | nil => rfl
  | cons b bs ih =>
      simp only [List.length_cons,fixed,value_cons]
      have hlt := value_lt bs
      have hdiv : (b.toNat*256^bs.length+value bs)/256^bs.length = b.toNat := by
        rw [Nat.add_comm,Nat.add_mul_div_right _ _ (by positivity),Nat.div_eq_of_lt hlt,Nat.zero_add]
      have hmod : (b.toNat*256^bs.length+value bs)%256^bs.length = value bs := by
        rw [Nat.mul_comm,Nat.mul_add_mod,Nat.mod_eq_of_lt hlt]
      rw [hdiv,← fixed_mod,hmod,ih]
      simp

theorem fixed_add (low high n : ℕ) :
    fixed (high+low) n = fixed high (n/256^low)++fixed low n := by
  induction high with
  | zero => simp [fixed]
  | succ high ih =>
      rw [show high+1+low = high+low+1 by omega]
      simp only [fixed,List.cons_append,ih,Nat.div_div_eq_div_mul,← Nat.pow_add,Nat.add_comm low high]

theorem fixed_zero (width : ℕ) : fixed width 0 = List.replicate width 0 := by
  induction width with
  | zero => rfl
  | succ width ih => simp [fixed,ih,List.replicate_succ]

/-- A wider field is the narrower one behind zero bytes. -/
theorem fixed_pad {low n : ℕ} (high : ℕ) (h : n < 256^low) :
    fixed (high+low) n = List.replicate high 0++fixed low n := by
  rw [fixed_add,Nat.div_eq_of_lt h,fixed_zero]

theorem sizeLoop_of_le {fuel n : ℕ} (h : n ≤ fuel) :
    sizeLoop (fuel+1) n = sizeLoop fuel n := by
  induction fuel generalizing n with
  | zero => obtain rfl : n = 0 := by omega
            rfl
  | succ fuel ih =>
      unfold sizeLoop
      split_ifs with hn
      · rfl
      · rw [ih (by omega)]

@[simp] theorem size_zero : size 0 = 0 := rfl

theorem size_of_pos {n : ℕ} (h : 0 < n) : size n = size (n/256)+1 := by
  obtain ⟨m,rfl⟩ : ∃ m, n = m+1 := ⟨n-1,by omega⟩
  suffices hs : ∀ k fuel, k ≤ fuel → sizeLoop fuel k = size k by
    rw [show size (m+1) = sizeLoop (m+1) (m+1) from rfl]
    simp only [sizeLoop,Nat.add_eq_zero_iff,one_ne_zero,and_false,if_false]
    rw [hs _ _ (by omega)]
  intro k fuel hk
  induction fuel with
  | zero => obtain rfl : k = 0 := by omega
            rfl
  | succ fuel ih =>
      rcases Nat.lt_or_ge fuel k with hlt | hle
      · rw [show k = fuel+1 by omega,size]
      · rw [sizeLoop_of_le hle,ih hle]

theorem lt_pow_size (n : ℕ) : n < 256^size n := by
  induction n using Nat.strong_induction_on with
  | h n ih =>
      rcases Nat.eq_zero_or_pos n with rfl | hn
      · simp
      · have hq := ih (n/256) (by omega)
        rw [size_of_pos hn,Nat.pow_succ]
        omega

theorem pow_size_le {n : ℕ} (hn : 0 < n) : 256^(size n-1) ≤ n := by
  induction n using Nat.strong_induction_on with
  | h n ih =>
      rw [size_of_pos hn,Nat.add_sub_cancel]
      rcases Nat.eq_zero_or_pos (n/256) with hz | hp
      · rw [hz,size_zero]
        omega
      · have hq := ih (n/256) (by omega) hp
        have hs : size (n/256) = (size (n/256)-1)+1 := by
          rw [size_of_pos hp]
          omega
        rw [hs,Nat.pow_succ]
        omega

theorem size_le_iff {n k : ℕ} : size n ≤ k ↔ n < 256^k := by
  constructor
  · intro h
    exact (lt_pow_size n).trans_le (Nat.pow_le_pow_right (by omega) h)
  · intro h
    rcases Nat.eq_zero_or_pos n with rfl | hn
    · simp
    · have hp := (pow_size_le hn).trans_lt h
      have := (Nat.pow_lt_pow_iff_right (a := 256) (by omega)).mp hp
      omega

theorem size_pos {n : ℕ} (h : 0 < n) : 0 < size n := by
  rw [size_of_pos h]
  omega

@[simp] theorem minimal_length (n : ℕ) : (minimal n).length = size n := fixed_length _ _

@[simp] theorem value_minimal (n : ℕ) : value (minimal n) = n :=
  value_fixed_of_lt (lt_pow_size n)

@[simp] theorem minimal_zero : minimal 0 = [] := rfl

theorem minimal_injective : Function.Injective minimal := by
  intro a b h
  simpa using congrArg value h

theorem fixed_head {width n : ℕ} (hlow : 256^width ≤ n) (hhigh : n < 256^(width+1)) :
    (fixed (width+1) n).head? ≠ some 0 := by
  have hdiv : 0 < n/256^width := Nat.div_pos hlow (by positivity)
  have hlt : n/256^width < 256 := by
    rw [Nat.div_lt_iff_lt_mul (by positivity)]
    rw [Nat.pow_succ,Nat.mul_comm] at hhigh
    exact hhigh
  simp only [fixed,List.head?_cons,ne_eq,Option.some.injEq]
  intro h
  have := congrArg UInt8.toNat h
  rw [UInt8.toNat_ofNat',UInt8.toNat_zero,Nat.mod_eq_of_lt hlt] at this
  omega

theorem minimal_canonical (n : ℕ) : Canonical (minimal n) := by
  rcases Nat.eq_zero_or_pos n with rfl | hn
  · simp [Canonical]
  · unfold Canonical minimal
    have hs : size n = (size n-1)+1 := by have := size_pos hn; omega
    have hl := pow_size_le hn
    have hu := lt_pow_size n
    rw [hs] at hu ⊢
    exact fixed_head (by simpa using hl) hu

/-- The minimal representation is the only one without a leading zero. -/
theorem eq_minimal_of_canonical {bs : Bytes} (h : Canonical bs) : bs = minimal (value bs) := by
  suffices hs : size (value bs) = bs.length by
    rw [minimal,hs,fixed_value]
  apply le_antisymm (size_le_iff.mpr (value_lt bs))
  cases bs with
  | nil => simp
  | cons b bs =>
      have hb : b ≠ 0 := by simpa [Canonical] using h
      have hpos : 0 < b.toNat := by
        rcases Nat.eq_zero_or_pos b.toNat with hz | hp
        · exact (hb (UInt8.toNat_inj.mp (by simpa using hz))).elim
        · exact hp
      by_contra hlt
      have hle : size (value (b::bs)) ≤ bs.length := by simp only [List.length_cons] at hlt; omega
      have hval := size_le_iff.mp hle
      have hmul := Nat.mul_le_mul_right (256^bs.length) hpos
      simp only [value_cons] at hval
      omega

theorem canonical_iff (bs : Bytes) : Canonical bs ↔ bs = minimal (value bs) :=
  ⟨eq_minimal_of_canonical,fun h => h ▸ minimal_canonical _⟩

/-- A field of fixed width is minimal just when its first byte is needed. -/
theorem fixed_eq_minimal_iff {width n : ℕ} (h : n < 256^(width+1)) :
    fixed (width+1) n = minimal n ↔ 256^width ≤ n := by
  have hcan := canonical_iff (fixed (width+1) n)
  rw [value_fixed_of_lt h] at hcan
  rw [← hcan]
  constructor
  · intro hhead
    by_contra hlt
    rw [Nat.add_comm,fixed_pad 1 (not_le.mp hlt)] at hhead
    exact hhead rfl
  · intro hle
    exact fixed_head hle h

end TownCrier.BigEndian
