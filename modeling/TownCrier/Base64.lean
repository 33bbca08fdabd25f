import TownCrier.HybridCipher

/-!
# Base64

`b64_ntop` in `base64.cpp` writes an encoding and a terminator into a buffer.
`b64_pton` reads it back, for every length of the data and into any buffer that
holds them.
-/
namespace TownCrier.HybridCipher
open BigEndian Cpp

/-- `Base64[output]`; the outputs are below 64. -/
def base64Char (output : UInt8) : UInt8 := base64Alphabet.getD output.toNat 0

def output0 (a : UInt8) : UInt8 := a >>> 2
def output1 (a b : UInt8) : UInt8 := ((a &&& 0x03) <<< 4)+(b >>> 4)
def output2 (b c : UInt8) : UInt8 := ((b &&& 0x0f) <<< 2)+(c >>> 6)
def output3 (c : UInt8) : UInt8 := c &&& 0x3f

/-- Room for four characters. -/
def b64Put (targsize : ℕ) (target chars : Bytes) : Option Bytes :=
  if target.length+4 > targsize then none else some (target++chars)

/-- The terminator is not part of the result. -/
def b64Terminate (targsize : ℕ) (target : Bytes) : Option Bytes :=
  if target.length ≥ targsize then none else some target

def b64NtopLoop (targsize : ℕ) : Bytes → Bytes → Option Bytes
  | a::b::c::src, target => do
      let target ← b64Put targsize target
        [base64Char (output0 a),base64Char (output1 a b),base64Char (output2 b c),
          base64Char (output3 c)]
      b64NtopLoop targsize src target
  | [a,b], target => do
      let target ← b64Put targsize target
        [base64Char (output0 a),base64Char (output1 a b),base64Char (output2 b 0),61]
      b64Terminate targsize target
  | [a], target => do
      let target ← b64Put targsize target [base64Char (output0 a),base64Char (output1 a 0),61,61]
      b64Terminate targsize target
  | [], target => b64Terminate targsize target

/-- `none` stands for the return value `-1`. -/
def b64Ntop (src : Bytes) (targsize : ℕ) : Option Bytes := b64NtopLoop targsize src []

/-- The encoding itself. -/
def base64 : Bytes → Bytes
  | a::b::c::src =>
      base64Char (output0 a)::base64Char (output1 a b)::base64Char (output2 b c)::
        base64Char (output3 c)::base64 src
  | [a,b] => [base64Char (output0 a),base64Char (output1 a b),base64Char (output2 b 0),61]
  | [a] => [base64Char (output0 a),base64Char (output1 a 0),61,61]
  | [] => []

theorem base64_length (src : Bytes) : (base64 src).length = 4*((src.length+2)/3) := by
  fun_induction base64 src with
  | case1 a b c src ih =>
      simp only [List.length_cons,ih]
      omega
  | case2 | case3 | case4 => simp

/-- The buffer has to take the encoding and the terminator. -/
theorem b64NtopLoop_eq (targsize : ℕ) (src target : Bytes) :
    b64NtopLoop targsize src target =
      if target.length+(base64 src).length < targsize then some (target++base64 src) else none := by
  fun_induction base64 src generalizing target with
  | case1 a b c src ih =>
      rw [b64NtopLoop,b64Put]
      split_ifs with hfull hfits hfits
      · simp only [List.length_cons] at hfits
        omega
      · rfl
      · rw [Option.bind_eq_bind,Option.bind_some,ih,if_pos]
        · simp
        · simp only [List.length_append,List.length_cons,List.length_nil] at hfits ⊢
          omega
      · rw [Option.bind_eq_bind,Option.bind_some,ih,if_neg]
        simp only [List.length_append,List.length_cons,List.length_nil] at hfits ⊢
        omega
  | case2 | case3 =>
      simp only [b64NtopLoop,b64Put,b64Terminate,List.length_cons,List.length_nil]
      split_ifs
      all_goals simp
      all_goals omega
  | case4 =>
      simp only [b64NtopLoop,b64Terminate,List.length_nil,Nat.add_zero,List.append_nil]
      split_ifs
      all_goals first | rfl | omega

theorem b64Ntop_eq {src : Bytes} {targsize : ℕ} (h : 4*((src.length+2)/3) < targsize) :
    b64Ntop src targsize = some (base64 src) := by
  rw [b64Ntop,b64NtopLoop_eq,if_pos]
  · rfl
  · rw [base64_length]
    simpa using h

section Bits
variable (a b c : UInt8)

theorem or_toNat {x y : UInt8} (k : ℕ) (hx : x.toNat%2^k = 0) (hy : y.toNat < 2^k) :
    (x ||| y).toNat = x.toNat+y.toNat := by
  have h := Nat.two_pow_add_eq_or_of_lt hy (x.toNat/2^k)
  rw [Nat.mul_div_cancel' (Nat.dvd_of_mod_eq_zero hx)] at h
  rw [UInt8.toNat_or,← h]

theorem and_toNat {x mask : UInt8} (k : ℕ) (h : mask.toNat = 2^k-1) :
    (x &&& mask).toNat = x.toNat%2^k := by
  rw [UInt8.toNat_and,h,Nat.and_two_pow_sub_one_eq_mod]

theorem shiftLeft_toNat {x n : UInt8} (k : ℕ) (hn : n.toNat = k) (hk : k < 8) :
    (x <<< n).toNat = x.toNat*2^k%256 := by
  rw [UInt8.toNat_shiftLeft,hn,Nat.mod_eq_of_lt hk,Nat.shiftLeft_eq]

theorem shiftRight_toNat {x n : UInt8} (k : ℕ) (hn : n.toNat = k) (hk : k < 8) :
    (x >>> n).toNat = x.toNat/2^k := by
  rw [UInt8.toNat_shiftRight,hn,Nat.mod_eq_of_lt hk,Nat.shiftRight_eq_div_pow]

theorem output0_toNat : (output0 a).toNat = a.toNat/4 := shiftRight_toNat 2 rfl (by decide)

theorem output1_toNat : (output1 a b).toNat = a.toNat%4*16+b.toNat/16 := by
  have hb := b.toNat_lt
  rw [output1,UInt8.toNat_add,shiftLeft_toNat 4 rfl (by decide),
    shiftRight_toNat 4 rfl (by decide),and_toNat 2 rfl]
  omega

theorem output2_toNat : (output2 b c).toNat = b.toNat%16*4+c.toNat/64 := by
  have hc := c.toNat_lt
  rw [output2,UInt8.toNat_add,shiftLeft_toNat 2 rfl (by decide),
    shiftRight_toNat 6 rfl (by decide),and_toNat 4 rfl]
  omega

theorem output3_toNat : (output3 c).toNat = c.toNat%64 := and_toNat 6 rfl

/-- The first byte from its six high bits and its two low ones, and so on. -/
theorem byte0 : output0 a <<< 2 ||| output1 a b >>> 4 = a := by
  have ha := a.toNat_lt
  have hb := b.toNat_lt
  have hhigh : (output0 a <<< 2).toNat = a.toNat/4*4 := by
    rw [shiftLeft_toNat 2 rfl (by decide),output0_toNat]
    omega
  have hlow : (output1 a b >>> 4).toNat = a.toNat%4 := by
    rw [shiftRight_toNat 4 rfl (by decide),output1_toNat]
    omega
  apply UInt8.toNat_inj.mp
  rw [or_toNat 2 (by omega) (by omega),hhigh,hlow]
  omega

theorem byte1 : (output1 a b &&& 0x0f) <<< 4 ||| output2 b c >>> 2 = b := by
  have hb := b.toNat_lt
  have hc := c.toNat_lt
  have hhigh : ((output1 a b &&& 0x0f) <<< 4).toNat = b.toNat/16*16 := by
    rw [shiftLeft_toNat 4 rfl (by decide),and_toNat 4 rfl,output1_toNat]
    omega
  have hlow : (output2 b c >>> 2).toNat = b.toNat%16 := by
    rw [shiftRight_toNat 2 rfl (by decide),output2_toNat]
    omega
  apply UInt8.toNat_inj.mp
  rw [or_toNat 4 (by omega) (by omega),hhigh,hlow]
  omega

theorem byte2 : (output2 b c &&& 0x03) <<< 6 ||| output3 c = c := by
  have hc := c.toNat_lt
  have hhigh : ((output2 b c &&& 0x03) <<< 6).toNat = c.toNat/64*64 := by
    rw [shiftLeft_toNat 6 rfl (by decide),and_toNat 2 rfl,output2_toNat]
    omega
  have hlow := output3_toNat c
  apply UInt8.toNat_inj.mp
  rw [or_toNat 6 (by omega) (by omega),hhigh,hlow]
  omega

/-- The bits that are left over at the end are zero. -/
theorem rest1 : (output1 a 0 &&& 0x0f) <<< 4 = 0 := by
  apply UInt8.toNat_inj.mp
  rw [shiftLeft_toNat 4 rfl (by decide),and_toNat 4 rfl,output1_toNat,UInt8.toNat_zero]
  omega

theorem rest2 : (output2 b 0 &&& 0x03) <<< 6 = 0 := by
  apply UInt8.toNat_inj.mp
  rw [shiftLeft_toNat 6 rfl (by decide),and_toNat 2 rfl,output2_toNat,UInt8.toNat_zero]
  omega

theorem output0_lt : (output0 a).toNat < 64 := by
  have := a.toNat_lt
  rw [output0_toNat]
  omega

theorem output1_lt : (output1 a b).toNat < 64 := by
  have := b.toNat_lt
  rw [output1_toNat]
  omega

theorem output2_lt : (output2 b c).toNat < 64 := by
  have := c.toNat_lt
  rw [output2_toNat]
  omega

theorem output3_lt : (output3 c).toNat < 64 := by
  rw [output3_toNat]
  omega

end Bits

section Chars
variable {k : UInt8} (hk : k.toNat < 64)
include hk

/-- A character of the alphabet, found at its place. -/
theorem base64Char_spec : isSpace (base64Char k) = false ∧ base64Char k ≠ 61 ∧
    base64Char k ≠ 0 ∧ base64Alphabet.idxOf? (base64Char k) = some k.toNat := by
  have hall : ∀ n : Fin 64, isSpace (base64Alphabet.getD n 0) = false ∧
      base64Alphabet.getD n 0 ≠ 61 ∧ base64Alphabet.getD n 0 ≠ 0 ∧
      base64Alphabet.idxOf? (base64Alphabet.getD n 0) = some n.val := by
    decide +kernel
  exact hall ⟨k.toNat,hk⟩

theorem b64Loop_char (targsize : ℕ) (state : Fin 4) (t : Target) (s : Bytes) :
    b64Loop targsize state t (base64Char k::s) =
      (b64Step targsize state t k).bind fun t => b64Loop targsize (state+1) t s := by
  obtain ⟨hspace,hpad,-,hidx⟩ := base64Char_spec hk
  rw [b64Loop,hspace,if_neg Bool.false_ne_true,if_neg hpad,hidx]
  simp only [UInt8.ofNat_toNat]
  rfl

end Chars

section Decode
variable {targsize : ℕ} {bytes : Bytes} {next a b c : UInt8} {s : Bytes}

theorem b64Loop_first (h : bytes.length < targsize) :
    b64Loop targsize 0 ⟨bytes,next⟩ (base64Char (output0 a)::s) =
      b64Loop targsize 1 ⟨bytes,output0 a <<< 2⟩ s := by
  rw [b64Loop_char (output0_lt a),b64Step,if_neg (Nat.not_le.mpr h)]
  rfl

theorem b64Loop_second (h : bytes.length < targsize)
    (hroom : bytes.length+1 < targsize ∨ (output1 a b &&& 0x0f) <<< 4 = 0) :
    b64Loop targsize 1 ⟨bytes,output0 a <<< 2⟩ (base64Char (output1 a b)::s) =
      b64Loop targsize 2 ⟨bytes++[a],(output1 a b &&& 0x0f) <<< 4⟩ s := by
  rw [b64Loop_char (output1_lt a b),b64Step,Target.spill,if_neg (Nat.not_le.mpr h),if_pos hroom,
    byte0]
  rfl

theorem b64Loop_third (h : bytes.length < targsize)
    (hroom : bytes.length+1 < targsize ∨ (output2 b c &&& 0x03) <<< 6 = 0) :
    b64Loop targsize 2 ⟨bytes,(output1 a b &&& 0x0f) <<< 4⟩ (base64Char (output2 b c)::s) =
      b64Loop targsize 3 ⟨bytes++[b],(output2 b c &&& 0x03) <<< 6⟩ s := by
  rw [b64Loop_char (output2_lt b c),b64Step,Target.spill,if_neg (Nat.not_le.mpr h),if_pos hroom,
    byte1]
  rfl

theorem b64Loop_fourth (h : bytes.length < targsize) :
    b64Loop targsize 3 ⟨bytes,(output2 b c &&& 0x03) <<< 6⟩ (base64Char (output3 c)::s) =
      b64Loop targsize 0 ⟨bytes++[c],0⟩ s := by
  rw [b64Loop_char (output3_lt c),b64Step,if_neg (Nat.not_le.mpr h),byte2]
  rfl

theorem b64Loop_pad (state : Fin 4) (t : Target) :
    b64Loop targsize state t (61::s) = b64Padding targsize state t s := rfl

end Decode

theorem b64Loop_base64 {targsize : ℕ} (src : Bytes) (bytes : Bytes) (next : UInt8)
    (h : bytes.length+src.length ≤ targsize) :
    b64Loop targsize 0 ⟨bytes,next⟩ (base64 src) = some (bytes++src) := by
  fun_induction base64 src generalizing bytes next with
  | case1 a b c src ih =>
      simp only [List.length_cons] at h
      rw [b64Loop_first (by omega),b64Loop_second (by omega) (.inl (by omega)),
        b64Loop_third (by simp; omega) (.inl (by simp; omega)),
        b64Loop_fourth (by simp; omega),ih _ _ (by simp; omega)]
      simp
  | case2 a b =>
      simp only [List.length_cons,List.length_nil] at h
      rw [b64Loop_first (by omega),b64Loop_second (by omega) (.inl (by omega)),
        b64Loop_third (by simp; omega) (.inr (rest2 b)),b64Loop_pad,rest2]
      simp [b64Padding]
  | case3 a =>
      simp only [List.length_cons,List.length_nil] at h
      rw [b64Loop_first (by omega),b64Loop_second (by omega) (.inr (rest1 a)),b64Loop_pad,rest1]
      simp [b64Padding,isSpace]
  | case4 => simp [b64Loop]

theorem b64Pton_base64 {src : Bytes} {targsize : ℕ} (h : src.length ≤ targsize) :
    b64Pton (base64 src) targsize = some src :=
  b64Loop_base64 src [] 0 (by simpa using h)

theorem base64_ne_zero (src : Bytes) : ∀ x ∈ base64 src, x ≠ 0 := by
  fun_induction base64 src with
  | case1 a b c src ih =>
      simp only [List.forall_mem_cons]
      exact ⟨(base64Char_spec (output0_lt a)).2.2.1,(base64Char_spec (output1_lt a b)).2.2.1,
        (base64Char_spec (output2_lt b c)).2.2.1,(base64Char_spec (output3_lt c)).2.2.1,ih⟩
  | case2 a b =>
      simp only [List.forall_mem_cons]
      exact ⟨(base64Char_spec (output0_lt a)).2.2.1,(base64Char_spec (output1_lt a b)).2.2.1,
        (base64Char_spec (output2_lt b 0)).2.2.1,by decide,by simp⟩
  | case3 a =>
      simp only [List.forall_mem_cons]
      exact ⟨(base64Char_spec (output0_lt a)).2.2.1,(base64Char_spec (output1_lt a 0)).2.2.1,
        by decide,by decide,by simp⟩
  | case4 => simp

end TownCrier.HybridCipher
