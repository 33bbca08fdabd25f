import TownCrier.Cpp
import TownCrier.Rlp

/-!
# Byte strings of the enclave

`encoding.h`, `encoding.cpp` and the helpers of `commons.h`: integers to bytes
and back, RLP strings, hexadecimal text. Every loop is a recursion over the
same counter. Vectors are byte lists; a function which appends to its `out`
argument returns the new content.
-/
namespace TownCrier.Encoding
open BigEndian Cpp

/-- The object representation of a `uint64_t` on the little-endian target. -/
def representation (u : UInt64) : Bytes := (fixed 8 u.toNat).reverse

/-- `memcpy` from the first eight bytes into a `uint64_t`. -/
def load (bs : Bytes) : UInt64 := UInt64.ofNat (value (bs.take 8).reverse)

def swapEndian (u : UInt64) : UInt64 := load (representation u).reverse

/-- `uint_bytes<uint64_t>(buf, n)`: the last eight of the `n` bytes, big-endian. -/
def uintBytes (buf : Bytes) (n : ℕ) : UInt64 := swapEndian (load (buf.drop (n-8)))

/-- The loop of `byte_length`; the argument bounds its number of turns. -/
def byteLengthLoop : ℕ → ℕ → ℕ → ℕ
  | 0, i, _ => i
  | fuel+1, i, n => if n ≠ 0 then byteLengthLoop fuel (i+1) (n >>> 8) else i

def byteLength (n : ℕ) : ℕ := byteLengthLoop n 0 n

def bytesRequired (n : UInt64) : ℕ := byteLength n.toNat

/-- The low byte of a shifted value. -/
def byteAt (n : UInt64) (i : ℕ) : UInt8 := UInt8.ofNat (n.toNat >>> (8*i) &&& 0xff)

/-- The bytes from number `i-1` down to number zero. -/
def shiftLoop (num : UInt64) : ℕ → Bytes
  | 0 => []
  | i+1 => byteAt num i::shiftLoop num i

def itob (num : UInt64) (width : ℕ) : Bytes :=
  if num = 0 ∧ width = 0 then [] else
    let out := shiftLoop num (byteLength num.toNat)
    if width > out.length then List.replicate (width-out.length) 0++out else out

/-- A shift by the full width is a shift by nothing on the target. -/
def getNthByte (n : UInt64) (i : ℕ) : UInt8 :=
  if i > 8 then 0xff else if i = 8 then byteAt n 0 else byteAt n i

def appendLoop (n : UInt64) : ℕ → Bytes
  | 0 => []
  | i+1 => getNthByte n i::appendLoop n i

/-- `none` stands for the return value `-1`, which leaves `out` alone. -/
def appendAsUint256 (out : Bytes) (n : UInt64) (len : ℕ) : Option Bytes :=
  if len > 32 then none else some (out++List.replicate (32-len) 0++appendLoop n len)

/-- `static_cast<uint8_t>` -/
def toByte (n : ℕ) : UInt8 := UInt8.ofNat n

def rlpString (s out : Bytes) : Exec Bytes :=
  if s.length = 1 ∧ s.headD 0 < 0x80 then pure (out++s)
  else if s.length < 56 then pure (out++[0x80+toByte s.length]++s)
  else if byteLength s.length > 8 then raise .invalidArgument
  else pure (out++[0xb7+toByte (byteLength s.length)]++itob (UInt64.ofNat s.length) 0++s)

/-- `bytes::parseUInt64` -/
def parseUInt64 (i : UInt64) : Bytes := itob i 0

/-- The constructor `bytes32(uint64_t)`. -/
def bytes32 (n : UInt64) : Bytes := itob n 32

def hex2int (c : UInt8) : Exec UInt8 :=
  if 48 ≤ c ∧ c ≤ 57 then pure (c-48)
  else if 65 ≤ c ∧ c ≤ 70 then pure (c-65+10)
  else if 97 ≤ c ∧ c ≤ 102 then pure (c-97+10)
  else raise .invalidArgument

def fromHexLoop : Bytes → Exec Bytes
  | a::b::rest => do
      let high ← hex2int a
      let low ← hex2int b
      let out ← fromHexLoop rest
      pure ((high*16+low)::out)
  | _ => pure []

/-- `tc::enclave::from_hex` on the characters before the terminator. -/
def fromHex (src : Bytes) : Exec Bytes :=
  if src.length%2 ≠ 0 then raise .invalidArgument
  else if src.take 2 = ascii "0x" then fromHexLoop (src.drop 2) else fromHexLoop src

/-- An address; the class `bytes20` holds an array of that size. -/
abbrev Bytes20 := {b : Bytes // b.length = 20}

/-- The constructor `bytes20(const char *)`. -/
def bytes20 (hex : Bytes) : Exec Bytes20 := do
  let b ← fromHex hex
  if h : b.length = 20 then pure ⟨b,h⟩ else raise .invalidArgument

theorem byteAt_eq (n : UInt64) (i : ℕ) : byteAt n i = UInt8.ofNat (n.toNat/256^i) := by
  apply UInt8.toNat_inj.mp
  rw [byteAt,UInt8.toNat_ofNat',UInt8.toNat_ofNat',Nat.and_two_pow_sub_one_eq_mod _ 8,
    Nat.shiftRight_eq_div_pow,Nat.pow_mul]
  exact Nat.mod_mod _ _

theorem shiftLoop_eq (n : UInt64) (i : ℕ) : shiftLoop n i = fixed i n.toNat := by
  induction i with
  | zero => rfl
  | succ i ih => simp only [shiftLoop,fixed,byteAt_eq,ih]

theorem byteLengthLoop_eq (fuel i n : ℕ) :
    byteLengthLoop fuel i n = i+sizeLoop fuel n := by
  induction fuel generalizing i n with
  | zero => rfl
  | succ fuel ih =>
      have hdiv : n >>> 8 = n/256 := Nat.shiftRight_eq_div_pow n 8
      rw [byteLengthLoop,sizeLoop,ih,hdiv]
      split_ifs <;> omega

theorem byteLength_eq (n : ℕ) : byteLength n = size n := by
  rw [byteLength,byteLengthLoop_eq,Nat.zero_add,size]

theorem size_toNat_le (n : UInt64) : size n.toNat ≤ 8 :=
  size_le_iff.mpr (by have := n.toNat_lt; omega)

/-- `itob` pads the minimal big-endian form on the left. -/
theorem itob_eq (num : UInt64) (width : ℕ) :
    itob num width = List.replicate (width-size num.toNat) 0++minimal num.toNat := by
  have hloop : shiftLoop num (byteLength num.toNat) = minimal num.toNat := by
    rw [shiftLoop_eq,byteLength_eq,minimal]
  simp only [itob,hloop,minimal_length]
  split_ifs with hz hw
  · simp [hz.1,hz.2]
  · rfl
  · rw [Nat.sub_eq_zero_of_le (by omega)]
    rfl

@[simp] theorem parseUInt64_eq (i : UInt64) : parseUInt64 i = minimal i.toNat := by
  rw [parseUInt64,itob_eq,Nat.zero_sub]
  rfl

theorem itob_fixed (num : UInt64) (width : ℕ) :
    itob num width = fixed (max width (size num.toNat)) num.toNat := by
  rw [itob_eq,minimal,← fixed_pad _ (lt_pow_size _)]
  congr 1
  omega

theorem bytes32_eq (n : UInt64) : bytes32 n = fixed 32 n.toNat := by
  rw [bytes32,itob_fixed]
  congr 1
  have := size_toNat_le n
  omega

theorem getNthByte_eq {i : ℕ} (h : i < 8) (n : UInt64) : getNthByte n i = byteAt n i := by
  rw [getNthByte,if_neg (by omega),if_neg (by omega)]

theorem appendLoop_eq {len : ℕ} (h : len ≤ 8) (n : UInt64) :
    appendLoop n len = fixed len n.toNat := by
  induction len with
  | zero => rfl
  | succ len ih => rw [appendLoop,getNthByte_eq (by omega),byteAt_eq,ih (by omega),fixed]

/-- The padded word holds the low `len` bytes of its argument. -/
theorem appendAsUint256_eq {len : ℕ} (h : len ≤ 8) (out : Bytes) (n : UInt64) :
    appendAsUint256 out n len = some (out++fixed 32 (n.toNat%256^len)) := by
  have hlt : n.toNat%256^len < 256^len := Nat.mod_lt _ (by positivity)
  rw [appendAsUint256,if_neg (by omega),appendLoop_eq h,← fixed_mod,List.append_assoc,
    ← fixed_pad _ hlt,Nat.sub_add_cancel (by omega)]

theorem representation_load {bs : Bytes} (h : 8 ≤ bs.length) :
    representation (load bs) = bs.take 8 := by
  have hl : (bs.take 8).reverse.length = 8 := by simp [h]
  have hlt := value_lt (bs.take 8).reverse
  rw [hl] at hlt
  rw [representation,load,UInt64.toNat_ofNat',Nat.mod_eq_of_lt (by omega)]
  have hf := fixed_value (bs.take 8).reverse
  rw [hl] at hf
  rw [hf,List.reverse_reverse]

/-- Two byte swaps cancel: the bytes are read most significant first. -/
theorem uintBytes_toNat {buf : Bytes} {n : ℕ} (hn : 8 ≤ n) (hb : n ≤ buf.length) :
    (uintBytes buf n).toNat = value ((buf.drop (n-8)).take 8) := by
  have hl : 8 ≤ (buf.drop (n-8)).length := by rw [List.length_drop]; omega
  have hlen : ((buf.drop (n-8)).take 8).length = 8 := by rw [List.length_take]; omega
  have hlt := value_lt ((buf.drop (n-8)).take 8)
  rw [hlen] at hlt
  rw [uintBytes,swapEndian,representation_load hl,load,List.take_of_length_le (by simp),
    List.reverse_reverse,UInt64.toNat_ofNat',Nat.mod_eq_of_lt (by omega)]

/-- A word that was appended is read back, whatever follows it. -/
theorem uintBytes_fixed (n : UInt64) (later : Bytes) :
    uintBytes (fixed 32 n.toNat++later) 32 = n := by
  have hlen : (fixed 32 n.toNat++later).length = 32+later.length := by
    rw [List.length_append,fixed_length]
  have hword : fixed 32 n.toNat++later =
      fixed 24 (n.toNat/256^8)++(fixed 8 n.toNat++later) := by
    rw [show 32 = 24+8 from rfl,fixed_add,List.append_assoc]
  have hlow : ((fixed 32 n.toNat++later).drop (32-8)).take 8 = fixed 8 n.toNat := by
    rw [hword,List.drop_left' (fixed_length _ _),List.take_left' (fixed_length _ _)]
  apply UInt64.toNat_inj.mp
  rw [uintBytes_toNat (by decide) (by omega),hlow]
  exact value_fixed_of_lt n.toNat_lt

theorem appendAsUint256_eight (out : Bytes) (n : UInt64) :
    appendAsUint256 out n 8 = some (out++fixed 32 n.toNat) := by
  have hlt : n.toNat < 256^8 := n.toNat_lt
  rw [appendAsUint256_eq le_rfl,Nat.mod_eq_of_lt hlt]

/-- The routines write one format, in which a number is read back. -/
theorem numbers_agree (x : UInt64) (w : ℕ) (out : Bytes) :
    (value (itob x w) = x.toNat ∧ (itob x w).length = max w (size x.toNat) ∧
        itob x 0 = minimal x.toNat ∧ Canonical (itob x 0) ∧ itob 0 0 = []) ∧
      (appendAsUint256 out x 8 = some (out++itob x 32) ∧ bytes32 x = itob x 32) ∧
      (∀ len ≤ 8, ∃ word, appendAsUint256 out x len = some (out++word) ∧ word.length = 32 ∧
        value word = x.toNat%256^len) ∧
      ∀ word later, appendAsUint256 out x 8 = some (out++word) →
        uintBytes (((out++word)++later).drop out.length) 32 = x := by
  refine ⟨⟨?_,?_,?_,?_,rfl⟩,⟨?_,rfl⟩,fun len hlen => ?_,fun word later h => ?_⟩
  · rw [itob_fixed]
    refine value_fixed_of_lt ((lt_pow_size _).trans_le ?_)
    exact Nat.pow_le_pow_right (by decide) (le_max_right _ _)
  · rw [itob_fixed,fixed_length]
  · exact parseUInt64_eq x
  · rw [show itob x 0 = minimal x.toNat from parseUInt64_eq x]
    exact minimal_canonical _
  · rw [appendAsUint256_eight,← bytes32_eq]
    rfl
  · refine ⟨_,appendAsUint256_eq hlen out x,fixed_length _ _,value_fixed_of_lt ?_⟩
    exact (Nat.mod_le _ _).trans_lt (x.toNat_lt.trans (by decide))
  · rw [appendAsUint256_eight,Option.some.injEq,List.append_cancel_left_eq] at h
    rw [← h,List.append_assoc,List.drop_left]
    exact uintBytes_fixed x later

/-- A number with a zero byte in the middle, in two bytes and in a word. -/
theorem numbers_agree_gap :
    (∃ word, appendAsUint256 [7] 0x010002 2 = some ([7]++word) ∧ word.length = 32 ∧
        value word = 2) ∧
      uintBytes ((([7]++itob 0x010002 32)++[9]).drop 1) 32 = 0x010002 :=
  have h := numbers_agree 0x010002 0 [7]
  ⟨h.2.2.1 2 (by decide),h.2.2.2 _ [9] h.2.1.1⟩

/-- The template encoder is the canonical string encoding. -/
theorem rlpString_eq (s out : Bytes) (h : s.length < 2^64) :
    rlpString s out = pure (out++Rlp.encodeStr s) := by
  have hsize : size s.length ≤ 8 := Rlp.size_le_eight h
  have hhead : s.length = 1 → (s.headD 0 < 0x80 ↔ value s < 0x80) := by
    intro h₁
    obtain ⟨x,rfl⟩ := List.length_eq_one_iff.mp h₁
    simp [UInt8.lt_iff_toNat_lt]
  have hadd : ∀ a k : ℕ, UInt8.ofNat a+toByte k = UInt8.ofNat (a+k) := by
    intro a k
    exact (UInt8.ofNat_add a k).symm
  have hnat : (UInt64.ofNat s.length).toNat = s.length := by
    rw [UInt64.toNat_ofNat',Nat.mod_eq_of_lt h]
  unfold rlpString Rlp.encodeStr Rlp.header
  by_cases h₁ : s.length = 1 ∧ s.headD 0 < 0x80
  · have h₂ : s.length = 1 ∧ value s < 0x80 := ⟨h₁.1,(hhead h₁.1).mp h₁.2⟩
    rw [if_pos h₁,if_pos h₂]
  · have hv : ¬(s.length = 1 ∧ value s < 0x80) := fun hv => h₁ ⟨hv.1,(hhead hv.1).mpr hv.2⟩
    rw [if_neg h₁,if_neg hv]
    by_cases h₂ : s.length < 56
    · rw [if_pos h₂,if_pos h₂,← hadd,List.append_assoc]
      rfl
    · rw [if_neg h₂,if_neg h₂,byteLength_eq,if_neg (by omega),itob_eq,hnat,Nat.zero_sub,← hadd]
      simp only [List.replicate_zero,List.nil_append,List.append_assoc,List.cons_append]
      rfl

end TownCrier.Encoding
