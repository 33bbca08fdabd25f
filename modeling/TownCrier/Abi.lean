import TownCrier.Encoding
import Mathlib.Data.UInt

/-!
# The ABI encoder of the enclave

The classes of `eth_abi.h`. An array writes the heads of its items and then the
tails of the dynamic ones; the lengths it adds up for the offsets are `int`
values turned into `size_t`.
-/
namespace TownCrier.Abi
open BigEndian Cpp Encoding

inductive Serializable where
  | uInt8 (data : UInt8)
  | uInt32 (data : UInt32)
  | uInt64 (data : UInt64)
  | address (data : Bytes)
  | bytes32 (data : Bytes)
  | bytes (data : Bytes)
  | genericArray (items : List Serializable)

/-- `ROUND_TO_32` -/
def roundTo32 (n : UInt64) : UInt64 := (n+31)/32*32

def dynamic : Serializable → Bool
  | .bytes _ | .genericArray _ => true
  | _ => false

mutual
def encodeLen : Serializable → Int32
  | .bytes data => narrow (32+roundTo32 (UInt64.ofNat data.length))
  | .genericArray items => encodeLenSum items 32
  | _ => 32

def encodeLenSum : List Serializable → Int32 → Int32
  | [], len => len
  | i::is, len => encodeLenSum is (len+encodeLen i)
end

def headLen (i : Serializable) : UInt64 := if dynamic i then 32 else widen (encodeLen i)
def tailLen (i : Serializable) : UInt64 := if dynamic i then widen (encodeLen i) else 0

def headLenSum (items : List Serializable) : UInt64 := (items.map headLen).sum

mutual
/-- `none` stands for a return value other than zero. -/
def encode : Serializable → Bytes → Option Bytes
  | .uInt8 data, out => appendAsUint256 out (UInt64.ofNat data.toNat) 1
  | .uInt32 data, out => appendAsUint256 out (UInt64.ofNat data.toNat) 4
  | .uInt64 data, out => appendAsUint256 out data 8
  | .address data, out => some (out++List.replicate 12 0++data.take 20)
  | .bytes32 data, out => some (out++data.take 32)
  | .bytes data, out =>
      let size := UInt64.ofNat data.length
      (appendAsUint256 out size 4).map fun out =>
        out++List.replicate (roundTo32 size-size).toNat 0++data
  | .genericArray items, out =>
      (encodeHeads (headLenSum items) 0 0 items out).bind (encodeTails items)

/-- `before` is the length of the tails of the items seen so far; `tailLenSum`
is never set back to zero between two items. -/
def encodeHeads (headLenSum tailLenSum before : UInt64) : List Serializable → Bytes → Option Bytes
  | [], out => some out
  | i::is, out =>
      if dynamic i then
        (appendAsUint256 out (headLenSum+(tailLenSum+before)) 8).bind
          (encodeHeads headLenSum (tailLenSum+before) (before+tailLen i) is)
      else (encode i out).bind (encodeHeads headLenSum tailLenSum (before+tailLen i) is)

def encodeTails : List Serializable → Bytes → Option Bytes
  | [], out => some out
  | i::is, out =>
      if dynamic i then (encode i out).bind (encodeTails is) else encodeTails is out
end

theorem encode_uInt64 (data : UInt64) (out : Bytes) :
    encode (.uInt64 data) out = some (out++fixed 32 data.toNat) := by
  have hlt : data.toNat%256^8 = data.toNat := Nat.mod_eq_of_lt data.toNat_lt
  rw [encode,appendAsUint256_eq (by omega),hlt]

theorem encode_bytes32 {data : Bytes} (h : data.length = 32) (out : Bytes) :
    encode (.bytes32 data) out = some (out++data) := by
  rw [encode,List.take_of_length_le (by omega)]

/-- The words of static items stand one after another. -/
theorem encodeHeads_static {words : List (Serializable × Bytes)}
    (h : ∀ p ∈ words, dynamic p.1 = false ∧ ∀ out, encode p.1 out = some (out++p.2))
    (headLenSum tailLenSum before : UInt64) (out : Bytes) :
    encodeHeads headLenSum tailLenSum before (words.map Prod.fst) out =
      some (out++(words.map Prod.snd).flatten) := by
  induction words generalizing before out with
  | nil => simp [encodeHeads]
  | cons p words ih =>
      obtain ⟨hdyn,henc⟩ := h p (List.mem_cons_self ..)
      have hrest := fun q hq => h q (List.mem_cons_of_mem _ hq)
      rw [List.map_cons,encodeHeads,hdyn,if_neg Bool.false_ne_true,henc,Option.bind_some,ih hrest,
        List.map_cons,List.flatten_cons,List.append_assoc]

theorem encodeTails_static {items : List Serializable} (h : ∀ i ∈ items, dynamic i = false)
    (out : Bytes) : encodeTails items out = some out := by
  induction items with
  | nil => rfl
  | cons i items ih =>
      rw [encodeTails,h i (List.mem_cons_self ..),if_neg Bool.false_ne_true]
      exact ih fun j hj => h j (List.mem_cons_of_mem _ hj)

theorem encode_static {words : List (Serializable × Bytes)}
    (h : ∀ p ∈ words, dynamic p.1 = false ∧ ∀ out, encode p.1 out = some (out++p.2))
    (out : Bytes) :
    encode (.genericArray (words.map Prod.fst)) out =
      some (out++(words.map Prod.snd).flatten) := by
  rw [encode,encodeHeads_static h,Option.bind_some]
  apply encodeTails_static
  intro i hi
  obtain ⟨p,hp,rfl⟩ := List.mem_map.mp hi
  exact (h p hp).1

end TownCrier.Abi
