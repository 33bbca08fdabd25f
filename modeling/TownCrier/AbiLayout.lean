import TownCrier.Abi

/-!
# The layout of an ABI array

What `ABI_Generic_Array::encode` appends is one word for each item and then the
tails of the dynamic ones. The word of a dynamic item is a sum of announced
lengths, which is compared here with the place of its tail.
-/
namespace TownCrier.Abi
open BigEndian Cpp Encoding

/-- Every `bytes32` in the item has its 32 bytes. -/
inductive Sized : Serializable → Prop
  | uInt8 (data : UInt8) : Sized (.uInt8 data)
  | uInt32 (data : UInt32) : Sized (.uInt32 data)
  | uInt64 (data : UInt64) : Sized (.uInt64 data)
  | address {data : Bytes} : data.length = 32 → Sized (.address data)
  | bytes32 {data : Bytes} : data.length = 32 → Sized (.bytes32 data)
  | bytes (data : Bytes) : Sized (.bytes data)
  | genericArray {items : List Serializable} :
      (∀ i ∈ items, Sized i) → Sized (.genericArray items)

mutual
/-- The bytes an item takes when it is written. -/
def extent : Serializable → ℕ
  | .bytes data => 32+(data.length+31)/32*32
  | .genericArray items => spans items
  | _ => 32

/-- The words of the items and the tails of the dynamic ones. -/
def spans : List Serializable → ℕ
  | [] => 0
  | i::is => 32+(if dynamic i then extent i else 0)+spans is
end

/-- What an item writes. -/
def image (i : Serializable) : Bytes := (encode i []).getD []

/-- The words which the head loop writes from its variables. -/
def headWords (headLenSum tailLenSum before : UInt64) : List Serializable → List Bytes
  | [] => []
  | i::is =>
      if dynamic i then
        fixed 32 (headLenSum+(tailLenSum+before)).toNat::
          headWords headLenSum (tailLenSum+before) (before+tailLen i) is
      else image i::headWords headLenSum tailLenSum (before+tailLen i) is

def tails (items : List Serializable) : List Bytes := (items.filter dynamic).map image

theorem tails_cons_of_dynamic {i : Serializable} (h : dynamic i = true)
    (items : List Serializable) : tails (i::items) = image i::tails items := by
  rw [tails,List.filter_cons_of_pos h,List.map_cons,tails]

theorem tails_cons_of_static {i : Serializable} (h : dynamic i = false)
    (items : List Serializable) : tails (i::items) = tails items := by
  rw [tails,List.filter_cons_of_neg (by simp [h]),tails]

theorem tails_append (before after : List Serializable) :
    tails (before++after) = tails before++tails after := by
  rw [tails,List.filter_append,List.map_append,tails,tails]

theorem image_of {i : Serializable} {w : Bytes} (h : ∀ out, encode i out = some (out++w)) :
    image i = w := by
  rw [image,h,List.nil_append,Option.getD_some]

theorem padding (n : ℕ) :
    (roundTo32 (UInt64.ofNat n)-UInt64.ofNat n).toNat = (n+31)/32*32-n := by
  simp only [roundTo32,UInt64.toNat_sub,UInt64.toNat_mul,UInt64.toNat_div,UInt64.toNat_add,
    UInt64.toNat_ofNat',UInt64.toNat_ofNat,Nat.reducePow,Nat.reduceMod]
  omega

theorem encode_bytes (data out : Bytes) :
    encode (.bytes data) out =
      some (out++(fixed 32 (data.length%2^32)++
        (List.replicate ((data.length+31)/32*32-data.length) 0++data))) := by
  have hsize : (UInt64.ofNat data.length).toNat%256^4 = data.length%2^32 := by
    rw [UInt64.toNat_ofNat']
    omega
  rw [encode,appendAsUint256_eq (by omega),padding,hsize,Option.map_some]
  simp only [List.append_assoc]

section Loops
variable {items : List Serializable} (h : ∀ i ∈ items, ∀ out, encode i out = some (out++image i))
include h

theorem encodeHeads_eq (headLenSum tailLenSum before : UInt64) (out : Bytes) :
    encodeHeads headLenSum tailLenSum before items out =
      some (out++(headWords headLenSum tailLenSum before items).flatten) := by
  induction items generalizing tailLenSum before out with
  | nil => simp [encodeHeads,headWords]
  | cons i items ih =>
      have hrest := ih fun j hj => h j (List.mem_cons_of_mem _ hj)
      rw [encodeHeads,headWords]
      cases hdyn : dynamic i with
      | true =>
          have hlt := (headLenSum+(tailLenSum+before)).toNat_lt
          rw [if_pos rfl,if_pos rfl,appendAsUint256_eq (by omega),Option.bind_some,hrest,
            List.flatten_cons,List.append_assoc,Nat.mod_eq_of_lt (by omega)]
      | false =>
          rw [if_neg Bool.false_ne_true,if_neg Bool.false_ne_true,h i (List.mem_cons_self ..),
            Option.bind_some,hrest,List.flatten_cons,List.append_assoc]

theorem encodeTails_eq (out : Bytes) :
    encodeTails items out = some (out++(tails items).flatten) := by
  induction items generalizing out with
  | nil => simp [encodeTails,tails]
  | cons i items ih =>
      have hrest := ih fun j hj => h j (List.mem_cons_of_mem _ hj)
      rw [encodeTails]
      cases hdyn : dynamic i with
      | true =>
          rw [if_pos rfl,h i (List.mem_cons_self ..),Option.bind_some,hrest,
            tails_cons_of_dynamic hdyn,List.flatten_cons,List.append_assoc]
      | false =>
          rw [if_neg Bool.false_ne_true,hrest,tails_cons_of_static hdyn]

theorem encode_genericArray (out : Bytes) :
    encode (.genericArray items) out =
      some (out++((headWords (headLenSum items) 0 0 items).flatten++(tails items).flatten)) := by
  rw [encode,encodeHeads_eq h,Option.bind_some,encodeTails_eq h,List.append_assoc]

end Loops

/-- No item fails, and what it writes does not depend on what is there already. -/
theorem encode_eq {i : Serializable} (h : Sized i) (out : Bytes) :
    encode i out = some (out++image i) := by
  have himage {i : Serializable} {w : Bytes} (h : ∀ out, encode i out = some (out++w)) :
      ∀ out, encode i out = some (out++image i) := by
    rw [image_of h]
    exact h
  induction h generalizing out with
  | uInt8 data => exact himage (fun out => by rw [encode,appendAsUint256_eq (by omega)]) out
  | uInt32 data => exact himage (fun out => by rw [encode,appendAsUint256_eq (by omega)]) out
  | uInt64 data => exact himage (fun out => by rw [encode,appendAsUint256_eq (by omega)]) out
  | address _ => exact himage (fun out => by rw [encode,List.append_assoc]) out
  | bytes32 _ => exact himage (fun out => by rw [encode]) out
  | bytes data => exact himage (encode_bytes data) out
  | genericArray _ ih => exact himage (encode_genericArray fun i hi out => ih i hi out) out

theorem encode_items {items : List Serializable} (h : ∀ i ∈ items, Sized i) :
    ∀ i ∈ items, ∀ out, encode i out = some (out++image i) :=
  fun i hi => encode_eq (h i hi)

theorem image_genericArray {items : List Serializable} (h : ∀ i ∈ items, Sized i) :
    image (.genericArray items) =
      (headWords (headLenSum items) 0 0 items).flatten++(tails items).flatten :=
  image_of (encode_genericArray (encode_items h))

theorem image_bytes (data : Bytes) :
    image (.bytes data) = fixed 32 (data.length%2^32)++
      (List.replicate ((data.length+31)/32*32-data.length) 0++data) :=
  image_of (encode_bytes data)

theorem image_static {i : Serializable} (h : Sized i) (hdyn : dynamic i = false) :
    (image i).length = 32 := by
  cases h with
  | uInt8 data =>
      rw [image_of fun out => by rw [encode,appendAsUint256_eq (by omega)],fixed_length]
  | uInt32 data =>
      rw [image_of fun out => by rw [encode,appendAsUint256_eq (by omega)],fixed_length]
  | uInt64 data =>
      rw [image_of fun out => by rw [encode,appendAsUint256_eq (by omega)],fixed_length]
  | address h =>
      rw [image_of fun out => by rw [encode,List.append_assoc],List.length_append,
        List.length_replicate,List.length_take,h]
      rfl
  | bytes32 h =>
      rw [image_of fun out => by rw [encode],List.length_take,h]
      rfl
  | bytes data => cases hdyn
  | genericArray h => cases hdyn

theorem headWords_length (headLenSum tailLenSum before : UInt64) (items : List Serializable) :
    (headWords headLenSum tailLenSum before items).length = items.length := by
  induction items generalizing tailLenSum before with
  | nil => rfl
  | cons i items ih =>
      rw [headWords]
      split_ifs
      · rw [List.length_cons,ih,List.length_cons]
      · rw [List.length_cons,ih,List.length_cons]

theorem length_of_mem_headWords {items : List Serializable} (h : ∀ i ∈ items, Sized i)
    {headLenSum tailLenSum before : UInt64} {w : Bytes}
    (hw : w ∈ headWords headLenSum tailLenSum before items) : w.length = 32 := by
  induction items generalizing tailLenSum before with
  | nil => cases hw
  | cons i items ih =>
      have hrest := fun j hj => h j (List.mem_cons_of_mem _ hj)
      rw [headWords] at hw
      split_ifs at hw with hdyn
      · cases hw with
        | head => exact fixed_length _ _
        | tail _ hw => exact ih hrest hw
      · cases hw with
        | head => exact image_static (h i (List.mem_cons_self ..)) (by simpa using hdyn)
        | tail _ hw => exact ih hrest hw

/-- Words of one width, joined. -/
theorem flatten_length {A : Type} {width : ℕ} {words : List (List A)}
    (h : ∀ w ∈ words, w.length = width) : words.flatten.length = width*words.length := by
  induction words with
  | nil => rfl
  | cons w words ih =>
      rw [List.flatten_cons,List.length_append,h w (List.mem_cons_self ..),
        ih fun v hv => h v (List.mem_cons_of_mem _ hv),List.length_cons,Nat.mul_succ,Nat.add_comm]

/-- A word is found where the words before it end. -/
theorem flatten_window {A : Type} {width : ℕ} {words : List (List A)}
    (h : ∀ w ∈ words, w.length = width) {k : ℕ} {w : List A} (hk : words[k]? = some w)
    (rest : List A) : ((words.flatten++rest).drop (width*k)).take width = w := by
  have hw := h w (List.mem_of_getElem? hk)
  have hbefore : (words.take k).flatten.length = width*k := by
    rw [flatten_length fun v hv => h v (List.mem_of_mem_take hv),List.length_take,
      Nat.min_eq_left (List.getElem?_eq_some_iff.mp hk).1.le]
  have hafter : words.drop k = w::words.drop (k+1) := by
    obtain ⟨hlt,rfl⟩ := List.getElem?_eq_some_iff.mp hk
    exact List.drop_eq_getElem_cons hlt
  have hsplit : words.flatten++rest =
      (words.take k).flatten++(w++((words.drop (k+1)).flatten++rest)) := by
    conv_lhs => rw [← List.take_append_drop k words,hafter]
    simp only [List.flatten_append,List.flatten_cons,List.append_assoc]
  rw [hsplit,List.drop_left' hbefore,List.take_left' hw]

theorem extent_static {i : Serializable} (h : dynamic i = false) : extent i = 32 := by
  cases i with
  | bytes => cases h
  | genericArray => cases h
  | _ => rfl

theorem image_length {i : Serializable} (h : Sized i) : (image i).length = extent i := by
  have hwords {items : List Serializable} (hsized : ∀ i ∈ items, Sized i)
      (ih : ∀ i ∈ items, (image i).length = extent i) :
      32*items.length+(tails items).flatten.length = spans items := by
    clear h
    induction items with
    | nil => rfl
    | cons i items ihItems =>
        have hrest := ihItems (fun j hj => hsized j (List.mem_cons_of_mem _ hj))
          (fun j hj => ih j (List.mem_cons_of_mem _ hj))
        have hi := ih i (List.mem_cons_self ..)
        rw [spans,← hrest]
        cases hdyn : dynamic i with
        | true =>
            rw [tails_cons_of_dynamic hdyn,List.flatten_cons,List.length_append,hi,
              List.length_cons,if_pos rfl]
            omega
        | false =>
            rw [tails_cons_of_static hdyn,List.length_cons,if_neg Bool.false_ne_true]
            omega
  induction h with
  | bytes data =>
      rw [image_bytes,extent,List.length_append,List.length_append,fixed_length,
        List.length_replicate]
      omega
  | genericArray hsized ih =>
      rw [image_genericArray hsized,extent,← hwords hsized ih,List.length_append,
        flatten_length fun w => length_of_mem_headWords hsized,headWords_length]
  | uInt8 data => exact image_static (.uInt8 data) rfl
  | uInt32 data => exact image_static (.uInt32 data) rfl
  | uInt64 data => exact image_static (.uInt64 data) rfl
  | address h => exact image_static (.address h) rfl
  | bytes32 h => exact image_static (.bytes32 h) rfl

end TownCrier.Abi
