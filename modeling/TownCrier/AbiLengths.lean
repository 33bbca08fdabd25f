import TownCrier.AbiOffsets

/-!
# The announced length of an item

`encode_len` counts 32 bytes for an array itself and nothing for the heads of
its dynamic items. The two differences cancel when the whole item holds just one
string.
-/
namespace TownCrier.Abi
open BigEndian Cpp Encoding

/-- `encode` appends what `encode_len` says, and `tail_len` is the size of the tail. -/
def LengthsAgree (i : Serializable) : Prop :=
  ∀ out, ∃ w, encode i out = some (out++w) ∧ (encodeLen i).toInt = w.length ∧
    (dynamic i = true → (tailLen i).toNat = w.length)

mutual
/-- The number of `ABI_Bytes` in an item, at any depth. -/
def strings : Serializable → ℕ
  | .bytes _ => 1
  | .genericArray items => stringsSum items
  | _ => 0

def stringsSum : List Serializable → ℕ
  | [] => 0
  | i::is => strings i+stringsSum is
end

/-- The head of an item and its tail. -/
def span (i : Serializable) : ℕ := 32+if dynamic i then extent i else 0

theorem strings_le {i : Serializable} (h : Sized i) : 64*strings i ≤ span i := by
  have hsum {items : List Serializable} (h : ∀ i ∈ items, 64*strings i ≤ span i) :
      64*stringsSum items ≤ spans items := by
    induction items with
    | nil => exact Nat.le_refl _
    | cons i items ih =>
        have hi := h i (List.mem_cons_self ..)
        have hrest := ih fun j hj => h j (List.mem_cons_of_mem _ hj)
        rw [span] at hi
        rw [stringsSum,spans]
        omega
  induction h with
  | bytes data =>
      have hlow : 32 ≤ extent (.bytes data) := Nat.le_add_right _ _
      simp only [strings,span,dynamic,if_true]
      omega
  | @genericArray items _ ih =>
      have hitems := hsum ih
      simp only [strings,span,dynamic,if_true,extent]
      omega
  | _ => exact Nat.zero_le _

/-- One string makes up for the 32 bytes that are counted for nothing. -/
theorem encodeLen_mod {i : Serializable} (h : Sized i) :
    (encodeLen i).toInt%2^32 = ((span i : ℤ)-32*strings i)%2^32 := by
  have hsum {items : List Serializable} (len : Int32)
      (h : ∀ i ∈ items, (encodeLen i).toInt%2^32 = ((span i : ℤ)-32*strings i)%2^32) :
      (encodeLenSum items len).toInt%2^32 =
        (len.toInt+spans items-32*stringsSum items)%2^32 := by
    induction items generalizing len with
    | nil => simp [encodeLenSum,spans,stringsSum]
    | cons i items ih =>
        have hi := h i (List.mem_cons_self ..)
        rw [span] at hi
        rw [encodeLenSum,ih _ fun j hj => h j (List.mem_cons_of_mem _ hj),Int32.toInt_add,
          spans,stringsSum,Int.bmod_def]
        push_cast at hi ⊢
        split_ifs at hi ⊢ <;> omega
  induction h with
  | bytes data =>
      rw [encodeLen_bytes,Int.bmod_def]
      simp only [strings,span,dynamic,if_true]
      split_ifs <;> omega
  | @genericArray items _ ih =>
      rw [encodeLen,hsum 32 ih]
      simp only [strings,span,dynamic,if_true,extent]
      push_cast
      rfl
  | _ => rfl

theorem lengths_agree_iff {i : Serializable} (h : Sized i) :
    LengthsAgree i ↔ dynamic i = false ∨ strings i = 1 ∧ extent i < 2^31 := by
  have hlength := image_length h
  have hagree : LengthsAgree i ↔ (encodeLen i).toInt = extent i ∧
      (dynamic i = true → (tailLen i).toNat = extent i) := by
    constructor
    · intro hall
      obtain ⟨w,hw,hlen⟩ := hall []
      have henc := encode_eq h []
      rw [List.nil_append] at henc hw
      cases henc.symm.trans hw
      rwa [← hlength]
    · intro hlen out
      exact ⟨image i,encode_eq h out,by rwa [hlength]⟩
  rw [hagree]
  cases hdyn : dynamic i with
  | false =>
      refine iff_of_true ⟨?_,fun h => by cases h⟩ (.inl rfl)
      rw [extent_static hdyn]
      cases h with
      | bytes => cases hdyn
      | genericArray => cases hdyn
      | _ => rfl
  | true =>
      have hmod := encodeLen_mod h
      have hle := strings_le h
      have hlow := (encodeLen i).le_toInt
      have hhigh := (encodeLen i).toInt_lt
      rw [tailLen,if_pos hdyn,widen_toNat]
      rw [span,if_pos hdyn] at hmod hle
      push_cast at hmod
      constructor
      · intro hlen
        have heq := hlen.1
        exact .inr (by omega)
      · intro hone
        have hone := hone.resolve_left fun h => by cases h
        omega

/-- An array of arrays with one string at the bottom. -/
def nested : Serializable := .genericArray [.uInt8 7,.genericArray [.bytes [1,2]]]

theorem nested_sized : Sized nested := by
  apply Sized.genericArray
  rw [List.forall_mem_cons,List.forall_mem_singleton]
  constructor
  · exact .uInt8 _
  · apply Sized.genericArray
    rw [List.forall_mem_singleton]
    exact .bytes _

theorem lengths_agree_nested : LengthsAgree nested :=
  (lengths_agree_iff nested_sized).mpr (.inr ⟨rfl,by decide⟩)

/-- An array of words announces one word more than it writes. -/
theorem words_differ : Sized (.genericArray [.uInt64 7]) ∧
    ¬LengthsAgree (.genericArray [.uInt64 7]) := by
  constructor
  · apply Sized.genericArray
    rw [List.forall_mem_singleton]
    exact .uInt64 _
  · intro h
    obtain ⟨w,hw,hlen,-⟩ := h []
    have henc : encode (.genericArray [.uInt64 7]) [] = some (fixed 32 7) := by decide
    cases henc.symm.trans hw
    exact absurd hlen (by decide)

end TownCrier.Abi
