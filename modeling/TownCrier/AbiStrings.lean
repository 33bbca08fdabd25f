import TownCrier.AbiOffsets

/-!
# Strings in ABI encodings

A decoder of the ABI finds a string at the head of its padding. `ABI_Bytes::encode`
writes the padding first, so a string comes back when it needs none, or when it
cannot be told from its padding.
-/
namespace TownCrier.Abi
open BigEndian Cpp Encoding

/-- A length word, that many bytes, and zeros up to a multiple of 32. -/
def decodeString (s : Bytes) : Option Bytes :=
  let n := value (s.take 32)
  let padded := (n+31)/32*32
  let body := s.drop 32
  if padded ≤ body.length ∧ ((body.take padded).drop n).all (· = 0) then some (body.take n) else none

/-- A string without padding, or one of zeros only. -/
def Aligned (b : Bytes) : Prop := b.length%32 = 0 ∨ ∀ x ∈ b, x = 0

/-- The head of the argument after `before` is the place of its tail, and a decoder
reads the string there. -/
def DecodesIn (before : List Serializable) (b : Bytes) (after : List Serializable) : Prop :=
  ∃ w, encode (.genericArray (before++.bytes b::after)) [] = some w ∧
    tailStart (before++.bytes b::after) before.length = some (wordAt w before.length) ∧
      decodeString (w.drop (wordAt w before.length)) = some b

/-- The announced lengths of the dynamic items before a string, each counted again
for every later one of them. -/
def announced : List Serializable → ℕ
  | [] => 0
  | i::is => ((is.filter dynamic).length+1)*(tailLen i).toNat+announced is

/-- What is announced for the items before a string comes to the bytes of their tails. -/
def Announced (before : List Serializable) : Prop :=
  announced before%2^64 = ((before.filter dynamic).map extent).sum

/-- A string that begins with zeros and goes on with itself has only zeros. -/
theorem zeros_of_shift {b : Bytes} {p : ℕ} (hp : 0 < p)
    (h : (List.replicate p 0++b).take b.length = b) : ∀ x ∈ b, x = 0 := by
  have hall : ∀ (i : ℕ) (x : UInt8), b[i]? = some x → x = 0 := by
    intro i
    -- A byte behind the zeros is the byte `p` places before it.
    induction i using Nat.strong_induction_on with
    | _ i ih =>
      intro x hx
      have hi := (List.getElem?_eq_some_iff.mp hx).1
      rw [← h,List.getElem?_take_of_lt hi] at hx
      by_cases hlt : i < p
      · rw [List.getElem?_append_left (by rwa [List.length_replicate]),
          List.getElem?_replicate_of_lt hlt] at hx
        exact (Option.some.inj hx).symm
      · rw [List.getElem?_append_right (by rw [List.length_replicate]; omega),
          List.length_replicate] at hx
        exact ih (i-p) (by omega) x hx
  intro x hx
  obtain ⟨i,hi⟩ := List.mem_iff_getElem?.mp hx
  exact hall i x hi

theorem decodeString_image {b : Bytes} (hb : b.length < 2^32) (rest : Bytes) :
    decodeString (image (.bytes b)++rest) = some b ↔ Aligned b := by
  obtain ⟨p,hp,hpadded⟩ : ∃ p, (b.length+31)/32*32-b.length = p ∧
      (b.length+31)/32*32 = p+b.length := ⟨_,rfl,by omega⟩
  have hword : (fixed 32 (b.length%2^32)).length = 32 := fixed_length _ _
  have hvalue : value (fixed 32 (b.length%2^32)) = b.length := by
    rw [value_fixed_of_lt (by omega),Nat.mod_eq_of_lt hb]
  have hbody : (List.replicate p (0 : UInt8)++b).length = p+b.length := by
    rw [List.length_append,List.length_replicate]
  have htake : ((List.replicate p 0++b)++rest).take b.length =
      (List.replicate p 0++b).take b.length :=
    List.take_append_of_le_length (by omega)
  dsimp only [decodeString]
  rw [image_bytes,hp,List.append_assoc,List.take_left' hword,List.drop_left' hword,hvalue,hpadded,
    ← hbody,List.take_left,htake]
  constructor
  · intro h
    split_ifs at h
    by_cases hzero : p = 0
    · exact .inl (by omega)
    · exact .inr (zeros_of_shift (by omega) (Option.some.inj h))
  · intro h
    have hresult : (List.replicate p 0++b).take b.length = b ∧
        ∀ x ∈ (List.replicate p 0++b).drop b.length, x = 0 := by
      cases h with
      | inl hmod =>
          obtain rfl : p = 0 := by omega
          rw [List.replicate_zero,List.nil_append,List.take_length,List.drop_length]
          exact ⟨rfl,List.forall_mem_nil _⟩
      | inr hzero =>
          have hb : b = List.replicate b.length 0 := List.eq_replicate_iff.mpr ⟨rfl,hzero⟩
          rw [hb,List.length_replicate,List.replicate_append_replicate]
          refine ⟨by rw [List.take_replicate,Nat.min_eq_left (by omega)],?_⟩
          intro x hx
          exact List.eq_of_mem_replicate (List.mem_of_mem_drop hx)
    have hlong : (List.replicate p 0++b).length ≤ (List.replicate p 0++b++rest).length :=
      (List.prefix_append _ rest).length_le
    have hzeros : ((List.replicate p 0++b).drop b.length).all (· = 0) :=
      List.all_eq_true.mpr fun x hx => decide_eq_true (hresult.2 x hx)
    rw [if_pos ⟨hlong,hzeros⟩,hresult.1]

/-- The words of the heads up to a string, and what the loop has added up for it. -/
theorem headWords_string (headLenSum tailLenSum prior : UInt64) (before : List Serializable)
    (b : Bytes) (after : List Serializable) : ∃ w : UInt64,
    (headWords headLenSum tailLenSum prior (before++.bytes b::after))[before.length]? =
        some (fixed 32 w.toNat) ∧
      w.toNat = (headLenSum.toNat+tailLenSum.toNat+
        ((before.filter dynamic).length+1)*prior.toNat+announced before)%2^64 := by
  induction before generalizing tailLenSum prior with
  | nil =>
      refine ⟨headLenSum+(tailLenSum+prior),rfl,?_⟩
      simp only [UInt64.toNat_add,announced,List.filter_nil,List.length_nil]
      omega
  | cons i before ih =>
      rw [List.cons_append,headWords]
      cases hdyn : dynamic i with
      | true =>
          obtain ⟨w,hw,hvalue⟩ := ih (tailLenSum+prior) (prior+tailLen i)
          refine ⟨w,by rw [if_pos rfl,List.length_cons,List.getElem?_cons_succ,hw],?_⟩
          rw [hvalue,List.filter_cons_of_pos hdyn,List.length_cons,announced,UInt64.toNat_add,
            UInt64.toNat_add]
          generalize (before.filter dynamic).length = k
          have hmul : (k+1)*((prior.toNat+(tailLen i).toNat)%2^64)%2^64 =
              ((k+1)*prior.toNat+(k+1)*(tailLen i).toNat)%2^64 := by
            rw [Nat.mul_mod_mod,Nat.mul_add]
          have hsucc : (k+1+1)*prior.toNat = (k+1)*prior.toNat+prior.toNat := Nat.succ_mul _ _
          omega
      | false =>
          obtain ⟨w,hw,hvalue⟩ := ih tailLenSum (prior+tailLen i)
          refine ⟨w,by rw [if_neg Bool.false_ne_true,List.length_cons,List.getElem?_cons_succ,hw],?_⟩
          rw [hvalue,List.filter_cons_of_neg (by simp [hdyn]),announced,tailLen_static hdyn]
          simp

/-- The head of a string is the place of its tail exactly if the lengths that are
announced before it come to the bytes that are written. -/
theorem head_iff {before after : List Serializable} {b : Bytes}
    (hsized : ∀ i ∈ before++Serializable.bytes b::after, Sized i)
    (hfits : Fits (before++.bytes b::after)) :
    tailStart (before++.bytes b::after) before.length =
      some (wordAt (image (.genericArray (before++.bytes b::after))) before.length) ↔
        Announced before := by
  have hlength := hfits _ (encode_eq (.genericArray hsized) [])
  have htails : (tails (before++.bytes b::after)).flatten.length =
      (tails before).flatten.length+(tails (.bytes b::after)).flatten.length := by
    rw [tails_append,List.flatten_append,List.length_append]
  rw [List.nil_append,image_length (.genericArray hsized),extent,spans_eq hsized,htails] at hlength
  have hbefore := tails_sum fun i hi => hsized i (List.mem_append_left _ hi)
  obtain ⟨w,hw,hvalue⟩ := headWords_string (headLenSum (before++.bytes b::after)) 0 0 before b after
  have hlt := w.toNat_lt
  rw [tailStart_eq hsized,List.take_left,wordAt_head hsized hw,value_fixed_of_lt (by omega),hvalue,
    headLenSum_toNat,UInt64.toNat_zero,Nat.mul_zero,Announced,← hbefore,Option.some_inj]
  omega

theorem strings_survive_iff {b : Bytes} (hb : b.length < 2^32) :
    ((∃ w, encode (.bytes b) [] = some w ∧ decodeString w = some b) ↔ Aligned b) ∧
      ∀ before after : List Serializable, (∀ i ∈ before, Sized i) → (∀ i ∈ after, Sized i) →
        Fits (before++.bytes b::after) → (DecodesIn before b after ↔ Aligned b ∧ Announced before) := by
  constructor
  · have henc := encode_eq (.bytes b) []
    have hdecode := decodeString_image hb []
    rw [List.nil_append] at henc
    rw [List.append_nil] at hdecode
    rw [← hdecode]
    constructor
    · rintro ⟨w,hw,h⟩
      cases henc.symm.trans hw
      exact h
    · exact fun h => ⟨_,henc,h⟩
  · intro before after hbefore hafter hfits
    have hsized : ∀ i ∈ before++.bytes b::after, Sized i := by
      rw [List.forall_mem_append,List.forall_mem_cons]
      exact ⟨hbefore,.bytes b,hafter⟩
    have henc := encode_eq (.genericArray hsized) []
    rw [List.nil_append] at henc
    have hat : (before++Serializable.bytes b::after)[before.length]? = some (.bytes b) := by
      rw [List.getElem?_append_right (Nat.le_refl _),Nat.sub_self]
      rfl
    have hhead := head_iff hsized hfits
    have hstart := tailStart_eq hsized before.length
    obtain ⟨rest,htail⟩ := tail_at hsized hat rfl
    rw [← decodeString_image hb rest,← hhead,← htail]
    constructor
    · rintro ⟨w,hw,hplace,h⟩
      cases henc.symm.trans hw
      rw [Option.some.inj (hstart.symm.trans hplace)]
      exact ⟨h,hplace⟩
    · rintro ⟨h,hplace⟩
      rw [Option.some.inj (hstart.symm.trans hplace)] at h
      exact ⟨_,henc,hplace,h⟩

/-- Static items announce nothing. -/
theorem announced_static {before : List Serializable} (h : ∀ i ∈ before, dynamic i = false) :
    Announced before := by
  have hnone : before.filter dynamic = [] := List.filter_eq_nil_iff.mpr (by simpa using h)
  have hzero : announced before = 0 := by
    clear hnone
    induction before with
    | nil => rfl
    | cons i before ih =>
        rw [announced,tailLen_static (h i (List.mem_cons_self ..)),
          ih fun j hj => h j (List.mem_cons_of_mem _ hj)]
        rfl
  rw [Announced,hnone,hzero]
  rfl

def wholeWord : Bytes := List.replicate 32 65

/-- A number and an array with a string before the string, and a string after it. -/
theorem strings_survive_word :
    (∃ w, encode (.bytes wholeWord) [] = some w ∧ decodeString w = some wholeWord) ∧
      DecodesIn [.uInt64 7,.genericArray [.bytes [1]]] wholeWord [.bytes [1]] := by
  have hword : wholeWord.length < 2^32 := by decide
  have hbefore : ∀ i ∈ [.uInt64 7,.genericArray [.bytes [1]]], Sized i := by
    simp only [List.forall_mem_cons]
    refine ⟨.uInt64 7,.genericArray ?_,List.forall_mem_nil _⟩
    rw [List.forall_mem_singleton]
    exact .bytes _
  have hafter : ∀ i ∈ [Serializable.bytes [1]], Sized i := by
    rw [List.forall_mem_singleton]
    exact .bytes _
  have hsized : ∀ i ∈ [.uInt64 7,.genericArray [.bytes [1]]]++.bytes wholeWord::[.bytes [1]],
      Sized i := by
    intro i hi
    rcases List.mem_append.mp hi with hi | hi
    · exact hbefore i hi
    · exact List.forall_mem_cons.mpr ⟨.bytes _,hafter⟩ i hi
  have haligned : Aligned wholeWord := .inl (by decide)
  exact ⟨(strings_survive_iff hword).1.mpr haligned,
    ((strings_survive_iff hword).2 _ _ hbefore hafter (fits_of hsized (by decide))).mpr
      ⟨haligned,by unfold Announced; decide⟩⟩

/-- The decoder takes the padding for the string, and looks for a string behind an
array of a number one word too far on. -/
theorem byte_lost :
    (¬∃ w, encode (.bytes [1]) [] = some w ∧ decodeString w = some [1]) ∧
      ¬DecodesIn [.uInt64 7] [1] [] ∧ ¬DecodesIn [.genericArray [.uInt64 7]] wholeWord [] := by
  refine ⟨?_,?_,?_⟩
  · rintro ⟨w,hw,h⟩
    have hnone : (encode (.bytes [1]) []).bind decodeString = none := by decide
    rw [hw,Option.bind_some,h] at hnone
    cases hnone
  · rintro ⟨w,hw,-,h⟩
    have hnone : (encode (.genericArray [.uInt64 7,.bytes [1]]) []).bind (fun w =>
        decodeString (w.drop (wordAt w 1))) = none := by decide
    have hw' : encode (.genericArray [.uInt64 7,.bytes [1]]) [] = some w := hw
    have h' : decodeString (w.drop (wordAt w 1)) = some [1] := h
    rw [hw',Option.bind_some,h'] at hnone
    cases hnone
  · rintro ⟨w,hw,hplace,-⟩
    have hhead : (encode (.genericArray [.genericArray [.uInt64 7],.bytes wholeWord]) []).map
        (wordAt · 1) = some 128 := by decide
    have hstart : tailStart [.genericArray [.uInt64 7],.bytes wholeWord] 1 = some 96 := by decide
    have hw' : encode (.genericArray [.genericArray [.uInt64 7],.bytes wholeWord]) [] = some w := hw
    have hplace' : tailStart [.genericArray [.uInt64 7],.bytes wholeWord] 1 = some (wordAt w 1) :=
      hplace
    rw [hw',Option.map_some] at hhead
    rw [hstart,Option.some.inj hhead] at hplace'
    cases hplace'

end TownCrier.Abi
