import TownCrier.AbiLayout

/-!
# The heads of dynamic items

The head loop adds the lengths of the items before a dynamic one to a sum that
it never sets back, so that the head of the third dynamic item counts the first
tail twice. Up to two dynamic items there is nothing to count twice.
-/
namespace TownCrier.Abi
open BigEndian Cpp Encoding

/-- Anything but an array. -/
def Flat : Serializable → Prop
  | .genericArray _ => False
  | _ => True

/-- The size of `out` when the tail loop comes to the item at `k`. -/
def tailStart (items : List Serializable) (k : ℕ) : Option ℕ :=
  ((encodeHeads (headLenSum items) 0 0 items []).bind (encodeTails (items.take k))).map List.length

/-- The word at `k` of an encoding. -/
def wordAt (w : Bytes) (k : ℕ) : ℕ := value ((w.drop (32*k)).take 32)

/-- The head of every dynamic item is the place of its tail. -/
def HeadsPoint (items : List Serializable) : Prop :=
  ∃ w, encode (.genericArray items) [] = some w ∧ ∀ k i, items[k]? = some i →
    dynamic i = true → tailStart items k = some (wordAt w k)

/-- A `vector` of bytes ends before `PTRDIFF_MAX`. -/
def Fits (items : List Serializable) : Prop :=
  ∀ w, encode (.genericArray items) [] = some w → w.length < 2^63

/-- At most two items are dynamic, and the length of the first of two is an `int`. -/
def OffsetsExact (items : List Serializable) : Prop :=
  match items.filter dynamic with
  | [] | [_] => True
  | [i,_] => extent i < 2^31
  | _ => False

/-- What the head loop says of the items, when the next tail is at `place`. -/
def Points (headLenSum tailLenSum before : UInt64) (place : ℕ) : List Serializable → Prop
  | [] => True
  | i::is =>
      if dynamic i then
        (headLenSum+(tailLenSum+before)).toNat = place ∧
          Points headLenSum (tailLenSum+before) (before+tailLen i) (place+extent i) is
      else Points headLenSum tailLenSum (before+tailLen i) place is

theorem points_cons {i : Serializable} (h : dynamic i = true)
    {headLenSum tailLenSum before : UInt64} {place : ℕ} {items : List Serializable} :
    Points headLenSum tailLenSum before place (i::items) ↔
      (headLenSum+(tailLenSum+before)).toNat = place ∧
        Points headLenSum (tailLenSum+before) (before+tailLen i) (place+extent i) items := by
  rw [Points,if_pos h]

theorem headLen_eq {i : Serializable} : headLen i = 32 := by
  cases i <;> rfl

theorem headLenSum_toNat (items : List Serializable) :
    (headLenSum items).toNat = 32*items.length%2^64 := by
  induction items with
  | nil => rfl
  | cons i items ih =>
      have hcons : headLenSum (i::items) = 32+headLenSum items := by
        rw [headLenSum,List.map_cons,List.sum_cons,headLen_eq]
        rfl
      rw [hcons,UInt64.toNat_add,ih,List.length_cons]
      change (32+32*items.length%2^64)%2^64 = _
      omega

theorem tailLen_static {i : Serializable} (h : dynamic i = false) : tailLen i = 0 := by
  rw [tailLen,h]
  rfl

section Sized
variable {items : List Serializable} (h : ∀ i ∈ items, Sized i)
include h

theorem spans_eq : spans items = 32*items.length+(tails items).flatten.length := by
  have hlength := image_length (.genericArray h)
  rw [image_genericArray h,List.length_append,
    flatten_length fun w => length_of_mem_headWords h,headWords_length] at hlength
  exact hlength.symm

theorem tailStart_eq (k : ℕ) :
    tailStart items k = some (32*items.length+(tails (items.take k)).flatten.length) := by
  have htake : ∀ i ∈ items.take k, Sized i := fun i hi => h i (List.mem_of_mem_take hi)
  rw [tailStart,encodeHeads_eq (encode_items h),Option.bind_some,
    encodeTails_eq (encode_items htake),
    Option.map_some,List.length_append,List.nil_append,
    flatten_length fun w => length_of_mem_headWords h,headWords_length]

/-- The tail of an item is what stands at its place. -/
theorem tail_at {k : ℕ} {i : Serializable} (hk : items[k]? = some i) (hdyn : dynamic i = true) :
    ∃ rest, (image (.genericArray items)).drop
      (32*items.length+(tails (items.take k)).flatten.length) = image i++rest := by
  have hsplit : tails items = tails (items.take k)++image i::tails (items.drop (k+1)) := by
    obtain ⟨hlt,rfl⟩ := List.getElem?_eq_some_iff.mp hk
    calc tails items = tails (items.take k++items[k]::items.drop (k+1)) := by
          rw [← List.drop_eq_getElem_cons hlt,List.take_append_drop]
      _ = _ := by rw [tails_append,tails_cons_of_dynamic hdyn]
  have hheads : (headWords (headLenSum items) 0 0 items).flatten.length = 32*items.length := by
    rw [flatten_length fun w => length_of_mem_headWords h,headWords_length]
  refine ⟨(tails (items.drop (k+1))).flatten,?_⟩
  rw [image_genericArray h,← List.drop_drop,List.drop_left' hheads,hsplit,List.flatten_append,
    List.drop_left,List.flatten_cons]

theorem fits_of (hextent : extent (.genericArray items) < 2^63) : Fits items := by
  intro w hw
  cases (encode_eq (.genericArray h) []).symm.trans hw
  rwa [List.nil_append,image_length (.genericArray h)]

theorem wordAt_head {k : ℕ} {w : Bytes}
    (hk : (headWords (headLenSum items) 0 0 items)[k]? = some w) :
    wordAt (image (.genericArray items)) k = value w := by
  rw [wordAt,image_genericArray h,flatten_window (fun w => length_of_mem_headWords h) hk]

theorem points_iff (headLenSum tailLenSum before : UInt64) (place : ℕ) :
    Points headLenSum tailLenSum before place items ↔
      ∀ k i, items[k]? = some i → dynamic i = true →
        ((headWords headLenSum tailLenSum before items)[k]?).map value =
          some (place+(tails (items.take k)).flatten.length) := by
  induction items generalizing tailLenSum before place with
  | nil =>
      constructor
      · intro _ k i hk
        cases hk
      · intro _
        trivial
  | cons i items ih =>
      have hrest := ih fun j hj => h j (List.mem_cons_of_mem _ hj)
      rw [headWords]
      cases hdyn : dynamic i with
      | true =>
          rw [points_cons hdyn]
          have htails (k : ℕ) : (tails ((i::items).take (k+1))).flatten.length =
              extent i+(tails (items.take k)).flatten.length := by
            rw [← image_length (h i (List.mem_cons_self ..)),List.take_succ_cons,
              tails_cons_of_dynamic hdyn,List.flatten_cons,List.length_append]
          have hvalue : value (fixed 32 (headLenSum+(tailLenSum+before)).toNat) =
              (headLenSum+(tailLenSum+before)).toNat := by
            have hlt := (headLenSum+(tailLenSum+before)).toNat_lt
            exact value_fixed_of_lt (by omega)
          generalize fixed 32 (headLenSum+(tailLenSum+before)).toNat = first at hvalue
          rw [if_pos rfl,hrest,← hvalue]
          constructor
          · intro hall k j hk hj
            cases k with
            | zero => exact congrArg some hall.1
            | succ k =>
                rw [htails,← Nat.add_assoc,List.getElem?_cons_succ]
                exact hall.2 k j hk hj
          · intro hall
            constructor
            · exact Option.some.inj (hall 0 i rfl hdyn)
            · intro k j hk hj
              have hsucc := hall (k+1) j hk hj
              rwa [htails,← Nat.add_assoc,List.getElem?_cons_succ] at hsucc
      | false =>
          have htails (k : ℕ) : (tails ((i::items).take (k+1))).flatten.length =
              (tails (items.take k)).flatten.length := by
            rw [List.take_succ_cons,tails_cons_of_static hdyn]
          rw [Points,if_neg (by simp [hdyn]),if_neg Bool.false_ne_true,hrest]
          constructor
          · intro hall k j hk hj
            cases k with
            | zero =>
                cases hk
                cases hdyn.symm.trans hj
            | succ k =>
                rw [htails,List.getElem?_cons_succ]
                exact hall k j hk hj
          · intro hall k j hk hj
            have hsucc := hall (k+1) j hk hj
            rwa [htails,List.getElem?_cons_succ] at hsucc

theorem headsPoint_iff :
    HeadsPoint items ↔ Points (headLenSum items) 0 0 (32*items.length) items := by
  have henc := encode_eq (.genericArray h) []
  rw [List.nil_append] at henc
  rw [points_iff h]
  constructor
  · rintro ⟨w,hw,hall⟩ k i hk hdyn
    cases henc.symm.trans hw
    have hlt := (List.getElem?_eq_some_iff.mp hk).1
    have hword : k < (headWords (headLenSum items) 0 0 items).length := by
      rwa [headWords_length]
    have hstart := hall k i hk hdyn
    rw [tailStart_eq h,wordAt_head h (List.getElem?_eq_getElem hword)] at hstart
    rw [List.getElem?_eq_getElem hword,Option.map_some,← Option.some.inj hstart]
  · intro hall
    refine ⟨_,henc,fun k i hk hdyn => ?_⟩
    obtain ⟨w,hw,hvalue⟩ := Option.map_eq_some_iff.mp (hall k i hk hdyn)
    rw [tailStart_eq h,wordAt_head h hw,hvalue]

end Sized

/-- Static items do not matter. -/
theorem points_filter (headLenSum tailLenSum before : UInt64) (place : ℕ)
    (items : List Serializable) :
    Points headLenSum tailLenSum before place items ↔
      Points headLenSum tailLenSum before place (items.filter dynamic) := by
  induction items generalizing tailLenSum before place with
  | nil => rfl
  | cons i items ih =>
      cases hdyn : dynamic i with
      | true =>
          rw [List.filter_cons_of_pos hdyn,points_cons hdyn,points_cons hdyn,ih]
      | false =>
          rw [List.filter_cons_of_neg (by simp [hdyn]),Points,if_neg (by simp [hdyn]),
            tailLen_static hdyn,UInt64.add_zero,ih]

theorem encodeLen_bytes (data : Bytes) :
    (encodeLen (.bytes data)).toInt = (extent (.bytes data) : ℤ).bmod (2^32) := by
  have hsum : (32+roundTo32 (UInt64.ofNat data.length)).toNat%2^32 =
      extent (.bytes data)%2^32 := by
    simp only [roundTo32,extent,UInt64.toNat_mul,UInt64.toNat_div,UInt64.toNat_add,
      UInt64.toNat_ofNat',UInt64.toNat_ofNat,Nat.reducePow,Nat.reduceMod]
    omega
  rw [encodeLen]
  generalize 32+roundTo32 (UInt64.ofNat data.length) = len at hsum ⊢
  have hbmod : (narrow len).toInt = (len.toNat : ℤ).bmod (2^32) := Int32.toInt_ofInt
  rw [hbmod,Int.bmod_def,Int.bmod_def]
  split_ifs <;> omega

/-- The announced length of a string: it goes through an `int`. -/
theorem tailLen_bytes (data : Bytes) :
    (tailLen (.bytes data)).toNat =
      if extent (.bytes data)%2^32 < 2^31 then extent (.bytes data)%2^32
      else 2^64-2^32+extent (.bytes data)%2^32 := by
  rw [tailLen,if_pos (by rfl),widen_toNat,encodeLen_bytes,Int.bmod_def]
  split_ifs <;> omega

theorem tails_sum {items : List Serializable} (h : ∀ i ∈ items, Sized i) :
    (tails items).flatten.length = ((items.filter dynamic).map extent).sum := by
  have hall : ∀ i ∈ items.filter dynamic, (image i).length = extent i :=
    fun i hi => image_length (h i (List.mem_of_mem_filter hi))
  rw [tails,List.length_flatten,List.map_map]
  exact congrArg List.sum (List.map_congr_left hall)

theorem heads_point_iff {items : List Serializable} (hsized : ∀ i ∈ items, Sized i)
    (hflat : ∀ i ∈ items, Flat i) (hfits : Fits items) :
    HeadsPoint items ↔ OffsetsExact items := by
  have hlength := hfits _ (encode_eq (.genericArray hsized) [])
  rw [List.nil_append,image_length (.genericArray hsized),extent,spans_eq hsized,
    tails_sum hsized] at hlength
  have hheads := headLenSum_toNat items
  rw [headsPoint_iff hsized,points_filter,OffsetsExact]
  have hdyn : ∀ i ∈ items.filter dynamic, dynamic i = true :=
    fun i hi => (List.mem_filter.mp hi).2
  have hstring : ∀ i ∈ items.filter dynamic, ∃ data, i = .bytes data := by
    intro i hi
    have hflat := hflat i (List.mem_of_mem_filter hi)
    have hdyn := hdyn i hi
    cases i with
    | bytes data => exact ⟨data,rfl⟩
    | genericArray => cases hflat
    | _ => cases hdyn
  generalize items.filter dynamic = strings at hlength hdyn hstring
  cases strings with
  | nil => exact iff_of_true trivial trivial
  | cons i strings =>
    obtain ⟨data,rfl⟩ := hstring i (by simp)
    have hfirst := tailLen_bytes data
    have hlow : 32 ≤ extent (.bytes data) := Nat.le_add_right _ _
    cases strings with
    | nil =>
      simp only [List.map_cons,List.map_nil,List.sum_cons,List.sum_nil] at hlength
      simp only [Points,dynamic,if_true,UInt64.toNat_add,UInt64.toNat_zero,hheads,and_true,
        iff_true]
      omega
    | cons j strings =>
      obtain ⟨data',rfl⟩ := hstring j (by simp)
      have hsecond := tailLen_bytes data'
      cases strings with
      | nil =>
        simp only [List.map_cons,List.map_nil,List.sum_cons,List.sum_nil] at hlength
        simp only [Points,dynamic,if_true,UInt64.toNat_add,UInt64.toNat_zero,hheads,and_true,
          hfirst]
        split_ifs <;> omega
      | cons l strings =>
        have hthird := hdyn l (by simp)
        simp only [List.map_cons,List.sum_cons] at hlength
        refine iff_of_false (fun h => ?_) id
        rw [points_cons rfl,points_cons rfl,points_cons hthird] at h
        obtain ⟨-,h₂,h₃,-⟩ := h
        simp only [UInt64.toNat_add,UInt64.toNat_zero,hheads,hfirst,hsecond] at h₂ h₃
        split_ifs at h₂ h₃ <;> omega

theorem heads_point_pair : HeadsPoint [.bytes [1],.uInt8 2,.bytes [3]] := by
  have hsized : ∀ i ∈ [Serializable.bytes [1],.uInt8 2,.bytes [3]], Sized i := by
    simp only [List.forall_mem_cons]
    exact ⟨.bytes _,.uInt8 _,.bytes _,List.forall_mem_nil _⟩
  have hflat : ∀ i ∈ [Serializable.bytes [1],.uInt8 2,.bytes [3]], Flat i := by
    simp only [List.forall_mem_cons]
    exact ⟨trivial,trivial,trivial,List.forall_mem_nil _⟩
  apply (heads_point_iff hsized hflat (fits_of hsized (by decide))).mpr
  change extent (.bytes [1]) < 2^31
  decide

/-- Three empty strings: the head of the third one is the end of the encoding. -/
def threeStrings : List Serializable := [.bytes [],.bytes [],.bytes []]

theorem third_head_misses :
    (∀ i ∈ threeStrings, Sized i ∧ Flat i) ∧ Fits threeStrings ∧ ¬HeadsPoint threeStrings := by
  have hall : ∀ i ∈ threeStrings, Sized i ∧ Flat i := by
    simp only [threeStrings,List.forall_mem_cons]
    exact ⟨⟨.bytes _,trivial⟩,⟨.bytes _,trivial⟩,⟨.bytes _,trivial⟩,List.forall_mem_nil _⟩
  have hsized : ∀ i ∈ threeStrings, Sized i := fun i hi => (hall i hi).1
  refine ⟨hall,fits_of hsized (by decide),fun h => ?_⟩
  rw [headsPoint_iff hsized,threeStrings,points_cons rfl,points_cons rfl,points_cons rfl] at h
  exact absurd h.2.2.1 (by decide)

end TownCrier.Abi
