import TownCrier.BigEndian

/-!
# Recursive length prefix

The serialization of nested byte strings used for Ethereum objects, with a
strict decoder: a single byte below `0x80` has no header, every length is
written with as few bytes as possible, and a payload is consumed exactly.
Decoding an encoding returns the item and whatever follows it.
-/
namespace TownCrier.Rlp
open BigEndian

inductive Item where
  | str (b : Bytes)
  | list (items : List Item)

/-- Headers of strings start at `0x80`, headers of lists at `0xc0`. -/
def header (short n : ℕ) : Bytes :=
  if n < 56 then [UInt8.ofNat (short+n)]
  else UInt8.ofNat (short+55+size n)::minimal n

def encodeStr (b : Bytes) : Bytes :=
  if b.length = 1 ∧ value b < 0x80 then b else header 0x80 b.length++b

def encodeList (body : Bytes) : Bytes := header 0xc0 body.length++body

mutual
def encode : Item → Bytes
  | .str b => encodeStr b
  | .list items => encodeList (encodeAll items)

def encodeAll : List Item → Bytes
  | [] => []
  | i::is => encode i++encodeAll is
end

mutual
/-- Every length fits the eight bytes which a header can announce. -/
def Fits : Item → Prop
  | .str b => b.length < 256^8
  | .list items => FitsAll items ∧ (encodeAll items).length < 256^8

def FitsAll : List Item → Prop
  | [] => True
  | i::is => Fits i ∧ FitsAll is
end

def takeExact (n : ℕ) (bs : Bytes) : Option (Bytes × Bytes) :=
  if n ≤ bs.length then some (bs.take n,bs.drop n) else none

/-- A payload behind a length of `k` bytes; the length must need them all and
must be too large for the short form. -/
def takeLong (k : ℕ) (bs : Bytes) : Option (Bytes × Bytes) :=
  match takeExact k bs with
  | none => none
  | some (l,rest) =>
      if Canonical l ∧ 56 ≤ value l then takeExact (value l) rest else none

/-- Split off one item: whether it is a list, its payload and what follows. -/
def cut : Bytes → Option (Bool × Bytes × Bytes)
  | [] => none
  | b::bs =>
      if b.toNat < 0x80 then some (false,[b],bs)
      else if b.toNat < 0xb8 then
        match takeExact (b.toNat-0x80) bs with
        | some (p,rest) => if p.length = 1 ∧ value p < 0x80 then none else some (false,p,rest)
        | none => none
      else if b.toNat < 0xc0 then
        (takeLong (b.toNat-0xb7) bs).map fun r => (false,r)
      else if b.toNat < 0xf8 then
        (takeExact (b.toNat-0xc0) bs).map fun r => (true,r)
      else (takeLong (b.toNat-0xf7) bs).map fun r => (true,r)

mutual
def decode : ℕ → Bytes → Option (Item × Bytes)
  | 0, _ => none
  | fuel+1, bs =>
      match cut bs with
      | none => none
      | some (false,p,rest) => some (.str p,rest)
      | some (true,p,rest) =>
          match decodeAll fuel p with
          | some items => some (.list items,rest)
          | none => none

def decodeAll : ℕ → Bytes → Option (List Item)
  | 0, _ => none
  | _+1, [] => some []
  | fuel+1, b::bs =>
      match decode fuel (b::bs) with
      | some (i,rest) => (decodeAll fuel rest).map (i::·)
      | none => none
end

/-- One item and nothing after it. Two units of fuel for each byte suffice. -/
def parse (bs : Bytes) : Option Item :=
  match decode (2*bs.length+1) bs with
  | some (i,[]) => some i
  | _ => none

theorem takeExact_append (p rest : Bytes) : takeExact p.length (p++rest) = some (p,rest) := by
  simp [takeExact]

theorem takeLong_append (p rest : Bytes) (h : 56 ≤ p.length) :
    takeLong (size p.length) (minimal p.length++(p++rest)) = some (p,rest) := by
  have hl : size p.length = (minimal p.length).length := (minimal_length _).symm
  unfold takeLong
  rw [hl,takeExact_append]
  simp only [value_minimal,minimal_canonical,h,true_and,if_true]
  exact takeExact_append p rest

private theorem toNat_ofNat {n : ℕ} (h : n < 256) : (UInt8.ofNat n).toNat = n := by
  rw [UInt8.toNat_ofNat']
  exact Nat.mod_eq_of_lt h

theorem size_le_eight {n : ℕ} (h : n < 256^8) : size n ≤ 8 := size_le_iff.mpr h

theorem cut_str (b rest : Bytes) (h : b.length < 256^8) :
    cut (encodeStr b++rest) = some (false,b,rest) := by
  unfold encodeStr
  split_ifs with hs
  · obtain ⟨x,rfl⟩ := List.length_eq_one_iff.mp hs.1
    have hx : x.toNat < 0x80 := by simpa using hs.2
    simp [cut,hx]
  · unfold header
    split_ifs with hlen
    · have hb := toNat_ofNat (n := 0x80+b.length) (by omega)
      have hsub : 0x80+b.length-0x80 = b.length := by omega
      simp only [List.cons_append,List.nil_append,cut,hb,hsub,takeExact_append,hs,if_false]
      rw [if_neg (by omega),if_pos (by omega)]
    · have hz := size_le_eight h
      have hp := size_pos (n := b.length) (by omega)
      have hb := toNat_ofNat (n := 0x80+55+size b.length) (by omega)
      have hsub : 0x80+55+size b.length-0xb7 = size b.length := by omega
      simp only [List.cons_append,List.append_assoc,cut,hb,hsub]
      rw [if_neg (by omega),if_neg (by omega),if_pos (by omega),takeLong_append _ _ (by omega)]
      rfl

theorem cut_list (body rest : Bytes) (h : body.length < 256^8) :
    cut (encodeList body++rest) = some (true,body,rest) := by
  unfold encodeList header
  split_ifs with hlen
  · have hb := toNat_ofNat (n := 0xc0+body.length) (by omega)
    have hsub : 0xc0+body.length-0xc0 = body.length := by omega
    simp only [List.cons_append,List.nil_append,cut,hb,hsub,takeExact_append]
    rw [if_neg (by omega),if_neg (by omega),if_neg (by omega),if_pos (by omega)]
    rfl
  · have hz := size_le_eight h
    have hp := size_pos (n := body.length) (by omega)
    have hb := toNat_ofNat (n := 0xc0+55+size body.length) (by omega)
    have hsub : 0xc0+55+size body.length-0xf7 = size body.length := by omega
    simp only [List.cons_append,List.append_assoc,cut,hb,hsub]
    rw [if_neg (by omega),if_neg (by omega),if_neg (by omega),if_neg (by omega),
      takeLong_append _ _ (by omega)]
    rfl

theorem takeExact_eq_some {n : ℕ} {bs p rest : Bytes} (h : takeExact n bs = some (p,rest)) :
    bs = p++rest ∧ p.length = n := by
  rw [takeExact] at h
  split_ifs at h with hn
  cases h
  exact ⟨(List.take_append_drop n bs).symm,List.length_take_of_le hn⟩

theorem takeLong_eq_some {k : ℕ} {bs p rest : Bytes} (h : takeLong k bs = some (p,rest)) :
    bs = minimal p.length++(p++rest) ∧ size p.length = k ∧ 56 ≤ p.length := by
  rw [takeLong] at h
  cases hcut : takeExact k bs with
  | none =>
      rw [hcut] at h
      cases h
  | some r =>
      obtain ⟨l,tail⟩ := r
      simp only [hcut] at h
      split_ifs at h with hl
      obtain ⟨rfl,hlen⟩ := takeExact_eq_some hcut
      obtain ⟨rfl,hp⟩ := takeExact_eq_some h
      have hmin := eq_minimal_of_canonical hl.1
      rw [hp,← hmin]
      refine ⟨rfl,?_,hl.2⟩
      rw [← hlen,← minimal_length,← hmin]

/-- A string is split off only where its own encoding stands. -/
theorem eq_encodeStr_of_cut {bs b rest : Bytes} (h : cut bs = some (false,b,rest)) :
    bs = encodeStr b++rest := by
  cases bs with
  | nil => cases h
  | cons x bs =>
      have hx : UInt8.ofNat x.toNat = x := UInt8.ofNat_toNat
      rw [cut] at h
      split_ifs at h with hsingle hshort hlong hlist
      · cases h
        rw [encodeStr,if_pos ⟨rfl,by simpa using hsingle⟩]
        rfl
      · cases hcut : takeExact (x.toNat-0x80) bs with
        | none =>
            rw [hcut] at h
            cases h
        | some r =>
            obtain ⟨p,tail⟩ := r
            simp only [hcut] at h
            split_ifs at h with hone
            cases h
            obtain ⟨rfl,hlen⟩ := takeExact_eq_some hcut
            have hhead : 0x80+b.length = x.toNat := by omega
            rw [encodeStr,if_neg hone,header,if_pos (by omega),hhead,hx]
            rfl
      · obtain ⟨r,hcut,hr⟩ := Option.map_eq_some_iff.mp h
        cases hr
        obtain ⟨rfl,hsize,hlen⟩ := takeLong_eq_some hcut
        have hhead : 0x80+55+size b.length = x.toNat := by omega
        rw [encodeStr,if_neg (by omega),header,if_neg (by omega),hhead,hx]
        simp only [List.cons_append,List.append_assoc]
      · obtain ⟨r,-,hr⟩ := Option.map_eq_some_iff.mp h
        cases hr
      · obtain ⟨r,-,hr⟩ := Option.map_eq_some_iff.mp h
        cases hr

theorem header_ne_nil (short n : ℕ) : header short n ≠ [] := by
  unfold header
  split_ifs <;> simp

theorem encode_length_pos (i : Item) : 0 < (encode i).length := by
  cases i with
  | str b =>
      simp only [encode,encodeStr]
      split_ifs with h
      · omega
      · have := List.length_pos_iff.mpr (header_ne_nil 0x80 b.length)
        simp only [List.length_append]
        omega
  | list items =>
      have := List.length_pos_iff.mpr (header_ne_nil 0xc0 (encodeAll items).length)
      simp only [encode,encodeList,List.length_append]
      omega

mutual
theorem decode_encode : ∀ (i : Item) (rest : Bytes) (fuel : ℕ), Fits i →
    2*(encode i).length ≤ fuel → decode fuel (encode i++rest) = some (i,rest)
  | .str b, rest, fuel, hfit, hfuel => by
      obtain ⟨fuel,rfl⟩ : ∃ k, fuel = k+1 :=
        ⟨fuel-1,by have := encode_length_pos (.str b); omega⟩
      simp only [encode,decode,cut_str b rest hfit]
  | .list items, rest, fuel, hfit, hfuel => by
      have hbody : (encode (.list items)).length =
          (header 0xc0 (encodeAll items).length).length+(encodeAll items).length := by
        simp only [encode,encodeList,List.length_append]
      have hhead := List.length_pos_iff.mpr (header_ne_nil 0xc0 (encodeAll items).length)
      obtain ⟨fuel,rfl⟩ : ∃ k, fuel = k+1 := ⟨fuel-1,by omega⟩
      have hall := decodeAll_encodeAll items fuel hfit.1 (by omega)
      simp only [encode,decode,cut_list _ rest hfit.2,hall]

theorem decodeAll_encodeAll : ∀ (items : List Item) (fuel : ℕ), FitsAll items →
    2*(encodeAll items).length+1 ≤ fuel → decodeAll fuel (encodeAll items) = some items
  | [], fuel, _, hfuel => by
      obtain ⟨fuel,rfl⟩ : ∃ k, fuel = k+1 := ⟨fuel-1,by omega⟩
      rfl
  | i::is, fuel, hfit, hfuel => by
      obtain ⟨fuel,rfl⟩ : ∃ k, fuel = k+1 := ⟨fuel-1,by omega⟩
      simp only [encodeAll,List.length_append] at hfuel
      have hpos := encode_length_pos i
      have hone := decode_encode i (encodeAll is) fuel hfit.1 (by omega)
      have hrest := decodeAll_encodeAll is fuel hfit.2 (by omega)
      obtain ⟨b,bs,hb⟩ := List.exists_cons_of_length_pos (l := encode i++encodeAll is)
        (by simp only [List.length_append]; omega)
      simp only [encodeAll]
      rw [hb] at hone ⊢
      simp only [decodeAll,hone,hrest,Option.map_some]
end

theorem parse_encode (i : Item) (h : Fits i) : parse (encode i) = some i := by
  have hd := decode_encode i [] (2*(encode i).length+1) h (by omega)
  rw [List.append_nil] at hd
  simp only [parse,hd]

theorem encode_injective {i j : Item} (hi : Fits i) (hj : Fits j)
    (h : encode i = encode j) : i = j := by
  have := parse_encode i hi
  rw [h,parse_encode j hj] at this
  exact (Option.some.inj this).symm

theorem takeExact_length_le {n : ℕ} {bs p rest : Bytes} (h : takeExact n bs = some (p,rest))
    (hn : n < 256) : p.length < 256^8 := by
  rw [(takeExact_eq_some h).2]
  exact hn.trans (by norm_num)

theorem takeLong_length_lt {k : ℕ} {bs p rest : Bytes} (h : takeLong k bs = some (p,rest))
    (hk : k ≤ 8) : p.length < 256^8 :=
  size_le_iff.mp ((takeLong_eq_some h).2.1.trans_le hk)

/-- A list is split off only where its own header and body stand. -/
theorem eq_encodeList_of_cut {bs body rest : Bytes} (h : cut bs = some (true,body,rest)) :
    bs = encodeList body++rest := by
  cases bs with
  | nil => cases h
  | cons x bs =>
      have hx : UInt8.ofNat x.toNat = x := UInt8.ofNat_toNat
      rw [cut] at h
      split_ifs at h with hsingle hshort hlong hlist
      · cases h
      · cases hcut : takeExact (x.toNat-0x80) bs with
        | none =>
            rw [hcut] at h
            cases h
        | some r =>
            obtain ⟨p,tail⟩ := r
            simp only [hcut] at h
            split_ifs at h
            cases h
      · obtain ⟨r,-,hr⟩ := Option.map_eq_some_iff.mp h
        cases hr
      · obtain ⟨r,hcut,hr⟩ := Option.map_eq_some_iff.mp h
        cases hr
        obtain ⟨rfl,hlen⟩ := takeExact_eq_some hcut
        have hhead : 0xc0+body.length = x.toNat := by omega
        rw [encodeList,header,if_pos (by omega),hhead,hx]
        rfl
      · obtain ⟨r,hcut,hr⟩ := Option.map_eq_some_iff.mp h
        cases hr
        obtain ⟨rfl,hsize,hlen⟩ := takeLong_eq_some hcut
        have hhead : 0xc0+55+size body.length = x.toNat := by omega
        rw [encodeList,header,if_neg (by omega),hhead,hx]
        simp only [List.cons_append,List.append_assoc]

theorem length_lt_of_cut {bs p rest : Bytes} {isList : Bool} (h : cut bs = some (isList,p,rest)) :
    p.length < 256^8 := by
  cases bs with
  | nil => cases h
  | cons x bs =>
      have hx := x.toNat_lt
      rw [cut] at h
      split_ifs at h
      · cases h
        exact (by norm_num : 1 < 256^8)
      · cases hcut : takeExact (x.toNat-0x80) bs with
        | none =>
            rw [hcut] at h
            cases h
        | some r =>
            obtain ⟨q,tail⟩ := r
            simp only [hcut] at h
            split_ifs at h
            cases h
            exact takeExact_length_le hcut (by omega)
      · obtain ⟨r,hcut,hr⟩ := Option.map_eq_some_iff.mp h
        cases hr
        exact takeLong_length_lt hcut (by omega)
      · obtain ⟨r,hcut,hr⟩ := Option.map_eq_some_iff.mp h
        cases hr
        exact takeExact_length_le hcut (by omega)
      · obtain ⟨r,hcut,hr⟩ := Option.map_eq_some_iff.mp h
        cases hr
        exact takeLong_length_lt hcut (by omega)

/-- Whatever is decoded stood there in its own encoding. -/
theorem encode_of_decode (fuel : ℕ) :
    (∀ bs i rest, decode fuel bs = some (i,rest) → bs = encode i++rest ∧ Fits i) ∧
      ∀ bs items, decodeAll fuel bs = some items → bs = encodeAll items ∧ FitsAll items := by
  induction fuel with
  | zero => exact ⟨fun bs i rest h => (Option.some_ne_none _ h.symm).elim,
      fun bs items h => (Option.some_ne_none _ h.symm).elim⟩
  | succ fuel ih =>
      obtain ⟨ihone,ihall⟩ := ih
      constructor
      · intro bs i rest h
        rw [decode] at h
        cases hcut : cut bs with
        | none =>
            rw [hcut] at h
            cases h
        | some r =>
            obtain ⟨isList,p,tail⟩ := r
            have hlen := length_lt_of_cut hcut
            rw [hcut] at h
            cases isList with
            | false =>
                cases h
                exact ⟨eq_encodeStr_of_cut hcut,hlen⟩
            | true =>
                dsimp only at h
                cases hall : decodeAll fuel p with
                | none =>
                    rw [hall] at h
                    cases h
                | some items =>
                    rw [hall] at h
                    cases h
                    obtain ⟨rfl,hfits⟩ := ihall p items hall
                    exact ⟨eq_encodeList_of_cut hcut,hfits,hlen⟩
      · intro bs items h
        cases bs with
        | nil =>
            cases h
            exact ⟨rfl,trivial⟩
        | cons b bs =>
            rw [decodeAll] at h
            cases hone : decode fuel (b::bs) with
            | none =>
                rw [hone] at h
                cases h
            | some r =>
                obtain ⟨i,rest⟩ := r
                rw [hone] at h
                obtain ⟨is,his,hcons⟩ := Option.map_eq_some_iff.mp h
                cases hcons
                obtain ⟨hbs,hfit⟩ := ihone _ _ _ hone
                obtain ⟨rfl,hfits⟩ := ihall _ _ his
                exact ⟨hbs,hfit,hfits⟩

/-- The encoding of an item is the only text that is read as this item, and
whatever is read fits its headers. -/
theorem parse_iff {bs : Bytes} {i : Item} : parse bs = some i ↔ bs = encode i ∧ Fits i := by
  constructor
  · intro hparse
    rw [parse] at hparse
    cases hdec : decode (2*bs.length+1) bs with
    | none =>
        rw [hdec] at hparse
        cases hparse
    | some r =>
        obtain ⟨j,rest⟩ := r
        rw [hdec] at hparse
        cases rest with
        | nil =>
            cases hparse
            have h := (encode_of_decode _).1 _ _ _ hdec
            rwa [List.append_nil] at h
        | cons x rest => cases hparse
  · rintro ⟨rfl,hfit⟩
    exact parse_encode i hfit

/-- The encoding of a string is the only text that is read as this string. -/
theorem parse_eq_str {bs b : Bytes} (h : b.length < 256^8) :
    parse bs = some (.str b) ↔ bs = encodeStr b :=
  parse_iff.trans ⟨fun hbs => hbs.1,fun hbs => ⟨hbs,h⟩⟩

end TownCrier.Rlp
