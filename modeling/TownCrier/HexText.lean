import TownCrier.Encoding
import TownCrier.Hexadecimal
import Mathlib.Data.List.Basic

/-!
# Bytes as hexadecimal text

`to_hex` of `commons.cpp` and its inverse. `from_hex` accepts an even number of digits,
with or without `0x` before them. The counter of `to_hex` has 32 bits, and twice the
counter has no more, so the text of a longer byte string is not written to its end.
-/
namespace TownCrier.Encoding
open BigEndian Cpp Hexadecimal

def hexmap : Bytes := ascii "0123456789abcdef"

/-- The loop of `to_hex`, whose counter is an `unsigned`. It may never end. -/
def toHexLoop (data : Bytes) : ℕ → UInt32 → Bytes → Exec Bytes
  | 0, _, _ => undefined
  | fuel+1, i, s =>
      if i.toNat < data.length then
        let b := data.getD i.toNat 0
        let s := s.set (2*i).toNat (hexmap.getD ((b &&& 0xf0) >>> 4).toNat 0)
        let s := s.set (2*i+1).toNat (hexmap.getD (b &&& 0x0f).toNat 0)
        toHexLoop data fuel (i+1) s
      else pure s

/-- A counter that gets to the length of the data does so within as many turns. -/
def toHex (data : Bytes) : Exec Bytes :=
  toHexLoop data (data.length+1) 0 (List.replicate (data.length*2) 32)

/-- The text of some digits. -/
structure Written (s ds : Bytes) : Prop where
  start : s = ds ∨ s = ascii "0x"++ds
  even : Even ds.length
  digits : ∀ c ∈ ds, IsDigit c

/-- What is expected of the functions for a text and for a byte string. -/
structure HexExact (s b : Bytes) : Prop where
  accepts : (∃ out, fromHex s = .ok out) ↔ ∃ ds, Written s ds
  refuses : (¬∃ ds, Written s ds) → fromHex s = raise .invalidArgument
  lowered : ∀ ds out, Written s ds → fromHex s = .ok out →
    2*out.length = ds.length ∧ toHex out = .ok (ds.map lower)
  back : (toHex b >>= fromHex) = .ok b
  address : (∃ a, bytes20 s = .ok a) ↔ ∃ ds, Written s ds ∧ ds.length = 40
  addressed : ∀ a, bytes20 s = .ok a → fromHex s = .ok a.val

/-! ## Reading -/

theorem hex2int_eq (c : UInt8) :
    hex2int c = if IsDigit c then .ok (digitValue c) else raise .invalidArgument := by
  unfold hex2int IsDigit digitValue
  simp only [pure_eq_ok]
  grind

theorem fromHexLoop_digits {ds : Bytes} (h : ∀ c ∈ ds, IsDigit c) :
    fromHexLoop ds = .ok (read ds) := by
  induction ds using read.induct with
  | case1 => rfl
  | case2 a => rfl
  | case3 a b rest ih =>
      simp only [List.forall_mem_cons] at h
      rw [fromHexLoop,hex2int_eq,hex2int_eq,if_pos h.1,if_pos h.2.1,ih h.2.2]
      rfl

theorem fromHexLoop_other {ds : Bytes} (heven : Even ds.length) (h : ¬∀ c ∈ ds, IsDigit c) :
    fromHexLoop ds = raise .invalidArgument := by
  induction ds using read.induct with
  | case1 => exact absurd (List.forall_mem_nil _) h
  | case2 a => exact absurd heven Nat.not_even_one
  | case3 a b rest ih =>
      have hrest : Even rest.length := by simpa [Nat.even_add_one] using heven
      simp only [List.forall_mem_cons] at h
      rw [fromHexLoop,hex2int_eq,hex2int_eq]
      by_cases ha : IsDigit a
      · by_cases hb : IsDigit b
        · rw [if_pos ha,if_pos hb,ih hrest fun hall => h ⟨ha,hb,hall⟩]
          rfl
        · rw [if_pos ha,if_neg hb]
          rfl
      · rw [if_neg ha]
        rfl

/-- The text without `0x`. -/
def digits (s : Bytes) : Bytes := if s.take 2 = ascii "0x" then s.drop 2 else s

section
variable {s ds : Bytes}

theorem even_digits : Even (digits s).length ↔ Even s.length := by
  rw [digits]
  split_ifs with h
  · have hlength := congrArg List.length (List.take_append_drop 2 s)
    rw [h,List.length_append] at hlength
    have htwo : (ascii "0x").length = 2 := rfl
    rw [← hlength,htwo,Nat.even_add]
    simp
  · rfl

theorem written_iff :
    Written s ds ↔ ds = digits s ∧ Even s.length ∧ ∀ c ∈ digits s, IsDigit c := by
  constructor
  · rintro ⟨rfl | rfl,heven,hdigits⟩
    · have hplain : digits s = s := by
        refine if_neg fun h => ?_
        have hx : (120 : UInt8) ∈ s := List.mem_of_mem_take (i := 2) (by rw [h]; decide)
        exact absurd (hdigits _ hx) (by decide)
      rw [hplain]
      exact ⟨rfl,heven,hdigits⟩
    · have hcut : digits (ascii "0x"++ds) = ds := if_pos rfl
      rw [← even_digits,hcut]
      exact ⟨rfl,heven,hdigits⟩
  · rintro ⟨rfl,heven,hdigits⟩
    refine ⟨?_,even_digits.mpr heven,hdigits⟩
    rw [digits]
    split_ifs with h
    · exact .inr (by rw [← h,List.take_append_drop])
    · exact .inl rfl

theorem fromHex_eq (h : Even s.length) : fromHex s = fromHexLoop (digits s) := by
  rw [fromHex,if_neg (not_not.mpr (Nat.even_iff.mp h)),digits]
  split_ifs <;> rfl

theorem fromHex_odd (h : ¬Even s.length) : fromHex s = raise .invalidArgument :=
  if_pos fun hmod => h (Nat.even_iff.mpr hmod)

theorem fromHex_written (h : Written s ds) : fromHex s = .ok (read ds) := by
  obtain ⟨rfl,heven,hdigits⟩ := written_iff.mp h
  rw [fromHex_eq heven,fromHexLoop_digits hdigits]

theorem fromHex_refused (h : ¬∃ ds, Written s ds) : fromHex s = raise .invalidArgument := by
  by_cases heven : Even s.length
  · rw [fromHex_eq heven]
    refine fromHexLoop_other (even_digits.mpr heven) fun hdigits => h ?_
    exact ⟨_,written_iff.mpr ⟨rfl,heven,hdigits⟩⟩
  · exact fromHex_odd heven

theorem fromHex_ok {out : Bytes} : fromHex s = .ok out ↔ ∃ ds, Written s ds ∧ out = read ds := by
  constructor
  · intro h
    by_cases hwritten : ∃ ds, Written s ds
    · obtain ⟨ds,hds⟩ := hwritten
      exact ⟨ds,hds,(Except.ok.inj ((fromHex_written hds).symm.trans h)).symm⟩
    · rw [fromHex_refused hwritten] at h
      cases h
  · rintro ⟨ds,hds,rfl⟩
    exact fromHex_written hds

theorem bytes20_ok {a : Bytes20} : bytes20 s = .ok a ↔ fromHex s = .ok a.val := by
  rw [bytes20]
  cases hs : fromHex s with
  | error e => simp
  | ok out =>
      rw [bind_ok]
      by_cases hlength : out.length = 20
      · simp [hlength,pure_eq_ok,Subtype.ext_iff]
      · rw [dif_neg hlength]
        refine iff_of_false nofun fun h => hlength ?_
        rw [Except.ok.inj h]
        exact a.property

end

/-! ## Writing -/

theorem hexmap_digit {n : UInt8} (h : n < 16) : hexmap.getD n.toNat 0 = digit n := by
  have hall : ∀ k < 16, hexmap.getD k 0 = digit (UInt8.ofNat k) := by decide
  have hn := hall n.toNat (UInt8.lt_iff_toNat_lt.mp h)
  rwa [UInt8.ofNat_toNat] at hn

theorem high_half (b : UInt8) : (b &&& 0xf0) >>> 4 = b/16 := by
  apply UInt8.toNat_inj.mp
  have hb := b.toNat_lt
  have hmask : b.toNat >>> 4 &&& 15 = b.toNat/16%16 := by
    rw [Nat.and_two_pow_sub_one_eq_mod _ 4,Nat.shiftRight_eq_div_pow]
  rw [UInt8.toNat_shiftRight,UInt8.toNat_and,UInt8.toNat_div]
  change (b.toNat &&& 240) >>> 4 = b.toNat/16
  rw [Nat.shiftRight_and_distrib]
  change b.toNat >>> 4 &&& 15 = b.toNat/16
  omega

theorem low_half (b : UInt8) : b &&& 0x0f = b%16 := by
  apply UInt8.toNat_inj.mp
  rw [UInt8.toNat_and,UInt8.toNat_mod]
  exact Nat.and_two_pow_sub_one_eq_mod _ 4

section
variable {data s t : Bytes} {fuel : ℕ} {i : UInt32}

theorem toHexLoop_turn (h : i.toNat < data.length) : toHexLoop data (fuel+1) i s =
    toHexLoop data fuel (i+1) ((s.set (2*i).toNat (digit (data.getD i.toNat 0/16))).set
      (2*i+1).toNat (digit (data.getD i.toNat 0%16))) := by
  have hhalf := halves (data.getD i.toNat 0)
  rw [toHexLoop,if_pos h]
  dsimp only
  rw [high_half,low_half,hexmap_digit hhalf.1,hexmap_digit hhalf.2.1]

theorem toHexLoop_end (h : ¬i.toNat < data.length) : toHexLoop data (fuel+1) i s = .ok s :=
  if_neg h

theorem set_pair (xs ys : Bytes) (x y a b : UInt8) :
    ((xs++a::b::ys).set xs.length x).set (xs.length+1) y = (xs++[x,y])++ys := by
  rw [List.set_append_right _ _ le_rfl,List.set_append_right _ _ (Nat.le_succ _)]
  simp

/-- While twice the counter fits its 32 bits, each turn writes the digits of one byte. -/
theorem toHexLoop_write {done rest : Bytes} (hlen : (done++rest).length ≤ 2^31)
    (hfuel : rest.length < fuel) :
    toHexLoop (done++rest) fuel (UInt32.ofNat done.length)
      (write done++List.replicate (2*rest.length) 32) = .ok (write (done++rest)) := by
  induction rest generalizing done fuel with
  | nil =>
      obtain ⟨fuel,rfl⟩ : ∃ n, fuel = n+1 := ⟨fuel-1,by omega⟩
      have hi : ¬(UInt32.ofNat done.length).toNat < (done++[]).length := by
        rw [List.append_nil,UInt32.toNat_ofNat']
        rw [List.append_nil] at hlen
        omega
      rw [toHexLoop_end hi,List.append_nil]
      exact congrArg Except.ok (List.append_nil _)
  | cons b rest ih =>
      obtain ⟨fuel,rfl⟩ : ∃ n, fuel = n+1 := ⟨fuel-1,by omega⟩
      simp only [List.length_append,List.length_cons] at hlen hfuel
      have hi : (UInt32.ofNat done.length).toNat = done.length := by
        rw [UInt32.toNat_ofNat']
        omega
      have hfirst : (2*UInt32.ofNat done.length).toNat = 2*done.length := by
        rw [UInt32.toNat_mul,hi]
        change 2*done.length%2^32 = _
        omega
      have hsecond : (2*UInt32.ofNat done.length+1).toNat = 2*done.length+1 := by
        rw [UInt32.toNat_add,hfirst]
        change (2*done.length+1)%2^32 = _
        omega
      have hnext : UInt32.ofNat done.length+1 = UInt32.ofNat (done++[b]).length := by
        rw [List.length_append]
        exact (UInt32.ofNat_add done.length 1).symm
      have hbyte : (done++b::rest).getD done.length 0 = b := by simp
      have hspaces : List.replicate (2*(b::rest).length) (32 : UInt8) =
          32::32::List.replicate (2*rest.length) 32 := rfl
      have hset := set_pair (write done) (List.replicate (2*rest.length) 32)
      rw [write_length] at hset
      have hwrite : write done++[digit (b/16),digit (b%16)] = write (done++[b]) :=
        (write_append done [b]).symm
      rw [toHexLoop_turn (by rw [hi]; simp),hi,hfirst,hsecond,hbyte,hspaces,hset,hnext,hwrite,
        List.append_cons]
      refine ih ?_ (Nat.lt_of_succ_lt_succ hfuel)
      simp only [List.length_append,List.length_cons,List.length_nil]
      omega

theorem toHex_eq (h : data.length ≤ 2^31) : toHex data = .ok (write data) := by
  have hrun := @toHexLoop_write (data.length+1) [] data h (Nat.lt_succ_self _)
  rw [toHex,Nat.mul_comm]
  exact hrun

example : toHex [0x0a,0xff] = .ok (ascii "0aff") := rfl

/-- The loop does not get to the places from `2^32` on. -/
theorem toHexLoop_far (h : toHexLoop data fuel i s = .ok t) {j : ℕ} (hj : 2^32 ≤ j) :
    t[j]? = s[j]? := by
  induction fuel generalizing i s with
  | zero => cases h
  | succ fuel ih =>
      by_cases hi : i.toNat < data.length
      · rw [toHexLoop_turn hi] at h
        have hfirst := (2*i).toNat_lt
        have hsecond := (2*i+1).toNat_lt
        rw [ih h,List.getElem?_set_ne (by omega),List.getElem?_set_ne (by omega)]
      · rw [toHexLoop_end hi] at h
        rw [Except.ok.inj h]

/-- A longer byte string leaves a space in its text. -/
theorem toHex_space (hlen : 2^31 < data.length) (h : toHex data = .ok t) : 32 ∈ t := by
  have hfar := toHexLoop_far h (le_refl (2^32))
  rw [List.getElem?_replicate_of_lt (by omega)] at hfar
  exact List.mem_of_getElem? hfar

/-- As long as the counter can get to the length of the data. -/
theorem toHexLoop_ends (hlen : data.length < 2^32) (hi : i.toNat ≤ data.length)
    (hfuel : data.length < i.toNat+fuel) : ∃ t, toHexLoop data fuel i s = .ok t := by
  induction fuel generalizing i s with
  | zero => omega
  | succ fuel ih =>
      by_cases hopen : i.toNat < data.length
      · have hnext : (i+1).toNat = i.toNat+1 := by
          rw [UInt32.toNat_add]
          change (i.toNat+1)%2^32 = _
          omega
        rw [toHexLoop_turn hopen]
        exact ih (by omega) (by omega)
      · exact ⟨s,toHexLoop_end hopen⟩

/-- Otherwise no number of turns is enough. -/
theorem toHexLoop_endless (h : 2^32 ≤ data.length) (fuel : ℕ) (i : UInt32) (s : Bytes) :
    toHexLoop data fuel i s = undefined := by
  induction fuel generalizing i s with
  | zero => rfl
  | succ fuel ih =>
      have hi := i.toNat_lt
      rw [toHexLoop_turn (by omega)]
      exact ih _ _

end

/-! ## Both ways -/

section
variable {s ds b : Bytes}

theorem written_write (b : Bytes) : Written (write b) (write b) :=
  ⟨.inl rfl,by rw [write_length]; exact even_two_mul _,write_isDigit b⟩

theorem fromHex_space (h : 32 ∈ s) : fromHex s = raise .invalidArgument := by
  refine fromHex_refused ?_
  rintro ⟨ds,rfl | rfl,-,hdigits⟩
  · exact absurd (hdigits _ h) (by decide)
  · rcases List.mem_append.mp h with h | h
    · exact absurd h (by decide)
    · exact absurd (hdigits _ h) (by decide)

theorem comes_back_iff : (toHex b >>= fromHex) = .ok b ↔ b.length ≤ 2^31 := by
  constructor
  · intro h
    by_contra hlong
    cases hrun : toHex b with
    | error e =>
        rw [hrun] at h
        cases h
    | ok t =>
        rw [hrun,bind_ok,fromHex_space (toHex_space (not_le.mp hlong) hrun)] at h
        cases h
  · intro h
    rw [toHex_eq h,bind_ok,fromHex_written (written_write b),read_write]

/-- Between the two limits `to_hex` ends, and `from_hex` does not take its text. -/
theorem comes_back_refused (hlong : 2^31 < b.length) (hshort : b.length < 2^32) :
    (toHex b >>= fromHex) = raise .invalidArgument := by
  obtain ⟨t,ht⟩ : ∃ t, toHex b = .ok t :=
    toHexLoop_ends hshort (Nat.zero_le _) (by rw [UInt32.toNat_zero]; omega)
  rw [ht,bind_ok,fromHex_space (toHex_space hlong ht)]

theorem lowered_iff (h : Written s ds) :
    toHex (read ds) = .ok (ds.map lower) ↔ ds.length ≤ 2^32 := by
  have hlength := read_length h.even
  have hwrite := write_read h.even h.digits
  constructor
  · intro hrun
    by_contra hlong
    have hspace := toHex_space (by omega) hrun
    rw [← hwrite] at hspace
    exact absurd (write_isDigit _ _ hspace) (by decide)
  · intro hshort
    rw [toHex_eq (by omega),hwrite]

theorem address_iff : (∃ a, bytes20 s = .ok a) ↔ ∃ ds, Written s ds ∧ ds.length = 40 := by
  constructor
  · rintro ⟨a,ha⟩
    obtain ⟨ds,hds,hread⟩ := fromHex_ok.mp (bytes20_ok.mp ha)
    have hlength := read_length hds.even
    rw [← hread,a.property] at hlength
    exact ⟨ds,hds,hlength.symm⟩
  · rintro ⟨ds,hds,hlength⟩
    have hread := read_length hds.even
    exact ⟨⟨read ds,by omega⟩,bytes20_ok.mpr (fromHex_written hds)⟩

end

/-- The texts that are accepted are always the right ones. What is written back is right
as long as the counter of `to_hex`, doubled, fits its type. -/
theorem hexExact_iff (s b : Bytes) :
    HexExact s b ↔ (∀ ds, Written s ds → ds.length ≤ 2^32) ∧ b.length ≤ 2^31 := by
  constructor
  · intro h
    refine ⟨fun ds hds => ?_,comes_back_iff.mp h.back⟩
    exact (lowered_iff hds).mp (h.lowered ds _ hds (fromHex_written hds)).2
  · rintro ⟨htext,hbytes⟩
    constructor
    · constructor
      · rintro ⟨out,hout⟩
        obtain ⟨ds,hds,-⟩ := fromHex_ok.mp hout
        exact ⟨ds,hds⟩
      · rintro ⟨ds,hds⟩
        exact ⟨_,fromHex_written hds⟩
    · exact fromHex_refused
    · intro ds out hds hout
      obtain rfl := Except.ok.inj ((fromHex_written hds).symm.trans hout)
      exact ⟨read_length hds.even,(lowered_iff hds).mpr (htext ds hds)⟩
    · exact comes_back_iff.mpr hbytes
    · exact address_iff
    · exact fun a ha => bytes20_ok.mp ha

/-- One byte more than the counter can write. -/
def longBytes : Bytes := List.replicate (2^31+1) 0

theorem long_bytes_refused :
    (toHex longBytes >>= fromHex) = raise .invalidArgument ∧ ¬HexExact [] longBytes := by
  have hlength : longBytes.length = 2^31+1 := List.length_replicate
  refine ⟨comes_back_refused (by omega) (by omega),fun h => ?_⟩
  have hshort := comes_back_iff.mp h.back
  omega

end TownCrier.Encoding
