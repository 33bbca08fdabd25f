import TownCrier.Cpp
import TownCrier.Substrings

/-!
# The search of the Steam scraper

`search` of `steam2.cpp`, and of the older `Steam2.cpp`. The loop stops at one place
of the pointer, counted from the two lengths, and has no other end.
-/
namespace TownCrier.SteamScraper
open BigEndian Cpp Substrings

/-- `int len = strlen(s)`. -/
def intLength (s : Bytes) : ℤ := (s.length : ℤ).bmod (2^32)

/-- `strncmp(a, b, n) == 0`, with the terminators. -/
def strncmpEq (a b : Bytes) (n : ℕ) : Bool := (a++[0]).take n = (b++[0]).take n

/-- From the `i`-th place on. Behind the terminator there is nothing to compare. -/
def searchLoop (searchString : Bytes) (slen : ℕ) (stop : ℤ) (i : ℤ) : Bytes → Exec (Option Bytes)
  | [] =>
      if strncmpEq [] searchString slen then pure (some [])
      else if i+1 = stop then pure none
      else undefined
  | c::s =>
      if strncmpEq (c::s) searchString slen then pure (some (c::s))
      else if i+1 = stop then pure none
      else searchLoop searchString slen stop (i+1) s

/-- A pointer into `buf` is what is left of it. -/
def search (buf searchString : Bytes) : Exec (Option Bytes) :=
  let len := intLength buf
  let slen := intLength searchString
  if slen > len then pure none
  else searchLoop searchString (slen%2^64).toNat (len-slen-1) 0 buf

section
variable {searchString temp t : Bytes} {stop i : ℤ}

/-- The test over the length of the word looks for the word. -/
theorem strncmpEq_length (h : 0 ∉ searchString) :
    strncmpEq temp searchString searchString.length = true ↔ searchString <+: temp := by
  rw [strncmpEq,decide_eq_true_iff,List.take_left]
  constructor
  · intro htake
    have hfront : searchString <+: temp++[0] := by
      have := List.take_prefix searchString.length (temp++[0])
      rwa [htake] at this
    rw [List.prefix_concat_iff] at hfront
    cases hfront with
    | inl heq => exact absurd (heq ▸ List.mem_append_right temp List.mem_cons_self) h
    | inr hfront => exact hfront
  · intro ⟨rest,htemp⟩
    rw [← htemp,List.append_assoc,List.take_left]

theorem searchLoop_cons (h : 0 ∉ searchString) (c : UInt8) (s : Bytes) :
    searchLoop searchString searchString.length stop i (c::s) =
      if searchString <+: c::s then pure (some (c::s))
      else if i+1 = stop then pure none
      else searchLoop searchString searchString.length stop (i+1) s := by
  rw [searchLoop]
  simp only [strncmpEq_length h]

theorem searchLoop_nil (h : 0 ∉ searchString) :
    searchLoop searchString searchString.length stop i [] =
      if searchString = [] then pure (some [])
      else if i+1 = stop then pure none
      else undefined := by
  rw [searchLoop]
  simp only [strncmpEq_length h,List.prefix_nil]

/-- The first place of the word is found if it is not behind the stop. -/
theorem searchLoop_found (h : 0 ∉ searchString) (hfind : strstr searchString temp = some t)
    (hstop : stop ≤ i ∨ i+temp.length < stop+t.length) :
    searchLoop searchString searchString.length stop i temp = .ok (some t) := by
  induction temp generalizing i with
  | nil =>
      rw [strstr] at hfind
      split_ifs at hfind with hnil
      rw [searchLoop_nil h,if_pos hnil,hfind]
      rfl
  | cons c s ih =>
      rw [strstr_cons] at hfind
      rw [searchLoop_cons h]
      split_ifs at hfind with hfront
      · rw [if_pos hfront,hfind]
        rfl
      · have hlen := (strstr_length hfind).1
        rw [List.length_cons,Nat.cast_succ] at hstop
        rw [if_neg hfront,if_neg (by omega)]
        exact ih hfind (by omega)

/-- Behind the stop nothing is found. -/
theorem searchLoop_stopped (h : 0 ∉ searchString) (hahead : i < stop)
    (hstop : stop ≤ i+temp.length)
    (hfind : ∀ t, strstr searchString temp = some t → stop+t.length ≤ i+temp.length) :
    searchLoop searchString searchString.length stop i temp = .ok none := by
  induction temp generalizing i with
  | nil =>
      rw [List.length_nil] at hstop
      omega
  | cons c s ih =>
      rw [List.length_cons,Nat.cast_succ] at hstop
      have hfront : ¬searchString <+: c::s := by
        intro hfront
        have := hfind _ (strstr_here hfront)
        omega
      rw [searchLoop_cons h,if_neg hfront]
      split_ifs with hnext
      · rfl
      · refine ih (by omega) (by omega) fun t ht => ?_
        have := hfind t (by rw [strstr_cons,if_neg hfront,ht])
        rw [List.length_cons,Nat.cast_succ] at this
        omega

/-- Without a stop ahead a word that is missing is looked for behind the terminator. -/
theorem searchLoop_lost (h : 0 ∉ searchString) (hstop : stop ≤ i)
    (hfind : strstr searchString temp = none) :
    searchLoop searchString searchString.length stop i temp = undefined := by
  induction temp generalizing i with
  | nil =>
      rw [strstr] at hfind
      split_ifs at hfind with hnil
      rw [searchLoop_nil h,if_neg hnil,if_neg (by omega)]
  | cons c s ih =>
      rw [strstr_cons] at hfind
      split_ifs at hfind with hfront
      rw [searchLoop_cons h,if_neg hfront,if_neg (by omega)]
      exact ih (by omega) hfind

end

/-- The lengths that are left between the two ends, as the code computes them. -/
def room (buf searchString : Bytes) : ℤ := intLength buf-searchString.length

/-- A length that fits keeps its value. -/
theorem intLength_eq {s : Bytes} (h : s.length < 2^31) : intLength s = s.length := by
  have hlow : -((2^32 : ℕ) : ℤ) ≤ (s.length : ℤ)*2 := by
    simp only [Nat.reducePow]
    omega
  have hhigh : (s.length : ℤ)*2 < ((2^32 : ℕ) : ℤ) := by
    simp only [Nat.reducePow] at h ⊢
    omega
  exact Int.bmod_eq_of_le_mul_two hlow hhigh

theorem bmod_natCast_le (n m : ℕ) : (n : ℤ).bmod m ≤ n := by
  have hmod : (n : ℤ)%m ≤ n := by
    rw [← Int.natCast_mod]
    exact Int.ofNat_le.mpr (Nat.mod_le n m)
  rw [Int.bmod_eq_emod]
  split_ifs
  · omega
  · omega

theorem intLength_le (s : Bytes) : intLength s ≤ s.length := bmod_natCast_le s.length (2^32)

theorem search_eq {searchString : Bytes} (hlen : searchString.length < 2^31) (buf : Bytes) :
    search buf searchString =
      if room buf searchString < 0 then pure none
      else searchLoop searchString searchString.length (room buf searchString-1) 0 buf := by
  have hsize : ((searchString.length : ℤ)%2^64).toNat = searchString.length := by
    simp only [Nat.reducePow,Int.reducePow] at hlen ⊢
    omega
  simp only [search,room,intLength_eq hlen,hsize,gt_iff_lt,sub_neg]

/-- The search finds what is there exactly if, with no room, the word is not there, with room for
one place or two it is there, and with more it is at one of the places before the last two, or
nowhere. -/
theorem search_eq_strstr_iff (buf : Bytes) {searchString : Bytes} (h : 0 ∉ searchString)
    (hlen : searchString.length < 2^31) :
    search buf searchString = .ok (strstr searchString buf) ↔
      (room buf searchString < 0 → ¬searchString <:+: buf) ∧
      (0 ≤ room buf searchString → room buf searchString ≤ 1 → searchString <:+: buf) ∧
      (2 ≤ room buf searchString → searchString <:+: buf →
        ∃ before after, buf = before++(searchString++after) ∧
          before.length+1 < room buf searchString) := by
  have hbuf : room buf searchString+searchString.length ≤ buf.length := by
    have := intLength_le buf
    rw [room]
    omega
  rw [search_eq hlen]
  generalize room buf searchString = r at hbuf ⊢
  cases hfind : strstr searchString buf with
  | none =>
      have hnone := strstr_eq_none.mp hfind
      rcases lt_or_ge r 0 with hroom | hroom
      · rw [if_pos hroom]
        exact iff_of_true rfl ⟨fun _ => hnone,by omega,by omega⟩
      rw [if_neg (by omega)]
      rcases le_or_gt r 1 with hone | hmany
      · rw [searchLoop_lost h (by omega) hfind]
        refine iff_of_false (by intro h; cases h) ?_
        exact fun hall => hnone (hall.2.1 hroom hone)
      · rw [searchLoop_stopped h (by omega) (by omega) fun t ht => by cases hfind.symm.trans ht]
        exact iff_of_true rfl ⟨fun _ => hnone,by omega,fun _ hin => absurd hin hnone⟩
  | some t =>
      have hin : searchString <:+: buf := by
        by_contra hnone
        cases hfind.symm.trans (strstr_eq_none.mpr hnone)
      obtain ⟨hle,hwle⟩ := strstr_length hfind
      rcases lt_or_ge r 0 with hroom | hroom
      · rw [if_pos hroom]
        refine iff_of_false (by intro h; cases h) fun hall => hall.1 hroom hin
      rw [if_neg (by omega)]
      rcases le_or_gt r 1 with hone | hmany
      · rw [searchLoop_found h hfind (by omega)]
        exact iff_of_true rfl ⟨by omega,fun _ _ => hin,by omega⟩
      by_cases hfirst : (buf.length : ℤ)-t.length+1 < r
      · rw [searchLoop_found h hfind (by omega)]
        obtain ⟨u,hu,-,after,hafter⟩ := strstr_eq_some.mp hfind
        refine iff_of_true rfl ⟨by omega,by omega,fun _ _ => ⟨u,after,by rw [hafter,← hu],?_⟩⟩
        have := congrArg List.length hu
        rw [List.length_append] at this
        omega
      · rw [searchLoop_stopped h (by omega) (by omega) fun t' ht' => by
          cases hfind.symm.trans ht'
          omega]
        refine iff_of_false (by intro h; cases h) fun hall => ?_
        obtain ⟨before,after,hbefore,hplace⟩ := hall.2.2 (by omega) hin
        have := strstr_first hfind hbefore
        omega

/-- Four letters have room for three places of two: the code looks at the first of them. -/
theorem search_pair : search (ascii "abab") (ascii "ab") = .ok (strstr (ascii "ab") (ascii "abab")) :=
  (search_eq_strstr_iff (ascii "abab") (by decide) (by decide)).mpr
    ⟨fun h => absurd h (by decide),fun _ h => absurd h (by decide),fun _ _ =>
      ⟨[],ascii "ab",by decide,by decide⟩⟩

/-- The last letter of three is not found, and a missing one is looked for beyond the end. -/
theorem search_misses :
    search (ascii "abc") (ascii "c") = .ok none ∧
      strstr (ascii "c") (ascii "abc") = some (ascii "c") ∧
      search (ascii "a") (ascii "b") = undefined := by
  decide

end TownCrier.SteamScraper
