import TownCrier.PicoJson
import Mathlib.Data.List.TakeWhile

/-!
# The language of the JSON parser

The texts of each value, without any reference to the parser: they are built
from the texts of the parts, with white space in front of every token. The
parser finds a value at the beginning of its input exactly if one of the texts
of this value is there, and what it leaves is what follows the text. A number is
the only value whose end is not visible in its text.
-/
namespace TownCrier.PicoJson
open BigEndian Cpp Numerals

/-- Characters in front of a token. -/
def Blank (c : UInt8) : Prop := c = 32 ∨ c = 9 ∨ c = 10 ∨ c = 13

instance (c : UInt8) : Decidable (Blank c) := inferInstanceAs (Decidable (_ ∨ _))

def Blanks (w : Bytes) : Prop := ∀ c ∈ w, Blank c

/-- Four hexadecimal digits. -/
inductive Quad : Bytes → ℕ → Prop
  | digits {a b c d w x y z} (ha : digitValue 16 a = some w) (hb : digitValue 16 b = some x)
      (hc : digitValue 16 c = some y) (hd : digitValue 16 d = some z) :
      Quad [a,b,c,d] (number 16 [w,x,y,z])

/-- What follows a backslash, and the characters it stands for. -/
inductive Escaped : Bytes → Bytes → Prop
  | char {c x} (h : escape c = some x) : Escaped [c] [x]
  | unit {q n} (hq : Quad q n) (hn : ¬(0xd800 ≤ n ∧ n ≤ 0xdfff)) : Escaped (117::q) (utf8 n)
  | pair {q q' n n'} (hq : Quad q n) (hn : 0xd800 ≤ n ∧ n < 0xdc00) (hq' : Quad q' n')
      (hn' : 0xdc00 ≤ n' ∧ n' ≤ 0xdfff) :
      Escaped (117::(q++(92::117::q')))
        (utf8 (((n-0xd800) <<< 10 ||| (n'-0xdc00) &&& 0x3ff)+0x10000))

/-- A text between quotation marks, and its characters. -/
inductive Chars : Bytes → Bytes → Prop
  | nil : Chars [] []
  | plain {c t cs} (hctrl : 32 ≤ c) (hquote : c ≠ 34) (hback : c ≠ 92) (ht : Chars t cs) :
      Chars (c::t) (c::cs)
  | escape {e x t cs} (he : Escaped e x) (ht : Chars t cs) : Chars (92::(e++t)) (x++cs)

/-- What a text can be a text of. -/
inductive Node where
  | value (v : Value)
  /-- Behind the bracket that opens an array or an object. -/
  | items (vs : List Value)
  | members (ms : List (Bytes × Value))

inductive Text : Node → Bytes → Prop
  | null {w} (hw : Blanks w) : Text (.value .null) (w++ascii "null")
  | false {w} (hw : Blanks w) : Text (.value (.boolean false)) (w++ascii "false")
  | true {w} (hw : Blanks w) : Text (.value (.boolean true)) (w++ascii "true")
  | number {w c t d} (hw : Blanks w) (hc : 48 ≤ c ∧ c ≤ 57 ∨ c = 45)
      (ht : ∀ x ∈ c::t, numberChar x = true) (hd : strtod (c::t) = (.finite d,[])) :
      Text (.value (.number d)) (w++(c::t))
  | string {w t s} (hw : Blanks w) (ht : Chars t s) : Text (.value (.string s)) (w++(34::(t++[34])))
  | emptyArray {w w'} (hw : Blanks w) (hw' : Blanks w') :
      Text (.value (.array [])) (w++(91::(w'++[93])))
  | array {w t vs} (hw : Blanks w) (ht : Text (.items vs) t) :
      Text (.value (.array vs)) (w++(91::t))
  | emptyObject {w w'} (hw : Blanks w) (hw' : Blanks w') :
      Text (.value (.object [])) (w++(123::(w'++[125])))
  /-- The latest member comes first in the value. -/
  | object {w t ms} (hw : Blanks w) (ht : Text (.members ms) t) :
      Text (.value (.object ms.reverse)) (w++(123::t))
  | lastItem {v t w} (ht : Text (.value v) t) (hw : Blanks w) : Text (.items [v]) (t++(w++[93]))
  | item {v t w vs t'} (ht : Text (.value v) t) (hw : Blanks w) (ht' : Text (.items vs) t') :
      Text (.items (v::vs)) (t++(w++(44::t')))
  | lastMember {w key k w' v t w''} (hw : Blanks w) (hk : Chars k key) (hw' : Blanks w')
      (ht : Text (.value v) t) (hw'' : Blanks w'') :
      Text (.members [(key,v)]) (w++(34::(k++(34::(w'++(58::(t++(w''++[125]))))))))
  | member {w key k w' v t w'' ms t'} (hw : Blanks w) (hk : Chars k key) (hw' : Blanks w')
      (ht : Text (.value v) t) (hw'' : Blanks w'') (ht' : Text (.members ms) t') :
      Text (.members ((key,v)::ms)) (w++(34::(k++(34::(w'++(58::(t++(w''++(44::t')))))))))

/-- What can follow the text of a value without becoming part of it. -/
def Bounded : Value → Bytes → Prop
  | .number _, rest => ∀ c, rest.head? = some c → numberChar c = false
  | _, _ => True

/-!
### Tokens
-/

theorem skipWs_cons (c : UInt8) (s : Bytes) :
    skipWs (c::s) = if Blank c then skipWs s else c::s := by
  rw [skipWs,List.dropWhile_cons,skipWs]
  by_cases h : Blank c
  · rw [if_pos h,if_pos]
    simpa [Blank] using h
  · rw [if_neg h,if_neg]
    simpa [Blank] using h

theorem skipWs_append {w : Bytes} {c : UInt8} (hw : Blanks w) (hc : ¬Blank c) (s : Bytes) :
    skipWs (w++(c::s)) = c::s := by
  induction w with
  | nil => rw [List.nil_append,skipWs_cons,if_neg hc]
  | cons b w ih =>
      rw [List.cons_append,skipWs_cons,if_pos (hw b List.mem_cons_self)]
      exact ih fun x hx => hw x (List.mem_cons_of_mem _ hx)

theorem of_skipWs {c : UInt8} {s t : Bytes} (h : skipWs s = c::t) :
    ∃ w, Blanks w ∧ s = w++(c::t) := by
  induction s with
  | nil => cases h
  | cons b s ih =>
      rw [skipWs_cons] at h
      split_ifs at h with hb
      · obtain ⟨w,hw,hs⟩ := ih h
        refine ⟨b::w,?_,by rw [hs,List.cons_append]⟩
        exact List.forall_mem_cons.mpr ⟨hb,hw⟩
      · exact ⟨[],fun x hx => absurd hx List.not_mem_nil,h⟩

theorem expect_append {w : Bytes} {c b : UInt8} (hw : Blanks w) (hb : ¬Blank b) (s : Bytes) :
    expect c (w++(b::s)) = if b = c then some s else none := by
  rw [expect,skipWs_append hw hb]

theorem of_expect {c : UInt8} {s rest : Bytes} (h : expect c s = some rest) :
    ∃ w, Blanks w ∧ s = w++(c::rest) := by
  rw [expect] at h
  split at h
  next x t hs =>
    split_ifs at h with hx
    cases h
    rw [← hx]
    exact of_skipWs hs
  next => cases h

theorem matchPattern_iff {p s rest : Bytes} : matchPattern p s = some rest ↔ s = p++rest := by
  induction p generalizing s with
  | nil => simp [matchPattern]
  | cons x p ih =>
      cases s with
      | nil => simp [matchPattern]
      | cons y s =>
          rw [matchPattern,List.cons_append,List.cons.injEq]
          split_ifs with h
          · rw [ih]
            exact ⟨fun hs => ⟨h,hs⟩,fun hs => hs.2⟩
          · constructor
            · intro hs
              cases hs
            · intro hs
              exact absurd hs.1 h

theorem quadhex_iff {s rest : Bytes} {n : ℕ} :
    quadhex s = some (n,rest) ↔ ∃ q, Quad q n ∧ s = q++rest := by
  constructor
  · intro h
    unfold quadhex at h
    split at h
    next a b c d t =>
      simp only [Option.pure_def,Option.bind_eq_bind,Option.bind_eq_some_iff,Option.some.injEq,
        Prod.mk.injEq] at h
      obtain ⟨w,ha,x,hb,y,hc,z,hd,rfl,rfl⟩ := h
      exact ⟨[a,b,c,d],.digits ha hb hc hd,rfl⟩
    next => cases h
  · rintro ⟨q,hq,rfl⟩
    cases hq with
    | digits ha hb hc hd =>
        simp only [List.cons_append,List.nil_append,quadhex,ha,hb,hc,hd,Option.pure_def,
          Option.bind_eq_bind,Option.bind_some]

/-!
### Strings
-/

theorem of_codepoint {s x rest : Bytes} (h : codepoint s = some (x,rest)) :
    ∃ e, Escaped (117::e) x ∧ s = e++rest := by
  rw [codepoint] at h
  obtain ⟨⟨n,t⟩,hq,hfirst⟩ := Option.bind_eq_some_iff.mp h
  obtain ⟨q,hquad,rfl⟩ := quadhex_iff.mp hq
  dsimp only at hfirst
  split_ifs at hfirst with hsurrogate hlow
  · obtain ⟨u,hm,hpair⟩ := Option.bind_eq_some_iff.mp hfirst
    obtain ⟨⟨n',t'⟩,hq',hlast⟩ := Option.bind_eq_some_iff.mp hpair
    obtain ⟨q',hquad',rfl⟩ := quadhex_iff.mp hq'
    obtain rfl := matchPattern_iff.mp hm
    dsimp only at hlast
    split_ifs at hlast with hsecond
    obtain ⟨rfl,rfl⟩ := Prod.mk.inj (Option.some.inj hlast)
    have hlt : n < 0xdc00 := Nat.lt_of_not_le hlow
    refine ⟨q++(92::117::q'),.pair hquad ⟨hsurrogate.1,hlt⟩ hquad' hsecond,?_⟩
    exact (List.append_assoc q (92::117::q') _).symm
  · cases hfirst
    exact ⟨q,.unit hquad hsurrogate,rfl⟩

theorem codepoint_unit {q : Bytes} {n : ℕ} (hq : Quad q n) (hn : ¬(0xd800 ≤ n ∧ n ≤ 0xdfff))
    (rest : Bytes) : codepoint (q++rest) = some (utf8 n,rest) := by
  rw [codepoint,quadhex_iff.mpr ⟨q,hq,rfl⟩,Option.bind_eq_bind,Option.bind_some]
  exact if_neg hn

theorem codepoint_pair {q q' : Bytes} {n n' : ℕ} (hq : Quad q n) (hn : 0xd800 ≤ n ∧ n < 0xdc00)
    (hq' : Quad q' n') (hn' : 0xdc00 ≤ n' ∧ n' ≤ 0xdfff) (rest : Bytes) :
    codepoint ((q++(92::117::q'))++rest) =
      some (utf8 (((n-0xd800) <<< 10 ||| (n'-0xdc00) &&& 0x3ff)+0x10000),rest) := by
  have hsecond : matchPattern (ascii "\\u") (92::117::q'++rest) = some (q'++rest) :=
    matchPattern_iff.mpr rfl
  rw [List.append_assoc,codepoint,quadhex_iff.mpr ⟨q,hq,rfl⟩,Option.bind_eq_bind,Option.bind_some]
  dsimp only
  rw [if_pos ⟨hn.1,by omega⟩,if_neg (by omega),hsecond,Option.bind_eq_bind,Option.bind_some,
    quadhex_iff.mpr ⟨q',hq',rfl⟩,Option.bind_some]
  exact if_pos hn'

theorem parseEscape_iff {s x rest : Bytes} :
    parseEscape s = some (x,rest) ↔ ∃ e, Escaped e x ∧ s = e++rest := by
  constructor
  · intro h
    cases s with
    | nil => cases h
    | cons c s =>
        rw [parseEscape] at h
        split_ifs at h with hu
        · obtain ⟨e,he,rfl⟩ := of_codepoint h
          exact ⟨117::e,he,by rw [hu,List.cons_append]⟩
        · obtain ⟨y,hy,heq⟩ := Option.map_eq_some_iff.mp h
          cases heq
          exact ⟨[c],.char hy,rfl⟩
  · rintro ⟨e,he,rfl⟩
    cases he with
    | @char c y h =>
        have hu : c ≠ 117 := by
          rintro rfl
          cases h
        rw [List.cons_append,List.nil_append,parseEscape,if_neg hu,h]
        rfl
    | unit hq hn =>
        rw [List.cons_append,parseEscape,if_pos rfl]
        exact codepoint_unit hq hn rest
    | pair hq hn hq' hn' =>
        rw [List.cons_append,parseEscape,if_pos rfl]
        exact codepoint_pair hq hn hq' hn' rest

theorem of_parseString {fuel : ℕ} {out s a rest : Bytes}
    (h : parseString fuel out s = .success a rest) :
    ∃ t cs, Chars t cs ∧ s = t++(34::rest) ∧ a = out++cs := by
  induction fuel generalizing out s with
  | zero => cases h
  | succ fuel ih =>
      cases s with
      | nil => cases h
      | cons c s =>
          rw [parseString] at h
          split_ifs at h with hctrl hquote hback
          · cases h
            exact ⟨[],[],.nil,by rw [hquote]; rfl,(List.append_nil _).symm⟩
          · cases he : parseEscape s with
            | none =>
                rw [he] at h
                cases h
            | some r =>
                obtain ⟨x,u⟩ := r
                rw [he] at h
                obtain ⟨t,cs,hchars,rfl,rfl⟩ := ih h
                obtain ⟨e,hescaped,rfl⟩ := parseEscape_iff.mp he
                refine ⟨92::(e++t),x++cs,.escape hescaped hchars,?_,List.append_assoc ..⟩
                rw [hback,List.cons_append,List.append_assoc]
          · obtain ⟨t,cs,hchars,rfl,rfl⟩ := ih h
            refine ⟨c::t,c::cs,.plain (UInt8.not_lt.mp hctrl) hquote hback hchars,rfl,?_⟩
            rw [List.append_assoc]
            rfl

theorem parseString_chars {t cs : Bytes} (h : Chars t cs) {fuel : ℕ} {out rest : Bytes}
    (hfuel : (t++(34::rest)).length ≤ fuel) :
    parseString fuel out (t++(34::rest)) = .success (out++cs) rest := by
  induction h generalizing fuel out with
  | nil =>
      cases fuel with
      | zero => simp at hfuel
      | succ fuel => rw [List.append_nil]; rfl
  | @plain c t cs hctrl hquote hback ht ih =>
      cases fuel with
      | zero => simp at hfuel
      | succ fuel =>
          rw [List.cons_append,List.length_cons] at hfuel
          rw [List.cons_append,parseString,if_neg (UInt8.not_lt.mpr hctrl),if_neg hquote,
            if_neg hback,ih (by omega),List.append_assoc]
          rfl
  | @escape e x t cs he ht ih =>
      cases fuel with
      | zero => simp at hfuel
      | succ fuel =>
          have hparse : parseEscape (e++(t++(34::rest))) = some (x,t++(34::rest)) :=
            parseEscape_iff.mpr ⟨e,he,rfl⟩
          rw [List.cons_append,List.append_assoc,List.length_cons,List.length_append] at hfuel
          rw [List.cons_append,List.append_assoc,parseString,if_neg (by decide),if_neg (by decide),
            if_pos rfl,hparse]
          dsimp only
          rw [ih (by omega),List.append_assoc]

/-!
### Values
-/

theorem literal_eq_success {text : String} {v v' old : Value} {s rest : Bytes} :
    literal text v old s = .success v' rest ↔ v' = v ∧ s = ascii text++rest := by
  rw [literal]
  cases h : matchPattern (ascii text) s with
  | none =>
      constructor
      · intro hs
        cases hs
      · rintro ⟨-,hs⟩
        rw [matchPattern_iff.mpr hs] at h
        cases h
  | some t =>
      obtain rfl := matchPattern_iff.mp h
      constructor
      · intro hs
        cases hs
        exact ⟨rfl,rfl⟩
      · rintro ⟨rfl,hs⟩
        rw [List.append_cancel_left hs]

/-- The tokens which an item parser is to find. -/
def Sound (p : Value → Bytes → Exec (Reply Value)) : Prop :=
  ∀ old s v rest, p old s = .ok (.success v rest) →
    ∃ t, Text (.value v) t ∧ s = t++rest ∧ Bounded v rest

theorem of_parseItems {p : Value → Bytes → Exec (Reply Value)} (hp : Sound p) {fuel : ℕ}
    {items all : List Value} {s rest : Bytes}
    (h : parseItems p fuel items s = .ok (.success all rest)) :
    ∃ vs t, Text (.items vs) t ∧ s = t++rest ∧ all = items++vs := by
  induction fuel generalizing items s with
  | zero => cases h
  | succ fuel ih =>
      rw [parseItems] at h
      obtain ⟨r,hr,hloop⟩ := bind_eq_ok h
      cases r with
      | failure v => cases hloop
      | success v u =>
          obtain ⟨t,ht,rfl,-⟩ := hp _ _ _ _ hr
          dsimp only at hloop
          cases hc : expect 44 u with
          | some u' =>
              rw [hc] at hloop
              obtain ⟨vs,t',ht',rfl,rfl⟩ := ih hloop
              obtain ⟨w,hw,rfl⟩ := of_expect hc
              refine ⟨v::vs,_,.item ht hw ht',?_,List.append_assoc ..⟩
              simp only [List.append_assoc,List.cons_append]
          | none =>
              rw [hc] at hloop
              cases hb : expect 93 u with
              | none =>
                  rw [hb] at hloop
                  cases hloop
              | some u' =>
                  rw [hb] at hloop
                  cases hloop
                  obtain ⟨w,hw,rfl⟩ := of_expect hb
                  refine ⟨[v],_,.lastItem ht hw,?_,rfl⟩
                  simp only [List.append_assoc,List.cons_append,List.nil_append]

theorem of_parseMembers {p : Value → Bytes → Exec (Reply Value)} (hp : Sound p) {fuel : ℕ}
    {fields all : List (Bytes × Value)} {s rest : Bytes}
    (h : parseMembers p fuel fields s = .ok (.success all rest)) :
    ∃ ms t, Text (.members ms) t ∧ s = t++rest ∧ all = ms.reverse++fields := by
  induction fuel generalizing fields s with
  | zero => cases h
  | succ fuel ih =>
      rw [parseMembers] at h
      split at h
      next key u hkey =>
        obtain ⟨u₁,hquote,hstring⟩ := Option.map_eq_some_iff.mp hkey
        obtain ⟨w,hw,rfl⟩ := of_expect hquote
        obtain ⟨k,cs,hk,rfl,rfl⟩ := of_parseString hstring
        cases hcolon : expect 58 u with
        | none =>
            rw [hcolon] at h
            cases h
        | some u₂ =>
            rw [hcolon] at h
            obtain ⟨w',hw',rfl⟩ := of_expect hcolon
            obtain ⟨r,hr,hloop⟩ := bind_eq_ok h
            cases r with
            | failure v => cases hloop
            | success v u₃ =>
                obtain ⟨t,ht,rfl,-⟩ := hp _ _ _ _ hr
                dsimp only at hloop
                cases hc : expect 44 u₃ with
                | some u₄ =>
                    rw [hc] at hloop
                    obtain ⟨ms,t',ht',rfl,rfl⟩ := ih hloop
                    obtain ⟨w'',hw'',rfl⟩ := of_expect hc
                    refine ⟨(key,v)::ms,_,.member hw hk hw' ht hw'' ht',?_,?_⟩
                    · simp only [List.append_assoc,List.cons_append]
                    · simp
                | none =>
                    rw [hc] at hloop
                    cases hb : expect 125 u₃ with
                    | none =>
                        rw [hb] at hloop
                        cases hloop
                    | some u₄ =>
                        rw [hb] at hloop
                        cases hloop
                        obtain ⟨w'',hw'',rfl⟩ := of_expect hb
                        refine ⟨[(key,v)],_,.lastMember hw hk hw' ht hw'',?_,rfl⟩
                        simp only [List.append_assoc,List.cons_append,List.nil_append]
      next => cases h

theorem numberChar_first {c : UInt8} (hc : 48 ≤ c ∧ c ≤ 57 ∨ c = 45) : numberChar c = true := by
  rcases hc with hc | rfl
  · simp [numberChar,hc]
  · rfl

theorem of_number {c : UInt8} {u w rest : Bytes} {v old : Value} (hw : Blanks w)
    (hc : 48 ≤ c ∧ c ≤ 57 ∨ c = 45)
    (h : (match strtod ((c::u).takeWhile numberChar) with
      | (.finite d,[]) => pure (.success (.number d) ((c::u).dropWhile numberChar))
      | (_,[]) => raise .overflowError
      | _ => pure (.failure old) : Exec (Reply Value)) = .ok (.success v rest)) :
    ∃ t, Text (.value v) t ∧ w++(c::u) = t++rest ∧ Bounded v rest := by
  split at h
  next d hd =>
    cases h
    rw [List.takeWhile_cons_of_pos (numberChar_first hc)] at hd
    have hall : ∀ x ∈ c::u.takeWhile numberChar, numberChar x = true := by
      intro x hx
      rw [← List.takeWhile_cons_of_pos (numberChar_first hc)] at hx
      exact List.mem_takeWhile_imp hx
    refine ⟨w++(c::u.takeWhile numberChar),.number hw hc hall hd,?_,?_⟩
    · rw [List.append_assoc,← List.takeWhile_cons_of_pos (numberChar_first hc),
        List.takeWhile_append_dropWhile]
    · intro x hx
      have hnot := List.head?_dropWhile_not numberChar (c::u)
      rw [hx] at hnot
      exact hnot
  next => cases h
  next => cases h

theorem parseValue_sound (fuel : ℕ) : Sound (parseValue fuel) := by
  induction fuel with
  | zero =>
      intro old s v rest h
      cases h
  | succ fuel ih =>
      intro old s v rest h
      rw [parseValue] at h
      cases hs : skipWs s with
      | nil =>
          rw [hs] at h
          cases h
      | cons c u =>
          obtain ⟨w,hw,rfl⟩ := of_skipWs hs
          rw [hs] at h
          dsimp only at h
          split_ifs at h with hnull hfalse htrue hquote hbracket hbrace hnumber
          · obtain ⟨rfl,rfl⟩ := literal_eq_success.mp (Except.ok.inj h)
            exact ⟨_,.null hw,by rw [hnull,List.append_assoc]; rfl,trivial⟩
          · obtain ⟨rfl,rfl⟩ := literal_eq_success.mp (Except.ok.inj h)
            exact ⟨_,.false hw,by rw [hfalse,List.append_assoc]; rfl,trivial⟩
          · obtain ⟨rfl,rfl⟩ := literal_eq_success.mp (Except.ok.inj h)
            exact ⟨_,.true hw,by rw [htrue,List.append_assoc]; rfl,trivial⟩
          · cases hstring : parseString u.length [] u with
            | failure a =>
                rw [hstring] at h
                cases h
            | success a rest' =>
                rw [hstring] at h
                cases h
                obtain ⟨t,cs,ht,rfl,rfl⟩ := of_parseString hstring
                refine ⟨_,.string hw ht,?_,trivial⟩
                rw [hquote]
                simp only [List.append_assoc,List.cons_append,List.nil_append]
          · cases hb : expect 93 u with
            | some u' =>
                rw [hb] at h
                cases h
                obtain ⟨w',hw',rfl⟩ := of_expect hb
                refine ⟨_,.emptyArray hw hw',?_,trivial⟩
                rw [hbracket]
                simp only [List.append_assoc,List.cons_append,List.nil_append]
            | none =>
                rw [hb] at h
                obtain ⟨r,hr,hmap⟩ := bind_eq_ok h
                obtain ⟨vs,rfl⟩ := map_success (Except.ok.inj hmap)
                cases hmap
                obtain ⟨vs',t,ht,rfl,rfl⟩ := of_parseItems ih hr
                refine ⟨_,.array hw ht,?_,trivial⟩
                rw [hbracket,List.append_assoc]
                rfl
          · cases hb : expect 125 u with
            | some u' =>
                rw [hb] at h
                cases h
                obtain ⟨w',hw',rfl⟩ := of_expect hb
                refine ⟨_,.emptyObject hw hw',?_,trivial⟩
                rw [hbrace]
                simp only [List.append_assoc,List.cons_append,List.nil_append]
            | none =>
                rw [hb] at h
                obtain ⟨r,hr,hmap⟩ := bind_eq_ok h
                obtain ⟨ms,rfl⟩ := map_success (Except.ok.inj hmap)
                cases hmap
                obtain ⟨ms',t,ht,rfl,rfl⟩ := of_parseMembers ih hr
                refine ⟨w++(123::t),?_,?_,trivial⟩
                · rw [List.append_nil]
                  exact .object hw ht
                · rw [hbrace,List.append_assoc]
                  rfl
          · exact of_number hw hnumber h
          · cases h

/-- The parser finds what the text is a text of, whatever follows. -/
def ReadsBack : Node → Bytes → Prop
  | .value v, t => ∀ fuel old rest, (t++rest).length < fuel → Bounded v rest →
      parseValue fuel old (t++rest) = .ok (.success v rest)
  | .items vs, t => ∀ fuel n items rest, (t++rest).length < fuel → (t++rest).length < n →
      parseItems (parseValue fuel) n items (t++rest) = .ok (.success (items++vs) rest)
  | .members ms, t => ∀ fuel n fields rest, (t++rest).length < fuel → (t++rest).length < n →
      parseMembers (parseValue fuel) n fields (t++rest) = .ok (.success (ms.reverse++fields) rest)

theorem bounded_token {w : Bytes} (hw : Blanks w) {c : UInt8} (hc : numberChar c = false) (v : Value)
    (rest : Bytes) : Bounded v (w++(c::rest)) := by
  cases v with
  | number d =>
      intro x hx
      cases w with
      | nil =>
          cases hx
          exact hc
      | cons b w =>
          cases hx
          rcases hw x List.mem_cons_self with rfl | rfl | rfl | rfl <;> decide
  | null | boolean | string | array | object => trivial

/-- No text of a value starts with a bracket that closes. -/
theorem value_start {v : Value} {t : Bytes} (h : Text (.value v) t) :
    ∃ w c u, Blanks w ∧ ¬Blank c ∧ c ≠ 93 ∧ t = w++(c::u) := by
  cases h with
  | null hw => exact ⟨_,110,_,hw,by decide,by decide,rfl⟩
  | false hw => exact ⟨_,102,_,hw,by decide,by decide,rfl⟩
  | true hw => exact ⟨_,116,_,hw,by decide,by decide,rfl⟩
  | number hw hc ht hd =>
      refine ⟨_,_,_,hw,?_,?_,rfl⟩
      · rintro (rfl | rfl | rfl | rfl) <;> revert hc <;> decide
      · rintro rfl
        revert hc
        decide
  | string hw ht => exact ⟨_,34,_,hw,by decide,by decide,rfl⟩
  | emptyArray hw hw' => exact ⟨_,91,_,hw,by decide,by decide,rfl⟩
  | array hw ht => exact ⟨_,91,_,hw,by decide,by decide,rfl⟩
  | emptyObject hw hw' => exact ⟨_,123,_,hw,by decide,by decide,rfl⟩
  | object hw ht => exact ⟨_,123,_,hw,by decide,by decide,rfl⟩

theorem items_start {vs : List Value} {t : Bytes} (h : Text (.items vs) t) (rest : Bytes) :
    expect 93 (t++rest) = none := by
  have hstart : ∀ {v t'}, Text (.value v) t' → ∀ rest, expect 93 (t'++rest) = none := by
    intro v t' hv rest
    obtain ⟨w,c,u,hw,hc,hne,rfl⟩ := value_start hv
    rw [List.append_assoc,List.cons_append,expect_append hw hc,if_neg hne]
  cases h with
  | lastItem ht hw =>
      rw [List.append_assoc]
      exact hstart ht _
  | item ht hw ht' =>
      rw [List.append_assoc]
      exact hstart ht _

theorem members_start {ms : List (Bytes × Value)} {t : Bytes} (h : Text (.members ms) t)
    (rest : Bytes) : expect 125 (t++rest) = none := by
  cases h with
  | lastMember hw hk hw' ht hw'' =>
      rw [List.append_assoc,List.cons_append,expect_append hw (by decide),if_neg (by decide)]
  | member hw hk hw' ht hw'' ht' =>
      rw [List.append_assoc,List.cons_append,expect_append hw (by decide),if_neg (by decide)]

theorem parseItems_lastItem {v : Value} {t w : Bytes} (ht : ReadsBack (.value v) t) (hw : Blanks w) :
    ReadsBack (.items [v]) (t++(w++[93])) := by
  intro fuel n items rest hfuel hn
  cases n with
  | zero => exact absurd hn (Nat.not_lt_zero _)
  | succ n =>
      rw [List.append_assoc] at hfuel
      rw [List.append_assoc,parseItems,ht fuel .null _ hfuel]
      · rw [bind_ok,List.append_assoc]
        dsimp only
        rw [List.cons_append,expect_append hw (by decide),if_neg (by decide),
          expect_append hw (by decide),if_pos rfl]
        rfl
      · rw [List.append_assoc]
        exact bounded_token hw (by decide) v _

theorem parseItems_item {v : Value} {t w : Bytes} {vs : List Value} {t' : Bytes}
    (ht : ReadsBack (.value v) t) (hw : Blanks w) (ht' : ReadsBack (.items vs) t') :
    ReadsBack (.items (v::vs)) (t++(w++(44::t'))) := by
  intro fuel n items rest hfuel hn
  cases n with
  | zero => exact absurd hn (Nat.not_lt_zero _)
  | succ n =>
      have hshort : (t'++rest).length < fuel ∧ (t'++rest).length < n := by
        simp only [List.length_append,List.length_cons] at hfuel hn ⊢
        omega
      rw [List.append_assoc] at hfuel
      rw [List.append_assoc,parseItems,ht fuel .null _ hfuel]
      · rw [bind_ok,List.append_assoc]
        dsimp only
        rw [List.cons_append,expect_append hw (by decide),if_pos rfl]
        dsimp only
        rw [ht' fuel n _ _ hshort.1 hshort.2,List.append_assoc]
        rfl
      · rw [List.append_assoc]
        exact bounded_token hw (by decide) v _

theorem parseMembers_key {p : Value → Bytes → Exec (Reply Value)} {w k key w' u x : Bytes} {v : Value}
    (hw : Blanks w) (hk : Chars k key) (hw' : Blanks w') (n : ℕ) (fields : List (Bytes × Value))
    (hp : ∀ old, p old u = .ok (.success v x)) :
    parseMembers p (n+1) fields (w++(34::(k++(34::(w'++(58::u)))))) =
      match expect 44 x with
      | some s => parseMembers p n ((key,v)::fields) s
      | none =>
          match expect 125 x with
          | some s => .ok (.success ((key,v)::fields) s)
          | none => .ok (.failure ((key,v)::fields)) := by
  rw [parseMembers,expect_append hw (by decide),if_pos rfl,Option.map_some,
    parseString_chars hk le_rfl]
  dsimp only
  rw [expect_append hw' (by decide),if_pos rfl]
  dsimp only
  rw [hp,bind_ok,List.nil_append]
  rfl

theorem parseMembers_lastMember {w key k w' : Bytes} {v : Value} {t w'' : Bytes} (hw : Blanks w)
    (hk : Chars k key) (hw' : Blanks w') (ht : ReadsBack (.value v) t) (hw'' : Blanks w'') :
    ReadsBack (.members [(key,v)]) (w++(34::(k++(34::(w'++(58::(t++(w''++[125])))))))) := by
  intro fuel n fields rest hfuel hn
  cases n with
  | zero => exact absurd hn (Nat.not_lt_zero _)
  | succ n =>
      have hvalue : ∀ old, parseValue fuel old (t++(w''++(125::rest))) =
          .ok (.success v (w''++(125::rest))) := by
        intro old
        refine ht fuel old _ ?_ (bounded_token hw'' (by decide) v _)
        simp only [List.length_append,List.length_cons,List.length_nil] at hfuel ⊢
        omega
      simp only [List.append_assoc,List.cons_append,List.nil_append]
      rw [parseMembers_key hw hk hw' n fields hvalue,expect_append hw'' (by decide),
        if_neg (by decide),expect_append hw'' (by decide),if_pos rfl]
      rfl

theorem parseMembers_member {w key k w' : Bytes} {v : Value} {t w'' : Bytes}
    {ms : List (Bytes × Value)} {t' : Bytes} (hw : Blanks w) (hk : Chars k key) (hw' : Blanks w')
    (ht : ReadsBack (.value v) t) (hw'' : Blanks w'') (ht' : ReadsBack (.members ms) t') :
    ReadsBack (.members ((key,v)::ms)) (w++(34::(k++(34::(w'++(58::(t++(w''++(44::t'))))))))) := by
  intro fuel n fields rest hfuel hn
  cases n with
  | zero => exact absurd hn (Nat.not_lt_zero _)
  | succ n =>
      have hvalue : ∀ old, parseValue fuel old (t++(w''++(44::(t'++rest)))) =
          .ok (.success v (w''++(44::(t'++rest)))) := by
        intro old
        refine ht fuel old _ ?_ (bounded_token hw'' (by decide) v _)
        simp only [List.length_append,List.length_cons] at hfuel ⊢
        omega
      have hshort : (t'++rest).length < fuel ∧ (t'++rest).length < n := by
        simp only [List.length_append,List.length_cons] at hfuel hn ⊢
        omega
      simp only [List.append_assoc,List.cons_append]
      rw [parseMembers_key hw hk hw' n fields hvalue,expect_append hw'' (by decide),if_pos rfl]
      dsimp only
      rw [ht' fuel n _ _ hshort.1 hshort.2,List.reverse_cons,List.append_assoc]
      rfl

/-- A value has a bound on the depth, and its first character decides how it goes on. -/
theorem readsBack_value {v : Value} {w u : Bytes} {c : UInt8} (hw : Blanks w) (hc : ¬Blank c)
    (h : ∀ fuel old rest, (u++rest).length < fuel → Bounded v rest →
      parseValue (fuel+1) old (c::(u++rest)) = .ok (.success v rest)) :
    ReadsBack (.value v) (w++(c::u)) := by
  intro fuel old rest hfuel hbounded
  rw [List.append_assoc,List.cons_append] at hfuel ⊢
  rw [List.length_append,List.length_cons] at hfuel
  obtain ⟨n,rfl⟩ : ∃ n, fuel = n+1 := ⟨fuel-1,by omega⟩
  have hskip : skipWs (c::(u++rest)) = c::(u++rest) := by
    rw [skipWs_cons,if_neg hc]
  rw [← h n old rest (by omega) hbounded,parseValue,parseValue,skipWs_append hw hc,hskip]

theorem skipWs_token {c : UInt8} (hc : ¬Blank c) (s : Bytes) : skipWs (c::s) = c::s := by
  rw [skipWs_cons,if_neg hc]

theorem readsBack_number {w : Bytes} {c : UInt8} {t : Bytes} {d : ℚ} (hw : Blanks w)
    (hc : 48 ≤ c ∧ c ≤ 57 ∨ c = 45) (ht : ∀ x ∈ c::t, numberChar x = true)
    (hd : strtod (c::t) = (.finite d,[])) : ReadsBack (.value (.number d)) (w++(c::t)) := by
  have hblank : ¬Blank c := by
    rintro (rfl | rfl | rfl | rfl) <;> revert hc <;> decide
  refine readsBack_value hw hblank fun fuel old rest _ hbounded => ?_
  have hne : c ≠ 110 ∧ c ≠ 102 ∧ c ≠ 116 ∧ c ≠ 34 ∧ c ≠ 91 ∧ c ≠ 123 := by
    refine ⟨?_,?_,?_,?_,?_,?_⟩ <;> rintro rfl <;> revert hc <;> decide
  have hsplit : (c::(t++rest)).takeWhile numberChar = c::t ∧
      (c::(t++rest)).dropWhile numberChar = rest := by
    rw [← List.cons_append,List.takeWhile_append_of_pos ht,List.dropWhile_append_of_pos ht]
    cases rest with
    | nil => exact ⟨List.append_nil _,rfl⟩
    | cons x rest =>
        have hx : ¬numberChar x = true := by
          rw [hbounded x rfl]
          exact Bool.false_ne_true
        rw [List.takeWhile_cons_of_neg hx,List.dropWhile_cons_of_neg hx,List.append_nil]
        exact ⟨rfl,rfl⟩
  rw [parseValue,skipWs_token hblank]
  dsimp only
  rw [if_neg hne.1,if_neg hne.2.1,if_neg hne.2.2.1,if_neg hne.2.2.2.1,if_neg hne.2.2.2.2.1,
    if_neg hne.2.2.2.2.2,if_pos hc,hsplit.1,hd,hsplit.2]
  rfl

theorem text_readsBack {node : Node} {t : Bytes} (h : Text node t) : ReadsBack node t := by
  induction h with
  | null hw =>
      refine readsBack_value hw (by decide) fun fuel old rest _ _ => ?_
      rw [parseValue,skipWs_token (by decide)]
      exact congrArg Except.ok (literal_eq_success.mpr ⟨rfl,rfl⟩)
  | false hw =>
      refine readsBack_value hw (by decide) fun fuel old rest _ _ => ?_
      rw [parseValue,skipWs_token (by decide)]
      exact congrArg Except.ok (literal_eq_success.mpr ⟨rfl,rfl⟩)
  | true hw =>
      refine readsBack_value hw (by decide) fun fuel old rest _ _ => ?_
      rw [parseValue,skipWs_token (by decide)]
      exact congrArg Except.ok (literal_eq_success.mpr ⟨rfl,rfl⟩)
  | number hw hc ht hd => exact readsBack_number hw hc ht hd
  | @string w t s hw ht =>
      refine readsBack_value hw (by decide) fun fuel old rest _ _ => ?_
      rw [parseValue,skipWs_token (by decide),List.append_assoc,List.cons_append,List.nil_append]
      dsimp only
      rw [if_neg (by decide),if_neg (by decide),if_neg (by decide),if_pos rfl,
        parseString_chars ht le_rfl]
      rfl
  | @emptyArray w w' hw hw' =>
      refine readsBack_value hw (by decide) fun fuel old rest _ _ => ?_
      rw [parseValue,skipWs_token (by decide),List.append_assoc,List.cons_append,List.nil_append]
      dsimp only
      rw [if_neg (by decide),if_neg (by decide),if_neg (by decide),if_neg (by decide),if_pos rfl,
        expect_append hw' (by decide),if_pos rfl]
      rfl
  | @array w t vs hw ht ih =>
      refine readsBack_value hw (by decide) fun fuel old rest hfuel _ => ?_
      rw [parseValue,skipWs_token (by decide)]
      dsimp only
      rw [if_neg (by decide),if_neg (by decide),if_neg (by decide),if_neg (by decide),if_pos rfl,
        items_start ht]
      dsimp only
      rw [ih fuel _ [] rest hfuel (Nat.lt_succ_self _)]
      rfl
  | @emptyObject w w' hw hw' =>
      refine readsBack_value hw (by decide) fun fuel old rest _ _ => ?_
      rw [parseValue,skipWs_token (by decide),List.append_assoc,List.cons_append,List.nil_append]
      dsimp only
      rw [if_neg (by decide),if_neg (by decide),if_neg (by decide),if_neg (by decide),
        if_neg (by decide),if_pos rfl,expect_append hw' (by decide),if_pos rfl]
      rfl
  | @object w t ms hw ht ih =>
      refine readsBack_value hw (by decide) fun fuel old rest hfuel _ => ?_
      rw [parseValue,skipWs_token (by decide)]
      dsimp only
      rw [if_neg (by decide),if_neg (by decide),if_neg (by decide),if_neg (by decide),
        if_neg (by decide),if_pos rfl,members_start ht]
      dsimp only
      rw [ih fuel _ [] rest hfuel (Nat.lt_succ_self _),List.append_nil]
      rfl
  | lastItem ht hw ih => exact parseItems_lastItem ih hw
  | item ht hw ht' ih ih' => exact parseItems_item ih hw ih'
  | lastMember hw hk hw' ht hw'' ih => exact parseMembers_lastMember hw hk hw' ih hw''
  | member hw hk hw' ht hw'' ht' ih ih' => exact parseMembers_member hw hk hw' ih hw'' ih'

theorem parse_text {v : Value} {t rest : Bytes} (ht : Text (.value v) t) (hbounded : Bounded v rest) :
    parse (t++rest) = .ok (.parsed v) := by
  rw [parse,text_readsBack ht _ _ _ (Nat.lt_succ_self _) hbounded]
  rfl

/-- Parsing succeeds with a value exactly if a text of the value is in front, up to
white space; a number must have been taken to its end. -/
theorem parse_iff_text (s : Bytes) (v : Value) :
    parse s = .ok (.parsed v) ↔ ∃ t rest, Text (.value v) t ∧ s = t++rest ∧ Bounded v rest := by
  constructor
  · intro h
    obtain ⟨r,hr,hparsed⟩ := bind_eq_ok h
    cases r with
    | failure v' => cases hparsed
    | success v' rest =>
        cases hparsed
        obtain ⟨t,ht,hs,hbounded⟩ := parseValue_sound _ _ _ _ _ hr
        exact ⟨t,rest,ht,hs,hbounded⟩
  · rintro ⟨t,rest,ht,rfl,hbounded⟩
    exact parse_text ht hbounded

end TownCrier.PicoJson
