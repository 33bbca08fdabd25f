import TownCrier.HttpMessage
import TownCrier.WebScrapers

/-!
# The price in a broken document

The fallback of the coin scraper for a document that is not JSON: it looks for the
field with the price and for a quote after it, without regard to the end of the text.
-/
namespace TownCrier.Numerals
open BigEndian Cpp

/-! ## Numbers in front of a byte that belongs to none -/

section
variable {c : UInt8} {base : ℕ}

theorem digits_stop (h : digitValue base c = none) (s rest : Bytes) :
    digits base (s++c::rest) = ((digits base s).1,(digits base s).2++c::rest) := by
  induction s with
  | nil => simp [digits,h]
  | cons d s ih =>
      rw [List.cons_append,digits,digits]
      cases digitValue base d with
      | none => rfl
      | some n => rw [ih]

theorem sign_none (hplus : c ≠ 43) (hminus : c ≠ 45) (s : Bytes) : sign (c::s) = (false,c::s) := by
  simp [sign,hplus,hminus]

theorem sign_stop (hplus : c ≠ 43) (hminus : c ≠ 45) (s rest : Bytes) :
    sign (s++c::rest) = ((sign s).1,(sign s).2++c::rest) := by
  cases s with
  | nil => exact sign_none hplus hminus rest
  | cons d s =>
      by_cases h43 : d = 43
      · rw [h43]
        rfl
      by_cases h45 : d = 45
      · rw [h45]
        rfl
      rw [List.cons_append,sign_none h43 h45,sign_none h43 h45]
      rfl

/-- The digits after a point, if there is one. -/
def places (base : ℕ) : Bytes → List ℕ × Bytes
  | 46::cs => digits base cs
  | s => ([],s)

theorem mantissa_eq (s : Bytes) : mantissa base s =
    if (digits base s).1++(places base (digits base s).2).1 = [] then none
    else some (number base ((digits base s).1++(places base (digits base s).2).1),
      (places base (digits base s).2).1.length,(places base (digits base s).2).2) := by
  rw [mantissa]
  rcases digits base s with ⟨whole,rest⟩
  dsimp only
  cases rest with
  | nil => rfl
  | cons c cs =>
      by_cases h46 : c = 46
      · rw [h46]
        rfl
      · simp [places,h46]

theorem places_none (hpoint : c ≠ 46) (s : Bytes) : places base (c::s) = ([],c::s) := by
  simp [places,hpoint]

theorem places_stop (h : digitValue base c = none) (hpoint : c ≠ 46) (s rest : Bytes) :
    places base (s++c::rest) = ((places base s).1,(places base s).2++c::rest) := by
  cases s with
  | nil => exact places_none hpoint rest
  | cons d s =>
      by_cases h46 : d = 46
      · rw [h46]
        exact digits_stop h s rest
      · rw [List.cons_append,places_none h46,places_none h46]
        rfl

theorem mantissa_stop (h : digitValue base c = none) (hpoint : c ≠ 46) (s rest : Bytes) :
    mantissa base (s++c::rest) =
      (mantissa base s).map fun p => (p.1,p.2.1,p.2.2++c::rest) := by
  rw [mantissa_eq,mantissa_eq,digits_stop h,places_stop h hpoint]
  split_ifs
  · rfl
  · rfl

theorem exponent_stop {marker : UInt8} (h : digitValue 10 c = none) (hplus : c ≠ 43)
    (hminus : c ≠ 45) (hmarker : lower c ≠ marker) (s rest : Bytes) :
    exponent marker (s++c::rest) = ((exponent marker s).1,(exponent marker s).2++c::rest) := by
  cases s with
  | nil =>
      rw [List.nil_append,exponent]
      exact if_pos (.inl hmarker)
  | cons d s =>
      rw [List.cons_append,exponent,exponent]
      simp only [sign_stop hplus hminus,digits_stop h]
      split_ifs
      · rfl
      · rfl
      · rfl

/-- A word is found in front of a byte it does not have, or not at all. -/
theorem isPrefixOf_stop {w : Bytes} (hw : c ∉ w) (s rest : Bytes) :
    w.isPrefixOf (s++c::rest) = w.isPrefixOf s := by
  induction w generalizing s with
  | nil => rfl
  | cons d w ih =>
      rw [List.mem_cons,not_or] at hw
      cases s with
      | nil => simp [List.isPrefixOf,Ne.symm hw.1]
      | cons x s =>
          rw [List.cons_append,List.isPrefixOf,List.isPrefixOf,ih hw.2]

end

/-! ## Up to a quote -/

theorem hexadecimal_quote (negative : Bool) (s rest : Bytes) :
    hexadecimal negative (s++34::rest) =
      (hexadecimal negative s).map fun p => (p.1,p.2++34::rest) := by
  rw [hexadecimal,hexadecimal,mantissa_stop (by decide) (by decide)]
  cases mantissa 16 s with
  | none => rfl
  | some p =>
      have hexponent : exponent 112 (p.2.2++34::rest) =
          ((exponent 112 p.2.2).1,(exponent 112 p.2.2).2++34::rest) :=
        exponent_stop (by decide) (by decide) (by decide) (by decide) p.2.2 rest
      simp only [Option.map_some,Option.bind_eq_bind,Option.bind_some,hexponent]
      rfl

theorem decimalNumber_quote (negative : Bool) (s rest : Bytes) :
    decimalNumber negative (s++34::rest) =
      (decimalNumber negative s).map fun p => (p.1,p.2++34::rest) := by
  rw [decimalNumber,decimalNumber,mantissa_stop (by decide) (by decide)]
  cases mantissa 10 s with
  | none => rfl
  | some p =>
      have hexponent : exponent 101 (p.2.2++34::rest) =
          ((exponent 101 p.2.2).1,(exponent 101 p.2.2).2++34::rest) :=
        exponent_stop (by decide) (by decide) (by decide) (by decide) p.2.2 rest
      simp only [Option.map_some,Option.bind_eq_bind,Option.bind_some,hexponent]
      rfl

theorem drop_quote {w t : Bytes} (h : w.isPrefixOf (t.map lower) = true) (rest : Bytes) :
    (t++34::rest).drop w.length = t.drop w.length++34::rest := by
  have hlen := (List.isPrefixOf_iff_prefix.mp h).length_le
  rw [List.length_map] at hlen
  exact List.drop_append_of_le_length hlen

theorem strtod_quote (s rest : Bytes) :
    strtod (s++34::rest) = ((strtod s).1,(strtod s).2++34::rest) := by
  have hdrop : (s++34::rest).dropWhile isSpace = s.dropWhile isSpace++34::rest := by
    rw [List.dropWhile_append]
    split_ifs with h
    · rw [List.isEmpty_iff.mp h]
      rfl
    · rfl
  have hsign : sign (s.dropWhile isSpace++34::rest) =
      ((sign (s.dropWhile isSpace)).1,(sign (s.dropWhile isSpace)).2++34::rest) :=
    sign_stop (by decide) (by decide) _ rest
  have hword (w : Bytes) (hw : 34 ∉ w) (t : Bytes) :
      w.isPrefixOf ((t++34::rest).map lower) = w.isPrefixOf (t.map lower) := by
    rw [List.map_append,List.map_cons]
    exact isPrefixOf_stop hw _ _
  simp only [strtod,hdrop,hsign,hword (ascii "infinity") (by decide),
    hword (ascii "inf") (by decide),hword (ascii "nan") (by decide),hword (ascii "0x") (by decide)]
  generalize (sign (s.dropWhile isSpace)).1 = negative
  generalize (sign (s.dropWhile isSpace)).2 = t
  split_ifs with hinfinity hinf hnan hhex
  · exact congrArg _ (drop_quote hinfinity rest)
  · exact congrArg _ (drop_quote hinf rest)
  · exact congrArg _ (drop_quote hnan rest)
  · have htwo : (t++34::rest).drop 2 = t.drop 2++34::rest := drop_quote hhex rest
    rw [htwo,hexadecimal_quote,decimalNumber_quote]
    cases hexadecimal negative (t.drop 2) with
    | some p => rfl
    | none =>
        cases decimalNumber negative t with
        | some p => rfl
        | none => rfl
  · rw [decimalNumber_quote]
    cases decimalNumber negative t with
    | some p => rfl
    | none => rfl

end TownCrier.Numerals

namespace TownCrier.CoinMarket
open BigEndian Cpp Numerals PicoJson

/-- How the fallback knows the field, up to the quote before the price. -/
def field : Bytes := ascii "price_usd\": \""

/-- The text is a number as a whole. -/
def Numeral (text : Bytes) : Prop := (strtod text).2 = []

/-- The text begins with no number, or with zero. -/
def Nought (text : Bytes) : Prop := (strtod text).1 = .finite 0

/-- The fallback ends, and a price is the number between the quotes of the first field. -/
def StaysInside (resp : Bytes) : Prop :=
  ∃ d, manualParseResponse resp = .ok d ∧ (d ≠ .finite 0 →
    ∃ text rest, find field resp = some (text++34::rest) ∧ 34 ∉ text ∧ Numeral text ∧
      (strtod text).1 = d)

theorem manual_parse_closed {resp text rest : Bytes}
    (h : find field resp = some (text++34::rest)) :
    manualParseResponse resp = .ok (strtod text).1 := by
  rw [manualParseResponse,show find (ascii "price_usd\": \"") resp = _ from h]
  dsimp only
  rw [if_pos (List.mem_append_right _ List.mem_cons_self),strtod_quote]
  rfl

theorem manual_parse_open {resp temp : Bytes} (h : find field resp = some temp)
    (hopen : 34 ∉ temp) : manualParseResponse resp = undefined := by
  rw [manualParseResponse,show find (ascii "price_usd\": \"") resp = _ from h]
  exact if_neg hopen

/-- A quote ends only one text. -/
theorem text_unique {text text' rest rest' : Bytes} (h : 34 ∉ text) (h' : 34 ∉ text')
    (heq : text++34::rest = text'++34::rest') : text = text' := by
  have hbreak := HttpMessage.breakAt_append h rest
  rw [heq,HttpMessage.breakAt_append h' rest'] at hbreak
  cases hbreak
  rfl

/-- The fallback keeps to the document exactly if the first field, where there is one, is
closed, and has no number in front of something else. -/
theorem manual_parse_iff (content : Bytes) :
    StaysInside (cstr content) ↔ ∀ temp, find field (cstr content) = some temp →
      ∃ text rest, temp = text++34::rest ∧ 34 ∉ text ∧ (Numeral text ∨ Nought text) := by
  constructor
  · intro ⟨d,hparse,hnumber⟩ temp hfind
    by_cases hclosed : 34 ∈ temp
    · obtain ⟨text,rest,rfl,hfree⟩ := List.eq_append_cons_of_mem hclosed
      refine ⟨text,rest,rfl,hfree,?_⟩
      have hvalue := (manual_parse_closed hfind).symm.trans hparse
      by_cases hd : d = .finite 0
      · rw [hd] at hvalue
        exact .inr (Except.ok.inj hvalue)
      · obtain ⟨text',rest',hfind',hfree',hnumeral,-⟩ := hnumber hd
        rw [hfind,Option.some.injEq] at hfind'
        rw [text_unique hfree hfree' hfind']
        exact .inl hnumeral
    · rw [manual_parse_open hfind hclosed] at hparse
      cases hparse
  · intro h
    cases hfind : find field (cstr content) with
    | none =>
        refine ⟨.finite 0,?_,fun hne => absurd rfl hne⟩
        rw [manualParseResponse,show find (ascii "price_usd\": \"") (cstr content) = _ from hfind]
        rfl
    | some temp =>
        obtain ⟨text,rest,rfl,hfree,hnumber⟩ := h temp hfind
        refine ⟨_,manual_parse_closed hfind,fun hne => ?_⟩
        cases hnumber with
        | inl hnumeral => exact ⟨text,rest,hfind,hfree,hnumeral,rfl⟩
        | inr hnought => exact absurd hnought hne

/-- A ticker of which only the first part has arrived. -/
def cutTicker : Bytes := ascii "[\x7b\"price_usd\": \"12"

theorem ticker_cut : (∃ v, parse cutTicker = .ok (.malformed v)) ∧
    manualParseResponse (cstr cutTicker) = undefined ∧ ¬StaysInside (cstr cutTicker) := by
  have hrun : manualParseResponse (cstr cutTicker) = undefined := by rfl
  refine ⟨⟨_,rfl⟩,hrun,?_⟩
  rintro ⟨d,hparse,-⟩
  rw [hrun] at hparse
  cases hparse

end TownCrier.CoinMarket
