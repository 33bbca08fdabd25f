import TownCrier.YahooYql
import TownCrier.HttpMessage
import Mathlib.Data.List.TakeWhile

/-!
# The URL of a query, and back

`url_decode` of `scraper_utils.cpp`. It takes back what `url_encode` does, and the
parameters of a YQL query are found again in the URL that `buildQuery` makes of them.
-/
namespace TownCrier.YahooYql
open BigEndian Cpp Https HttpMessage

def isDigit (c : UInt8) : Bool := 48 ≤ c ∧ c ≤ 57

def toLower (c : UInt8) : UInt8 := if 65 ≤ c ∧ c ≤ 90 then c+32 else c

/-- What is no hexadecimal digit gets a value, too. -/
def fromHex (ch : UInt8) : UInt8 := if isDigit ch then ch-48 else toLower ch-97+10

/-- What the loop writes into its buffer. Of an escape that the end cuts only the percent sign
is dropped. -/
def urlDecodeLoop : Bytes → Bytes
  | [] => []
  | c::s =>
      if c = 37 then
        match s with
        | a::b::s => (fromHex a <<< 4 ||| fromHex b)::urlDecodeLoop s
        | s => urlDecodeLoop s
      else if c = 43 then 32::urlDecodeLoop s
      else c::urlDecodeLoop s

def urlDecode (str : Bytes) : Bytes := cstr (urlDecodeLoop (cstr str))

theorem forall_byte {p : UInt8 → Prop} (h : ∀ n : Fin 256, p (UInt8.ofNat n)) (c : UInt8) : p c := by
  have hc := h ⟨c.toNat,c.toNat_lt⟩
  rwa [UInt8.ofNat_toNat] at hc

/-- The bytes that stand in a URL for themselves. -/
def Literal (c : UInt8) : Prop := isAlnum c ∨ c = 45 ∨ c = 95 ∨ c = 46 ∨ c = 126 ∨ c = 42

instance (c : UInt8) : Decidable (Literal c) := inferInstanceAs (Decidable (_ ∨ _))

def urlEncodeByte (c : UInt8) : Bytes :=
  if Literal c then [c] else if c = 32 then ascii "%20" else [37,toHex (c >>> 4),toHex (c &&& 15)]

theorem urlEncode_cons (c : UInt8) (s : Bytes) :
    urlEncode (c::s) = urlEncodeByte c++urlEncode s := rfl

theorem literal_clean (c : UInt8) (h : Literal c) : c ≠ 37 ∧ c ≠ 43 := by
  unfold Literal isAlnum at h
  grind

theorem low_half_lt (c : UInt8) : (c &&& 15).toNat < 16 := by
  rw [UInt8.toNat_and]
  exact Nat.and_lt_two_pow (n := 4) _ (by decide)

/-- The digit that is written for a half of a byte stands for this half. -/
theorem fromHex_toHex (c : UInt8) : fromHex (toHex c) = c &&& 15 := by
  have hall : ∀ k < 16,
      fromHex ((ascii "0123456789ABCDEF").getD k 0) = UInt8.ofNat k := by decide
  rw [toHex,hall _ (low_half_lt c),UInt8.ofNat_toNat]

theorem toHex_isAlnum (c : UInt8) : isAlnum (toHex c) := by
  have hall : ∀ k < 16, isAlnum ((ascii "0123456789ABCDEF").getD k 0) := by decide
  exact hall _ (low_half_lt c)

set_option maxRecDepth 4000 in
theorem join_halves : ∀ c : UInt8, (c >>> 4 &&& 15) <<< 4 ||| c &&& 15 &&& 15 = c :=
  forall_byte (by decide)

theorem hex_back (c : UInt8) :
    fromHex (toHex (c >>> 4)) <<< 4 ||| fromHex (toHex (c &&& 15)) = c := by
  rw [fromHex_toHex,fromHex_toHex,join_halves]

theorem urlEncodeByte_decoded (c : UInt8) (s : Bytes) :
    urlDecodeLoop (urlEncodeByte c++s) = c::urlDecodeLoop s := by
  rw [urlEncodeByte]
  split_ifs with hliteral hspace
  · have hc := literal_clean c hliteral
    rw [List.singleton_append,urlDecodeLoop.eq_def]
    simp [hc]
  · rw [hspace]
    rfl
  · have hback := hex_back c
    rw [List.cons_append,urlDecodeLoop.eq_def]
    simp [hback]

theorem urlDecodeLoop_encode (s : Bytes) : urlDecodeLoop (urlEncode s) = s := by
  induction s with
  | nil => rfl
  | cons c s ih => rw [urlEncode_cons,urlEncodeByte_decoded,ih]

theorem urlEncodeByte_clean (c : UInt8) : ∀ d ∈ urlEncodeByte c, Literal d ∨ d = 37 := by
  have hdigit (n : UInt8) : Literal (toHex n) := .inl (toHex_isAlnum n)
  have hspace : ascii "%20" = [37,toHex 2,toHex 0] := rfl
  rw [urlEncodeByte,hspace]
  split_ifs with hliteral
  · simp [hliteral]
  · simp [hdigit]
  · simp [hdigit]

/-- What an encoded text consists of. -/
theorem urlEncode_clean {s : Bytes} : ∀ d ∈ urlEncode s, Literal d ∨ d = 37 := by
  intro d hd
  induction s with
  | nil => cases hd
  | cons c s ih =>
      rw [urlEncode_cons,List.mem_append] at hd
      cases hd with
      | inl hd => exact urlEncodeByte_clean c d hd
      | inr hd => exact ih hd

theorem cstr_of_notMem {s : Bytes} (h : 0 ∉ s) : cstr s = s := by
  rw [cstr,List.takeWhile_eq_self_iff]
  intro c hc
  simp only [ne_eq,decide_eq_true_eq]
  rintro rfl
  exact h hc

theorem urlDecode_encode {s : Bytes} (h : 0 ∉ s) : urlDecode (urlEncode s) = s := by
  have hcode : 0 ∉ urlEncode s := by
    intro hmem
    exact absurd (urlEncode_clean 0 hmem) (by decide)
  rw [urlDecode,cstr_of_notMem hcode,urlDecodeLoop_encode,cstr_of_notMem h]

/-- The buffer of `url_encode` has three bytes for each of the text and one more. -/
theorem urlEncode_fits (s : Bytes) : (urlEncode s).length+1 ≤ s.length*3+1 := by
  induction s with
  | nil => exact Nat.le_refl _
  | cons c s ih =>
      have hbyte : (urlEncodeByte c).length ≤ 3 := by
        rw [urlEncodeByte]
        split_ifs
        all_goals simp [ascii]
      rw [urlEncode_cons,List.length_append,List.length_cons]
      omega

theorem urlDecodeLoop_fits (s : Bytes) : (urlDecodeLoop s).length+1 ≤ s.length+1 := by
  fun_induction urlDecodeLoop s with
  | case1 => exact Nat.le_refl _
  | case2 => grind
  | case3 => grind
  | case4 => grind
  | case5 => grind

def Format.text : Format → Bytes
  | .json => ascii "json"
  | .xml => ascii "xml"

/-- The parameters of a query, in the order of their names. -/
def parameters (q : Bytes) (format : Format) (env : Bytes) : List (Bytes × Bytes) :=
  (ascii "diagnostics",ascii "false")::(if env = [] then [] else [(ascii "env",env)])++
    [(ascii "format",format.text),(ascii "q",q)]

def encodeParam (p : Bytes × Bytes) : Bytes × Bytes := (p.1,urlEncode p.2)

def decodeParam (p : Bytes × Bytes) : Bytes × Bytes := (p.1,urlDecode p.2)

/-- No space, no control byte, no quote and no number sign. -/
def Visible (c : UInt8) : Prop := 33 ≤ c ∧ c ≤ 126 ∧ c ≠ 34 ∧ c ≠ 35 ∧ c ≠ 39

instance (c : UInt8) : Decidable (Visible c) := inferInstanceAs (Decidable (_ ∧ _))

theorem literal_visible (c : UInt8) (h : Literal c ∨ c = 37) : Visible c ∧ c ≠ 38 ∧ c ≠ 61 := by
  unfold Literal isAlnum at h
  simp only [decide_eq_true_eq] at h
  unfold Visible
  rcases h with (h | h) | rfl
  · grind
  · rcases h with rfl | rfl | rfl | rfl | rfl <;> decide
  · decide

theorem mem_parameters {q env : Bytes} {format : Format} (hq : 0 ∉ q) (henv : 0 ∉ env) :
    ∀ p ∈ parameters q format env, 0 ∉ p.2 ∧ ∀ c ∈ p.1, Literal c := by
  have hliteral {key : Bytes} (h : key.all fun c => decide (Literal c)) : ∀ c ∈ key, Literal c :=
    fun c hc => of_decide_eq_true (List.all_eq_true.mp h c hc)
  have henvKey : (ascii "env").all fun c => decide (Literal c) := by decide
  have hformatKey : (ascii "format").all fun c => decide (Literal c) := by decide
  have hqKey : (ascii "q").all fun c => decide (Literal c) := by decide
  have htexts : 0 ∉ ascii "false" ∧ 0 ∉ format.text := by
    cases format with
    | json => decide
    | xml => decide
  intro p hp
  rw [parameters,List.cons_append,List.mem_cons,List.mem_append] at hp
  rcases hp with rfl | hp | hp
  · exact ⟨htexts.1,hliteral (by decide)⟩
  · split_ifs at hp with h
    · cases hp
    · rw [List.mem_singleton.mp hp]
      exact ⟨henv,hliteral henvKey⟩
  · rw [List.mem_pair] at hp
    cases hp with
    | inl hp => rw [hp]; exact ⟨htexts.2,hliteral hformatKey⟩
    | inr hp => rw [hp]; exact ⟨hq,hliteral hqKey⟩

theorem queryUrl_eq {q env : Bytes} (hq : 0 ∉ q) (henv : 0 ∉ env) (format : Format) :
    queryUrl q format env =
      ascii "/v1/public/yql"++63::printQuery ((parameters q format env).map encodeParam) := by
  have hfalse : urlEncode (ascii "false") = ascii "false" := by decide
  have hstart : ascii "/v1/public/yql?diagnostics=false" =
      ascii "/v1/public/yql"++63::(ascii "diagnostics"++61::ascii "false") := by decide
  have hkeys : ascii "&env=" = 38::(ascii "env"++[61]) ∧
      ascii "&format=" = 38::(ascii "format"++[61]) ∧ ascii "&q=" = 38::(ascii "q"++[61]) := by decide
  have hformat : urlEncode format.text = format.text := by
    cases format with
    | json => decide
    | xml => decide
  have htext : queryUrl q format env = ascii "/v1/public/yql?diagnostics=false"++
      (if env = [] then [] else ascii "&env="++urlEncode (cstr env))++ascii "&format="++
      format.text++ascii "&q="++urlEncode (cstr q) := by
    cases format with
    | json => rfl
    | xml => rfl
  rw [htext,cstr_of_notMem hq,cstr_of_notMem henv,hstart,hkeys.1,hkeys.2.1,hkeys.2.2]
  by_cases h : env = []
  · simp [h,parameters,printQuery,printParam,encodeParam,hfalse,hformat]
  · simp [h,parameters,printQuery,printParam,encodeParam,hfalse,hformat]

/-- The separators of a query are counted by its parameters. -/
theorem count_printQuery {params : List (Bytes × Bytes)} (hne : params ≠ [])
    (h : ∀ p ∈ params, ∀ c ∈ p.1++p.2, c ≠ 38 ∧ c ≠ 61) :
    (printQuery params).count 38+1 = params.length ∧
      (printQuery params).count 61 = params.length := by
  have hparam (p : Bytes × Bytes) (hp : ∀ c ∈ p.1++p.2, c ≠ 38 ∧ c ≠ 61) :
      (printParam p).count 38 = 0 ∧ (printParam p).count 61 = 1 := by
    have hamp (l : Bytes) (hl : ∀ c ∈ l, c ∈ p.1++p.2) : l.count 38 = 0 ∧ l.count 61 = 0 := by
      constructor
      · exact List.count_eq_zero.mpr fun hc => (hp 38 (hl 38 hc)).1 rfl
      · exact List.count_eq_zero.mpr fun hc => (hp 61 (hl 61 hc)).2 rfl
    have hkey := hamp p.1 fun c hc => List.mem_append_left _ hc
    have hvalue := hamp p.2 fun c hc => List.mem_append_right _ hc
    simp [printParam,List.count_append,hkey,hvalue]
  induction params with
  | nil => exact absurd rfl hne
  | cons p params ih =>
      rw [List.forall_mem_cons] at h
      have hp := hparam p h.1
      cases params with
      | nil => simpa [printQuery] using hp
      | cons p' params =>
          have hrest := ih (List.cons_ne_nil _ _) h.2
          have hcons : printQuery (p::p'::params) = printParam p++38::printQuery (p'::params) := by
            simp [printQuery,List.intercalate_cons_cons]
          rw [hcons,List.count_append,List.count_append,List.count_cons,List.count_cons]
          simp only [List.length_cons] at hrest ⊢
          simp
          omega

theorem encoded_free {q env : Bytes} {format : Format} (hq : 0 ∉ q) (henv : 0 ∉ env) :
    ∀ p ∈ (parameters q format env).map encodeParam, ∀ c ∈ p.1++p.2,
      Visible c ∧ c ≠ 38 ∧ c ≠ 61 := by
  rw [List.forall_mem_map]
  intro p hp c hc
  rw [List.mem_append] at hc
  cases hc with
  | inl hc => exact literal_visible c (.inl ((mem_parameters hq henv p hp).2 c hc))
  | inr hc => exact literal_visible c (urlEncode_clean c hc)

theorem mem_printQuery {params : List (Bytes × Bytes)} :
    ∀ c ∈ printQuery params, c = 38 ∨ c = 61 ∨ ∃ p ∈ params, c ∈ p.1++p.2 := by
  intro c hc
  by_cases h38 : c = 38
  · exact .inl h38
  by_cases h61 : c = 61
  · exact .inr (.inl h61)
  by_contra hnone
  push Not at hnone
  refine absurd hc ((not_mem_printQuery h38 h61).mpr ?_)
  intro p hp
  have := hnone.2.2 p hp
  rwa [List.mem_append,not_or] at this

theorem parameters_found {q env : Bytes} {format : Format} (hq : 0 ∉ q) (henv : 0 ∉ env) :
    parseQuery (printQuery ((parameters q format env).map encodeParam)) =
      some ((parameters q format env).map encodeParam) := by
  rw [parseQuery_eq_some]
  refine ⟨by simp [parameters],rfl,?_⟩
  intro p hp
  have hfree := encoded_free hq henv p hp
  simp only [free_cons,free_nil,and_true]
  refine ⟨⟨fun hc => ?_,fun hc => ?_⟩,fun hc => ?_⟩
  · exact (hfree 38 (List.mem_append_left _ hc)).2.1 rfl
  · exact (hfree 61 (List.mem_append_left _ hc)).2.2 rfl
  · exact (hfree 38 (List.mem_append_right _ hc)).2.1 rfl

theorem parameters_decoded {q env : Bytes} {format : Format} (hq : 0 ∉ q) (henv : 0 ∉ env) :
    ((parameters q format env).map encodeParam).map decodeParam = parameters q format env := by
  have hback : ∀ p ∈ parameters q format env, (decodeParam ∘ encodeParam) p = id p :=
    fun p hp => Prod.ext rfl (urlDecode_encode (mem_parameters hq henv p hp).1)
  rw [List.map_map,List.map_congr_left hback,List.map_id]

/-- The parameters of a query come back from its URL, in which nothing of their values can be
taken for a part of the URL. -/
theorem queries_come_back :
    (∀ s : Bytes, 0 ∉ s → urlDecode (urlEncode s) = s ∧
      (urlEncode s).length+1 ≤ s.length*3+1 ∧ (urlDecodeLoop s).length+1 ≤ s.length+1) ∧
    ∀ (q env : Bytes) (format : Format), q ≠ [] → 0 ∉ q → 0 ∉ env →
      ∃ url path query params, buildQuery q format env = .ok url ∧
        breakAt 63 url = some (path,query) ∧ parseQuery query = some params ∧
        params.map decodeParam = parameters q format env ∧
        (∀ c ∈ url, Visible c) ∧
        url.count 38+1 = params.length ∧ url.count 61 = params.length := by
  constructor
  · exact fun s hs => ⟨urlDecode_encode hs,urlEncode_fits s,urlDecodeLoop_fits s⟩
  · intro q env format hne hq henv
    have hpath : 63 ∉ ascii "/v1/public/yql" ∧
        ((ascii "/v1/public/yql").all fun c => decide (Visible c)) ∧
        (ascii "/v1/public/yql").count 38 = 0 ∧ (ascii "/v1/public/yql").count 61 = 0 := by decide
    have hfree : ∀ p ∈ (parameters q format env).map encodeParam, ∀ c ∈ p.1++p.2,
        Visible c ∧ c ≠ 38 ∧ c ≠ 61 := encoded_free hq henv
    have hsome : (parameters q format env).map encodeParam ≠ [] := by simp [parameters]
    have hcount := count_printQuery hsome fun p hp c hc => (hfree p hp c hc).2
    refine ⟨queryUrl q format env,ascii "/v1/public/yql",_,_,if_neg hne,?_,
      parameters_found hq henv,parameters_decoded hq henv,?_⟩
    · rw [queryUrl_eq hq henv]
      exact breakAt_append hpath.1 _
    rw [queryUrl_eq hq henv]
    refine ⟨fun c hc => ?_,?_⟩
    · rw [List.mem_append,List.mem_cons] at hc
      rcases hc with hc | rfl | hc
      · exact of_decide_eq_true (List.all_eq_true.mp hpath.2.1 c hc)
      · decide
      · rcases mem_printQuery c hc with rfl | rfl | ⟨p,hp,hc⟩
        · decide
        · decide
        · exact (hfree p hp c hc).1
    · rw [List.count_append,List.count_append,hpath.2.2.1,hpath.2.2.2]
      simpa using hcount

theorem query_comes_back :
    urlDecode (urlEncode (ascii "a b&c=\"d\"%")) = ascii "a b&c=\"d\"%" ∧
    ∃ url path query params,
      buildQuery (ascii "a b&c=\"d\"%") .json tables = .ok url ∧
        breakAt 63 url = some (path,query) ∧ parseQuery query = some params ∧
        params.map decodeParam = parameters (ascii "a b&c=\"d\"%") .json tables ∧
        (∀ c ∈ url, Visible c) ∧
        url.count 38+1 = params.length ∧ url.count 61 = params.length :=
  ⟨(queries_come_back.1 _ (by decide)).1,
    queries_come_back.2 _ _ _ (by decide) (by decide) (by decide)⟩

end TownCrier.YahooYql
