import TownCrier.ByteFeed

/-!
# The header of a response

What the bytes of a header say: the characters of the status code, the fields, and
with them how the body is delimited. Numbers have no bounds here. Where it does not
get stuck, the parser takes from a header what it says.
-/
namespace TownCrier.HttpHead
open BigEndian Automaton TinyHttp

/-- The characters of the status code, and the fields, of which the last is open. -/
structure Head where
  status : Bytes
  fields : List (Bytes × Bytes)
  key : Bytes
  value : Bytes

def Head.empty : Head := ⟨[],[],[],[]⟩

def Head.take (h : Head) (c : UInt8) : HeaderStatus → Head
  | .codeCharacter => {h with status := h.status++[c]}
  | .keyCharacter => {h with key := h.key++[tolower c]}
  | .valueCharacter => {h with value := h.value++[c]}
  | .storeKeyvalue => {h with fields := h.fields++[(h.key,h.value)], key := [], value := []}
  | .done | .goOn | .versionCharacter | .statusCharacter => h

/-- The header at the start of a stream, and what comes after it. -/
def scan : ℕ → Head → Bytes → Option (Head × Bytes)
  | _, _, [] => none
  | state, h, c::s =>
      let (status,state) := parseHeaderChar state c
      if status = .done then (if state = 0 then some (h,s) else none)
      else scan state (h.take c status) s

def decimalValue (s : Bytes) : ℤ := s.foldl (fun n c => n*10+char c-48) 0

/-- The value of the last field with this key. -/
def Head.last (h : Head) (key : Bytes) : Option Bytes :=
  (h.fields.filter fun f => f.1 = key).getLast?.map Prod.snd

def Head.code (h : Head) : ℤ := decimalValue h.status
def Head.chunked (h : Head) : Bool := h.last TRANSFER_ENCODING = some CHUNKED
def Head.contentLength (h : Head) : ℤ := ((h.last CONTENT_LENGTH).map decimalValue).getD (-1)

inductive Framing where
  | chunked
  | length (n : ℕ)
  | untilEnd
  | invalid

def Head.framing (h : Head) : Framing :=
  if h.chunked then .chunked
  else if 0 ≤ h.contentLength then .length h.contentLength.toNat
  else if h.contentLength = -1 then .untilEnd
  else .invalid

section Head
variable {h : Head} {rt rt' : Roundtripper} {c : UInt8} {s : Bytes}

/-- What the parser knows of a header that is not at its end. -/
structure Reads (h : Head) (rt : Roundtripper) : Prop where
  state : rt.state = .header
  response : rt.response = ⟨[],0⟩
  code : rt.code = h.code
  range : -2^31 ≤ rt.code ∧ rt.code < 2^31
  contentlength : rt.contentlength = h.contentLength
  chunked : rt.chunked = h.chunked
  key : rt.key = h.key
  value : rt.value = h.value

theorem Reads.init : Reads .empty httpInit :=
  ⟨rfl,rfl,rfl,by decide,rfl,rfl,rfl,rfl⟩

theorem decimalValue_append (s : Bytes) (c : UInt8) :
    decimalValue (s++[c]) = decimalValue s*10+char c-48 := by
  rw [decimalValue,List.foldl_append]
  rfl

theorem pushDecimal_eq_some {n m : ℤ} (h : pushDecimal n c = some m) :
    m = n*10+char c-48 ∧ -2^31 ≤ m ∧ m < 2^31 := by
  obtain ⟨a,ha,h⟩ := Option.bind_eq_some_iff.mp h
  obtain ⟨b,hb,hm⟩ := Option.bind_eq_some_iff.mp h
  obtain ⟨rfl,hrange⟩ := int_eq_some.mp hm
  refine ⟨?_,hrange⟩
  rw [(int_eq_some.mp hb).1,(int_eq_some.mp ha).1]

theorem foldlM_pushDecimal {n m : ℤ} (h : s.foldlM pushDecimal n = some m) :
    m = s.foldl (fun n c => n*10+char c-48) n := by
  induction s generalizing n with
  | nil =>
      cases h
      rfl
  | cons c s ih =>
      rw [List.foldlM_cons] at h
      obtain ⟨k,hk,h⟩ := Option.bind_eq_some_iff.mp h
      rw [List.foldl_cons,← (pushDecimal_eq_some hk).1]
      exact ih h

theorem last_append (fields : List (Bytes × Bytes)) (f : Bytes × Bytes) (key : Bytes) :
    Head.last {h with fields := fields++[f]} key =
      if f.1 = key then some f.2 else Head.last {h with fields} key := by
  unfold Head.last
  rw [List.filter_append,List.filter_singleton]
  split_ifs with hkey <;> simp [hkey]

theorem transferEncoding_ne : TRANSFER_ENCODING ≠ CONTENT_LENGTH := by
  decide

/-- A field is stored. -/
theorem Reads.store (hreads : Reads h rt) (hstore : storeKeyvalue rt = some rt') :
    Reads (h.take c .storeKeyvalue) rt' := by
  obtain ⟨rt₁,hstored,rfl⟩ := Option.map_eq_some_iff.mp hstore
  have hlast : ∀ key, (h.take c .storeKeyvalue).last key =
      if rt.key = key then some rt.value else h.last key := by
    intro key
    rw [hreads.key,hreads.value]
    exact last_append _ _ key
  have hchunked : (h.take c .storeKeyvalue).chunked =
      if rt.key = TRANSFER_ENCODING then decide (rt.value = CHUNKED) else h.chunked := by
    unfold Head.chunked
    rw [hlast]
    split_ifs
    · simp only [Option.some_inj]
    · rfl
  have hlength : (h.take c .storeKeyvalue).contentLength =
      if rt.key = CONTENT_LENGTH then decimalValue rt.value else h.contentLength := by
    unfold Head.contentLength
    rw [hlast]
    split_ifs <;> rfl
  split_ifs at hstored with hte hcl
  · cases hstored
    rw [if_pos hte] at hchunked
    rw [if_neg fun hcl => transferEncoding_ne (hte.symm.trans hcl)] at hlength
    exact ⟨hreads.state,hreads.response,hreads.code,hreads.range,
      hreads.contentlength.trans hlength.symm,hchunked.symm,rfl,rfl⟩
  · obtain ⟨n,hn,rfl⟩ := Option.map_eq_some_iff.mp hstored
    rw [if_neg hte] at hchunked
    rw [if_pos hcl,decimalValue,← foldlM_pushDecimal hn] at hlength
    exact ⟨hreads.state,hreads.response,hreads.code,hreads.range,hlength.symm,
      hreads.chunked.trans hchunked.symm,rfl,rfl⟩
  · cases hstored
    rw [if_neg hte] at hchunked
    rw [if_neg hcl] at hlength
    exact ⟨hreads.state,hreads.response,hreads.code,hreads.range,
      hreads.contentlength.trans hlength.symm,hreads.chunked.trans hchunked.symm,rfl,rfl⟩

/-- One more character of a header. -/
theorem Reads.take (hreads : Reads h rt) {status : HeaderStatus} (hne : status ≠ .done)
    (hchar : onHeaderStatus rt c status = some rt') : Reads (h.take c status) rt' := by
  unfold onHeaderStatus at hchar
  cases status with
  | done => exact absurd rfl hne
  | goOn | versionCharacter | statusCharacter =>
      cases hchar
      exact hreads
  | codeCharacter =>
      obtain ⟨n,hn,rfl⟩ := Option.map_eq_some_iff.mp hchar
      obtain ⟨hcode,hrange⟩ := pushDecimal_eq_some hn
      refine {hreads with code := ?_, range := hrange}
      change n = decimalValue (h.status++[c])
      rw [decimalValue_append,hcode,hreads.code]
      rfl
  | keyCharacter =>
      obtain ⟨_,_,hchar⟩ := Option.bind_eq_some_iff.mp hchar
      obtain ⟨_,_,hchar⟩ := Option.bind_eq_some_iff.mp hchar
      cases hchar
      exact {hreads with key := congrArg (·++[tolower c]) hreads.key}
  | valueCharacter =>
      obtain ⟨_,_,hchar⟩ := Option.bind_eq_some_iff.mp hchar
      obtain ⟨_,_,hchar⟩ := Option.bind_eq_some_iff.mp hchar
      cases hchar
      exact {hreads with value := congrArg (·++[c]) hreads.value}
  | storeKeyvalue => exact hreads.store hchar

theorem Reads.atState (hreads : Reads h rt) (state : ℕ) :
    Reads h {rt with parsestate := state} := {hreads with}

/-- The parser in front of the body. -/
def AtBody (h : Head) (rt : Roundtripper) : Prop :=
  ∃ x, Reads h x ∧ x.parsestate = 0 ∧ rt = headerDone x

/-- What the parser expects, by the framing of the body. -/
inductive BodyStart (rt : Roundtripper) : Framing → Prop
  | chunked (hstate : rt.state = .chunkHeader) (hrow : rt.parsestate = 0) : BodyStart rt .chunked
  | empty (hstate : rt.state = .close) : BodyStart rt (.length 0)
  | length {n} (hstate : rt.state = .rawData) (hpos : 0 < rt.contentlength)
      (hlength : rt.contentlength.toNat = n) : BodyStart rt (.length n)
  | untilEnd (hstate : rt.state = .unknownData) (hlength : rt.contentlength = -1) :
      BodyStart rt .untilEnd
  | invalid (hstate : rt.state = .error) : BodyStart rt .invalid

theorem AtBody.start (hbody : AtBody h rt) : BodyStart rt h.framing := by
  obtain ⟨x,hreads,hzero,rfl⟩ := hbody
  unfold Head.framing headerDone responseCode
  dsimp only
  rw [if_neg (not_not.mpr hzero),← hreads.chunked,← hreads.contentlength]
  by_cases hchunked : x.chunked = true
  · rw [if_pos hchunked,if_pos hchunked]
    exact .chunked rfl hzero
  · rw [if_neg hchunked,if_neg hchunked]
    rcases lt_trichotomy x.contentlength 0 with hneg | hempty | hpos
    · rw [if_neg hneg.ne,if_neg hneg.not_gt,if_neg hneg.not_ge]
      by_cases hend : x.contentlength = -1
      · rw [if_pos hend,if_pos hend]
        exact .untilEnd rfl hend
      · rw [if_neg hend,if_neg hend]
        exact .invalid rfl
    · rw [if_pos hempty,hempty,if_pos le_rfl]
      exact .empty rfl
    · rw [if_neg hpos.ne',if_pos hpos,if_pos hpos.le]
      exact .length rfl hpos rfl

theorem AtBody.response (hbody : AtBody h rt) :
    rt.response = ⟨[],h.code⟩ ∧ -2^31 ≤ h.code ∧ h.code < 2^31 ∧ rt.state ≠ .header := by
  obtain ⟨x,hreads,hzero,rfl⟩ := hbody
  have hresponse : (headerDone x).response = ⟨x.response.body,x.code⟩ := by
    unfold headerDone responseCode
    dsimp only
    split_ifs <;> rfl
  have hstate : (headerDone x).state ≠ .header := by
    unfold headerDone responseCode
    dsimp only
    split_ifs <;> nofun
  rw [hresponse,hreads.response,← hreads.code]
  exact ⟨rfl,hreads.range.1,hreads.range.2,hstate⟩

theorem AtBody.sane (hbody : AtBody h rt) : Sane rt := by
  obtain ⟨x,-,-,rfl⟩ := hbody
  exact sane_headerDone x

/-- A stream that the parser reads either starts with a header and goes on with
what comes after it, or the parser does not get out of the header. -/
theorem feed_header (hreads : Reads h rt) (hfeed : parser.feed rt s = some rt') :
    match scan rt.parsestate h s with
    | none => rt'.state = .header ∨ rt'.state = .error
    | some (h',rest) => ∃ rt₁, AtBody h' rt₁ ∧ parser.feed rt₁ rest = some rt' := by
  induction s generalizing h rt with
  | nil =>
      cases hfeed
      exact .inl hreads.state
  | cons c s ih =>
      have hfinal : finished rt = false := by
        rw [finished,hreads.state]
        rfl
      obtain ⟨rt₁,hread,hrest⟩ := Machine.feed_cons_eq_some.mp hfeed
      rw [read_eq hfinal,readByte,hreads.state] at hread
      dsimp only at hread
      unfold headerChar at hread
      rw [scan]
      generalize parseHeaderChar rt.parsestate c = step at hread ⊢
      obtain ⟨status,state⟩ := step
      dsimp only at hread ⊢
      have hreads₁ := hreads.atState state
      by_cases hdone : status = .done
      · subst hdone
        cases hread
        rw [if_pos rfl]
        split_ifs with hzero
        · exact ⟨_,⟨_,hreads₁,hzero,rfl⟩,hrest⟩
        · refine .inr ?_
          have herror : (headerDone {rt with parsestate := state}).state = .error := by
            unfold headerDone responseCode
            dsimp only
            rw [if_pos hzero]
          rw [Machine.feed_final (finished_iff.mpr (.inl herror))] at hrest
          cases hrest
          exact herror
      · rw [if_neg hdone]
        have hnext := ih (hreads₁.take hdone hread) hrest
        rw [(onHeaderStatus_frame hdone hread).2] at hnext
        exact hnext

end Head
end TownCrier.HttpHead
