import TownCrier.CompleteResponse
import TownCrier.ResponseText

/-!
# Responses come back as they were written

A header as servers write it, and after it a body: in chunks, of the announced
length, or up to the end of the stream. Whatever such a response is cut into, and
whatever comes after it, `getResponse` returns its status code and its body. The
numbers have to be small enough for an `int`.
-/
namespace TownCrier.Https
open BigEndian Automaton TinyHttp HttpHead HttpChunks HttpMessage ResponseText

def IsDigit (c : UInt8) : Prop := 48 ≤ c ∧ c ≤ 57

instance (c : UInt8) : Decidable (IsDigit c) := inferInstanceAs (Decidable (_ ∧ _))

/-- Digits of a number that the parser can add up: it adds a digit before it takes
the code of the zero away. -/
structure Decimal (s : Bytes) : Prop where
  digits : ∀ c ∈ s, IsDigit c
  small : decimalValue s+48 < 2^31

/-- The numbers in a header are small. -/
structure Bounded (h : Head) : Prop where
  status : Decimal h.status
  lengths : ∀ f ∈ h.fields, f.1 = CONTENT_LENGTH → Decimal f.2

section Numbers
variable {c : UInt8} {n m : ℤ} {s : Bytes}

theorem char_digit (h : IsDigit c) : 48 ≤ char c ∧ char c ≤ 57 := by
  have hall : ∀ n : Fin 256, (48 ≤ UInt8.ofNat n ∧ UInt8.ofNat n ≤ 57) →
      48 ≤ char (UInt8.ofNat n) ∧ char (UInt8.ofNat n) ≤ 57 := by decide +kernel
  have hc := hall ⟨c.toNat,c.toNat_lt⟩
  rw [UInt8.ofNat_toNat] at hc
  exact hc h

theorem int_of_bounds (hlow : -2^31 ≤ n) (hhigh : n < 2^31) : int n = some n :=
  int_eq_some.mpr ⟨rfl,hlow,hhigh⟩

theorem pushDecimal_digit (hc : IsDigit c) (hn : 0 ≤ n) (hsmall : n*10+char c-48+48 < 2^31) :
    pushDecimal n c = some (n*10+char c-48) := by
  obtain ⟨hlow,hhigh⟩ := char_digit hc
  unfold pushDecimal
  simp only [Option.bind_eq_bind]
  rw [int_of_bounds (by omega) (by omega),Option.bind_some,int_of_bounds (by omega) (by omega),
    Option.bind_some,int_of_bounds (by omega) (by omega)]

/-- More digits make no number smaller. -/
theorem le_foldl_digits (hs : ∀ c ∈ s, IsDigit c) (hn : 0 ≤ n) :
    n ≤ s.foldl (fun n c => n*10+char c-48) n := by
  induction s generalizing n with
  | nil => exact le_rfl
  | cons c s ih =>
      rw [List.forall_mem_cons] at hs
      have hc := char_digit hs.1
      have hle : n ≤ n*10+char c-48 := by omega
      exact hle.trans (ih hs.2 (hn.trans hle))

theorem foldlM_digits (hs : ∀ c ∈ s, IsDigit c) (hn : 0 ≤ n)
    (hsmall : s.foldl (fun n c => n*10+char c-48) n+48 < 2^31) :
    ∃ m, s.foldlM pushDecimal n = some m := by
  induction s generalizing n with
  | nil => exact ⟨n,rfl⟩
  | cons c s ih =>
      rw [List.forall_mem_cons] at hs
      have hc := char_digit hs.1
      have hle := le_foldl_digits hs.2 (show 0 ≤ n*10+char c-48 by omega)
      rw [List.foldl_cons] at hsmall
      obtain ⟨m,hm⟩ := ih hs.2 (by omega) hsmall
      rw [List.foldlM_cons,pushDecimal_digit hs.1 hn (by omega)]
      exact ⟨m,hm⟩

/-- The digits read so far, and one more. -/
theorem Decimal.push {t : Bytes} (h : Decimal t) (hstart : s++[c] <+: t) :
    pushDecimal (decimalValue s) c = some (decimalValue s*10+char c-48) := by
  obtain ⟨u,rfl⟩ := hstart
  have hdigits := h.digits
  simp only [List.append_assoc,List.singleton_append,List.mem_append,List.mem_cons] at hdigits
  have hs : ∀ d ∈ s, IsDigit d := fun d hd => hdigits d (.inl hd)
  have hu : ∀ d ∈ u, IsDigit d := fun d hd => hdigits d (.inr (.inr hd))
  have hc := hdigits c (.inr (.inl rfl))
  have hbounds := char_digit hc
  have hpos : 0 ≤ decimalValue s := le_foldl_digits hs le_rfl
  have hsmall := h.small
  rw [decimalValue,List.foldl_append,← decimalValue,decimalValue_append] at hsmall
  have hle := le_foldl_digits hu (show 0 ≤ decimalValue s*10+char c-48 by omega)
  exact pushDecimal_digit hc hpos (by omega)

theorem growScratch_defined {size : ℤ} (hn : 0 ≤ n) (hsize : size ≤ 2^29) :
    ∃ m, growScratch n size = some m ∧ 0 ≤ m := by
  unfold growScratch
  by_cases hge : n ≥ size
  · exact ⟨n,if_pos hge,hn⟩
  · rw [if_neg hge,int_of_bounds (by omega) (by omega)]
    refine ⟨_,rfl,?_⟩
    generalize (n*3).tdiv 2 = half
    split_ifs <;> omega

end Numbers

section Header
variable {h h' : Head} {rt : Roundtripper} {s rest : Bytes} {c : UInt8} {status : HeaderStatus}

/-- A field that counts for the length is stored if its number is small. -/
theorem storeKeyvalue_defined (hvalue : rt.key = CONTENT_LENGTH → Decimal rt.value) :
    ∃ rt', storeKeyvalue rt = some rt' ∧ rt'.nscratch = rt.nscratch := by
  unfold storeKeyvalue
  dsimp only
  split_ifs with hte hcl
  · exact ⟨_,rfl,rfl⟩
  · obtain ⟨n,hn⟩ := foldlM_digits (hvalue hcl).digits le_rfl (hvalue hcl).small
    rw [hn]
    exact ⟨_,rfl,rfl⟩
  · exact ⟨_,rfl,rfl⟩

/-- A character of the header whose number, key and value stay small. -/
theorem onHeaderStatus_defined (hreads : Reads h rt) (hscratch : 0 ≤ rt.nscratch)
    (hne : status ≠ .done) (hlen : h.key.length+h.value.length < 2^29)
    (hcode : status = .codeCharacter → ∃ t, Decimal t ∧ h.status++[c] <+: t)
    (hvalue : status = .storeKeyvalue → h.key = CONTENT_LENGTH → Decimal h.value) :
    ∃ rt', onHeaderStatus rt c status = some rt' ∧ 0 ≤ rt'.nscratch := by
  have hkeyLen : rt.key.length = h.key.length := by rw [hreads.key]
  have hvalueLen : rt.value.length = h.value.length := by rw [hreads.value]
  unfold onHeaderStatus
  cases status with
  | done => exact absurd rfl hne
  | goOn | versionCharacter | statusCharacter => exact ⟨rt,rfl,hscratch⟩
  | codeCharacter =>
      obtain ⟨t,ht,hstart⟩ := hcode rfl
      have hpush := ht.push hstart
      rw [← Head.code,← hreads.code] at hpush
      rw [hpush]
      exact ⟨_,rfl,hscratch⟩
  | keyCharacter =>
      obtain ⟨m,hm,hpos⟩ := growScratch_defined hscratch (show (rt.key.length+1 : ℤ) ≤ 2^29 by omega)
      have hint : int (rt.key.length+1) = some _ := int_of_bounds (by omega) (by omega)
      rw [Option.bind_eq_bind,hint,Option.bind_some,hm]
      exact ⟨_,rfl,hpos⟩
  | valueCharacter =>
      obtain ⟨m,hm,hpos⟩ := growScratch_defined hscratch
        (show (rt.key.length+rt.value.length+1 : ℤ) ≤ 2^29 by omega)
      have hint : int (rt.key.length+rt.value.length+1) = some _ :=
        int_of_bounds (by omega) (by omega)
      rw [Option.bind_eq_bind,hint,Option.bind_some,hm]
      exact ⟨_,rfl,hpos⟩
  | storeKeyvalue =>
      rw [← hreads.key,← hreads.value] at hvalue
      obtain ⟨rt',hstore,heq⟩ := storeKeyvalue_defined (hvalue rfl)
      exact ⟨rt',hstore,heq ▸ hscratch⟩

theorem take_length (h : Head) (c : UInt8) (status : HeaderStatus) :
    (h.take c status).key.length+(h.take c status).value.length ≤
      h.key.length+h.value.length+1 := by
  cases status <;> simp [Head.take] <;> omega

theorem scan_length {q : ℕ} (hscan : scan q h s = some (h',rest)) : rest.length < s.length := by
  induction s generalizing q h with
  | nil => cases hscan
  | cons c s ih =>
      rw [scan] at hscan
      dsimp only at hscan
      split_ifs at hscan
      · cases hscan
        exact Nat.lt_succ_self _
      · exact (ih hscan).trans (Nat.lt_succ_self _)

/-- Where the table goes on, there is a row, and a field is stored in front of a line. -/
theorem parseHeaderChar_next {q : ℕ} (hq : q ≤ 10) (hne : (parseHeaderChar q c).1 ≠ .done) :
    (parseHeaderChar q c).2 ≤ 10 ∧
      ((parseHeaderChar q c).1 = .storeKeyvalue → (parseHeaderChar q c).2 ≤ 5) := by
  have hrows : ∀ (q : Fin 11) (k : Fin 7), (transition q k).1 ≠ .done → (transition q k).2 ≤ 10 ∧
      ((transition q k).1 = .storeKeyvalue → (transition q k).2 ≤ 5) := by decide
  exact hrows ⟨q,by omega⟩ ⟨headerCode c,headerCode_lt c⟩ hne

/-- Where a header of small numbers ends, the parser is at the body. -/
theorem reach_body (hreads : Reads h rt) (hscratch : 0 ≤ rt.nscratch) (hrow : rt.parsestate ≤ 10)
    (hscan : scan rt.parsestate h s = some (h',rest)) (hb : Bounded h')
    (hlen : h.key.length+h.value.length+s.length ≤ 2^29+rest.length) :
    ∃ rt₁, AtBody h' rt₁ ∧ parser.feed rt s = parser.feed rt₁ rest := by
  induction s generalizing h rt with
  | nil => cases hscan
  | cons c s ih =>
      have hfinal : finished rt = false := by
        rw [finished,hreads.state]
        rfl
      have hread : parser.read rt c = headerChar rt c := by
        rw [read_eq hfinal,readByte,hreads.state]
      have hrest := scan_length hscan
      rw [List.length_cons] at hlen hrest
      rw [Machine.feed_cons,hread]
      unfold headerChar
      rw [scan] at hscan
      have hnext := @parseHeaderChar_next c _ hrow
      generalize parseHeaderChar rt.parsestate c = step at hscan hnext ⊢
      obtain ⟨status,state⟩ := step
      dsimp only at hscan hnext ⊢
      have hreads₁ := hreads.atState state
      by_cases hdone : status = .done
      · rw [if_pos hdone] at hscan
        split_ifs at hscan with hzero
        cases hscan
        subst hdone
        exact ⟨_,⟨_,hreads₁,hzero,rfl⟩,rfl⟩
      · rw [if_neg hdone] at hscan
        obtain ⟨hstate,hstored⟩ := hnext hdone
        have hextends := scan_extends hstate hscan
        have hcode : status = .codeCharacter → ∃ t, Decimal t ∧ h.status++[c] <+: t := by
          rintro rfl
          exact ⟨h'.status,hb.status,hextends.status⟩
        have hvalue : status = .storeKeyvalue → h.key = CONTENT_LENGTH → Decimal h.value := by
          rintro rfl hkey
          have hmem : (h.key,h.value) ∈ h'.fields :=
            (hextends.outside (hstored rfl)).subset (List.mem_append_right _ List.mem_cons_self)
          exact hb.lengths _ hmem hkey
        obtain ⟨rt₁,hchar,hpos⟩ := onHeaderStatus_defined hreads₁ hscratch hdone (by omega) hcode hvalue
        have hrow₁ : rt₁.parsestate = state := (onHeaderStatus_frame hdone hchar).2
        have htake := take_length h c status
        rw [hchar,Option.bind_some]
        rw [← hrow₁] at hscan hstate
        exact ih (hreads₁.take hdone hchar) hpos hstate hscan (by omega)

end Header

section Body
variable {rt : Roundtripper} {text rest body after : Bytes} {c : UInt8} {n : ℤ} {e : Ending}

theorem le_hexFrom {s : Bytes} (hs : ∀ c ∈ s, isHex c = true) (hn : 0 ≤ n) : n ≤ hexFrom n s := by
  induction s generalizing n with
  | nil => exact le_rfl
  | cons c s ih =>
      rw [List.forall_mem_cons] at hs
      have hdigit := hexDigit_bounds c hs.1
      have hle : n ≤ n*16+hexDigit c := by omega
      exact hle.trans (ih hs.2 (hn.trans hle))

/-- The digits of a size say no more than what comes after them. -/
theorem inSize_le (hn : 0 ≤ n) (h : InSize n rest body) : n ≤ body.length := by
  obtain ⟨digits,after,hdigits,-,hafter⟩ := h
  have hle := le_hexFrom hdigits hn
  rcases hafter with ⟨hzero,-,-⟩ | ⟨-,data,_,body',hlength,-,rfl,-⟩
  · rw [hzero] at hle
    exact hle.trans (Int.natCast_nonneg _)
  · rw [List.length_append,Nat.cast_add,hlength]
    omega

theorem pushHex_digit (hc : isHex c = true) (hn : 0 ≤ n) (hsmall : n*16+hexDigit c < 2^31) :
    ∃ m, pushHex n c = some m := by
  have hdigit := hexDigit_bounds c hc
  have hint : int (n*16) = some (n*16) := int_of_bounds (by omega) (by omega)
  have hint' : int (n*16+hexDigit c) = some _ := int_of_bounds (by omega) (by omega)
  refine ⟨n*16+hexDigit c,?_⟩
  rw [pushHex,hint,Option.bind_eq_bind,Option.bind_some,hint']

/-- A size that fits what it announces is added up. -/
theorem parseChunked_defined (hsane : Sane rt) (hstate : rt.state = .chunkHeader)
    (h : Remains rt (c::text) body) (hsmall : body.length < 2^31) :
    ∃ step, parseChunked rt.parsestate rt.contentlength c = some step := by
  have hrow := hsane.row hstate
  have hsize := hsane.size hstate
  unfold Remains at h
  rw [hstate] at h
  generalize rt.parsestate = row at hrow h
  interval_cases row
  · obtain ⟨hc,hin⟩ := chunks_cons_iff.mp h
    have hdigit := hexDigit_bounds c hc
    obtain ⟨m,hm⟩ := pushHex_digit hc le_rfl (by omega)
    rw [parseChunked_first,if_pos hc,hm]
    exact ⟨_,rfl⟩
  · rcases inSize_cons_iff.mp h with ⟨hc,hin⟩ | ⟨rfl,-⟩
    · have hdigit := hexDigit_bounds c hc
      have hle := inSize_le (by omega) hin
      obtain ⟨m,hm⟩ := pushHex_digit hc hsize (by omega)
      rw [parseChunked_digit,if_pos hc,hm]
      exact ⟨_,rfl⟩
    · rw [parseChunked_digit]
      exact ⟨_,rfl⟩
  · rw [parseChunked_sizeLf]
    exact ⟨_,rfl⟩
  · rw [parseChunked_cr]
    exact ⟨_,rfl⟩
  · rw [parseChunked_lf]
    exact ⟨_,rfl⟩

theorem read_defined (hsane : Sane rt) (hchunks : InChunks rt.state) (hfinal : finished rt = false)
    (h : Remains rt (c::text) body) (hsmall : body.length < 2^31) :
    ∃ rt', parser.read rt c = some rt' := by
  rw [read_eq hfinal]
  unfold readByte
  generalize hstate : rt.state = state at hchunks
  cases hchunks with
  | header =>
      obtain ⟨step,hstep⟩ := parseChunked_defined hsane hstate h hsmall
      dsimp only
      rw [chunkHeaderChar,hstep]
      exact ⟨_,rfl⟩
  | data => exact ⟨_,rfl⟩
  | close | error =>
      rw [finished,hstate] at hfinal
      cases hfinal

/-- A complete body in chunks that is not too long is read. -/
theorem feed_chunks_defined (hsane : Sane rt) (hchunks : InChunks rt.state)
    (h : Remains rt text body) (hsmall : body.length < 2^31) :
    ∃ rt', parser.feed rt text = some rt' := by
  induction text generalizing rt body with
  | nil => exact ⟨rt,rfl⟩
  | cons c text ih =>
      cases hfinal : finished rt with
      | true => exact ⟨rt,Machine.feed_final hfinal⟩
      | false =>
          obtain ⟨rt₁,hread⟩ := read_defined hsane hchunks hfinal h hsmall
          obtain ⟨hchunks₁,new,-,hremains⟩ := remains_step hsane hchunks hfinal hread
          obtain ⟨body₁,rfl,h₁⟩ := (hremains text body).mp h
          rw [List.length_append] at hsmall
          rw [Machine.feed_cons,hread,Option.bind_some]
          rw [read_eq hfinal] at hread
          exact ih (hsane.step hread) hchunks₁ h₁ (by omega)

end Body

/-- The value of the last field with this name, in whatever case it is written. -/
def lastValue (r : ResponseHead) (key : Bytes) : Option Bytes :=
  (r.fields.filter fun f => f.name.map tolower = key).getLast?.map Field.value

/-- The numbers of a header that is written: each length is there. -/
structure Numbered (r : ResponseHead) : Prop where
  status : Decimal r.status
  lengths : ∀ f ∈ r.fields, f.name.map tolower = CONTENT_LENGTH → f.value ≠ [] ∧ Decimal f.value

/-- What a server sends after the header for a body, and maybe more. -/
inductive Sends (r : ResponseHead) (e : Ending) : Bytes → Bytes → Prop
  | chunked {text body more} (hte : lastValue r TRANSFER_ENCODING = some CHUNKED)
      (htext : Chunks text body) (hsmall : body.length < 2^31) : Sends r e (text++more) body
  | length {digits body more} (hte : lastValue r TRANSFER_ENCODING ≠ some CHUNKED)
      (hcl : lastValue r CONTENT_LENGTH = some digits) (hvalue : decimalValue digits = body.length) :
      Sends r e (body++more) body
  | untilEnd {body} (hte : lastValue r TRANSFER_ENCODING ≠ some CHUNKED)
      (hcl : lastValue r CONTENT_LENGTH = none) (he : e = .eof) : Sends r e body body

section Sends
variable {r : ResponseHead} {rt : Roundtripper} {key digits rest body stream : Bytes} {e : Ending}

theorem read_last (r : ResponseHead) (key : Bytes) : r.read.last key =
    (lastValue r key).map fun v => if v = [] then [13] else v := by
  unfold Head.last lastValue ResponseHead.read
  rw [List.filter_map,List.getLast?_map,Option.map_map,Option.map_map]
  rfl

theorem read_chunked : r.read.chunked = true ↔ lastValue r TRANSFER_ENCODING = some CHUNKED := by
  have hcr : CHUNKED ≠ [] ∧ ([13] : Bytes) ≠ CHUNKED := by decide
  rw [Head.chunked,decide_eq_true_iff,read_last]
  cases lastValue r TRANSFER_ENCODING with
  | none => exact iff_of_false nofun nofun
  | some v =>
      rw [Option.map_some,Option.some_inj,Option.some_inj]
      by_cases hv : v = []
      · rw [if_pos hv,hv]
        exact iff_of_false hcr.2 hcr.1.symm
      · rw [if_neg hv]

theorem mem_of_lastValue (h : lastValue r key = some digits) :
    ∃ f ∈ r.fields, f.name.map tolower = key ∧ f.value = digits := by
  obtain ⟨f,hf,rfl⟩ := Option.map_eq_some_iff.mp h
  have hmem := List.mem_filter.mp (List.mem_of_getLast? hf)
  exact ⟨f,hmem.1,of_decide_eq_true hmem.2,rfl⟩

theorem Numbered.bounded (hn : Numbered r) : Bounded r.read := by
  refine ⟨hn.status,fun f hf hkey => ?_⟩
  obtain ⟨g,hg,rfl⟩ := List.mem_map.mp hf
  obtain ⟨hne,hdecimal⟩ := hn.lengths g hg hkey
  rw [Field.read,if_neg hne]
  exact hdecimal

theorem read_contentLength (hn : Numbered r) (hcl : lastValue r CONTENT_LENGTH = some digits) :
    r.read.contentLength = decimalValue digits := by
  obtain ⟨f,hf,hkey,rfl⟩ := mem_of_lastValue hcl
  rw [Head.contentLength,read_last,hcl,Option.map_some,if_neg (hn.lengths f hf hkey).1]
  rfl

/-- The parser expects the body that is sent. -/
theorem framed_of_sends (hn : Numbered r) (h : Sends r e rest body) :
    Framed e r.read.framing rest body := by
  unfold Head.framing
  cases h with
  | chunked hte htext =>
      rw [if_pos (read_chunked.mpr hte)]
      exact .chunked htext
  | @length _ _ more hte hcl hvalue =>
      rw [if_neg fun hc => hte (read_chunked.mp hc),read_contentLength hn hcl,hvalue,
        if_pos (Int.natCast_nonneg _),Int.toNat_natCast]
      have hframed : Framed e (.length body.length) (body++more) ((body++more).take body.length) :=
        .length (by rw [List.length_append]; omega)
      rwa [List.take_left] at hframed
  | untilEnd hte hcl he =>
      have hlength : r.read.contentLength = -1 := by
        rw [Head.contentLength,read_last,hcl]
        rfl
      rw [if_neg fun hc => hte (read_chunked.mp hc),hlength,if_neg (by decide),if_pos rfl]
      exact .untilEnd he

theorem chunked_of_framing {h : Head} (hf : h.framing = .chunked) : h.chunked = true := by
  unfold Head.framing at hf
  split_ifs at hf with hchunked
  exact hchunked

theorem small_of_sends (h : Sends r e rest body) (hf : r.read.framing = .chunked) :
    body.length < 2^31 := by
  have hte := read_chunked.mp (chunked_of_framing hf)
  cases h with
  | chunked _ _ hsmall => exact hsmall
  | length hne | untilEnd hne => exact absurd hte hne

/-- A body that is framed is read without an overflow. -/
theorem feed_framed_defined {h : Head} (hbody : AtBody h rt) (hframed : Framed e h.framing rest body)
    (hsmall : h.framing = .chunked → body.length < 2^31) :
    ∃ rt', parser.feed rt rest = some rt' := by
  have hstart := hbody.start
  generalize h.framing = framing at hframed hstart hsmall
  cases hstart with
  | chunked hstate hrow =>
      cases hframed with
      | chunked hchunks =>
          have hin : InChunks rt.state := hstate ▸ .header
          have hremains : ∀ {text}, Chunks text body → Remains rt text body := by
            intro text htext
            unfold Remains
            rw [hstate,hrow]
            exact htext
          obtain ⟨rt₁,hfeed⟩ := feed_chunks_defined hbody.sane hin (hremains hchunks) (hsmall rfl)
          have hclose := chunks_close hbody.sane hin (hremains hchunks)
            ((congrArg _ (List.append_nil _)).trans hfeed)
          rw [Machine.feed_append,hfeed]
          exact ⟨rt₁,Machine.feed_final (finished_iff.mpr (.inr hclose.1))⟩
  | empty hstate => exact ⟨rt,Machine.feed_final (finished_iff.mpr (.inr hstate))⟩
  | length hstate hpos hlength =>
      subst hlength
      cases hframed with
      | length hle =>
          have htake : ((rest.take rt.contentlength.toNat).length : ℤ) = rt.contentlength := by
            rw [List.length_take]
            omega
          have hne : rest.take rt.contentlength.toNat ≠ [] := by
            intro hnil
            rw [hnil,List.length_nil] at htake
            omega
          have hfeed := feed_rawData hstate hne htake.le
          have hclose := feed_length hstate hpos hfeed
          rw [if_pos htake.ge] at hclose
          rw [← List.take_append_drop rt.contentlength.toNat rest,Machine.feed_append,hfeed]
          exact ⟨_,Machine.feed_final (finished_iff.mpr (.inr hclose.1))⟩
  | untilEnd hstate => exact ⟨_,feed_unknownData hstate⟩
  | invalid hstate => exact ⟨rt,Machine.feed_final (finished_iff.mpr (.inl hstate))⟩

/-- The parser does not get stuck in a response that is sent. -/
theorem feed_sent_defined (hp : r.Proper) (hclosed : ∀ f ∈ r.fields, ¬f.Trailing) (hn : Numbered r)
    (hlen : r.print.length ≤ 2^29) (h : Sends r e rest body) :
    ∃ rt, parser.feed httpInit (r.print++rest) = some rt := by
  have hscan := (scan_print_iff hp rest).mpr hclosed
  obtain ⟨rt₁,hbody,hfeed⟩ := reach_body .init le_rfl (Nat.zero_le _) hscan hn.bounded
    (by rw [List.length_append]; simp only [Head.empty,List.length_nil]; omega)
  rw [hfeed]
  exact feed_framed_defined hbody (framed_of_sends hn h) (small_of_sends h)

theorem Ended.not_error (h : Ended rt e) : rt.state ≠ .error := by
  intro herror
  rcases h with h | ⟨h,-⟩ <;> cases herror.symm.trans h

/-- Where a response may end, the loop is left. -/
theorem Ended.ends_iff (h : Ended rt e) (hsane : Sane rt) {out : Exit} :
    Ends (some rt) e out ↔ out = .left rt := by
  constructor
  · intro hends
    cases hends with
    | finished | eof => rfl
    | failed hfinal =>
        rcases h with hclose | ⟨-,heof⟩
        · cases (finished_iff.mpr (.inr hclose)).symm.trans hfinal
        · cases heof
  · rintro rfl
    rcases h with hclose | ⟨hunknown,rfl⟩
    · exact .finished (finished_iff.mpr (.inr hclose))
    · refine .eof ?_ (hsane.none hunknown)
      rw [finished,hunknown]
      rfl

/-- A response that is sent is complete. -/
theorem complete_sent (hp : r.Proper) (hclosed : ∀ f ∈ r.fields, ¬f.Trailing) (hn : Numbered r)
    (h : Sends r e rest body) :
    Complete (r.print++rest) e ⟨Int32.ofInt (decimalValue r.status),body⟩ := by
  have hpos : 0 ≤ decimalValue r.status := le_foldl_digits hn.status.digits le_rfl
  have hsmall := hn.status.small
  refine ⟨r.read,rest,(scan_print_iff hp rest).mpr hclosed,?_,framed_of_sends hn h⟩
  exact Int32.toInt_ofInt_of_le (by omega) (by omega)

/-- A complete response that the parser does not get stuck in is returned. -/
theorem reply_complete_iff {stream : Bytes} {resp : HttpResponse} {c : Connection}
    (hfeed : parser.feed httpInit stream = some rt) (hcomplete : Complete stream e resp)
    (hc : Carries c stream e) (reply : Reply) :
    (∃ n, getResponse n c = some reply) ↔ reply = .returned resp := by
  obtain ⟨hended,hread⟩ := (complete_iff hfeed).mp hcomplete
  rw [reply_iff hc,hfeed,hread]
  simp only [hended.ends_iff (Sane.init.feed hfeed),exists_eq_left,afterLoop_left hended.not_error,
    eq_comm]

/-- A response that is sent is returned, however it is cut and whatever comes after it. -/
theorem getResponse_sent {c : Connection} (hp : r.Proper) (hclosed : ∀ f ∈ r.fields, ¬f.Trailing)
    (hn : Numbered r) (hlen : r.print.length ≤ 2^29) (h : Sends r e rest body)
    (hc : Carries c (r.print++rest) e) (reply : Reply) :
    (∃ n, getResponse n c = some reply) ↔
      reply = .returned ⟨Int32.ofInt (decimalValue r.status),body⟩ := by
  obtain ⟨rt,hfeed⟩ := feed_sent_defined hp hclosed hn hlen h
  exact reply_complete_iff hfeed (complete_sent hp hclosed hn h) hc reply

end Sends

/-- A field in mixed case, and a body in chunks. -/
def greeting : ResponseHead where
  version := Cpp.ascii "HTTP/1.1"
  status := Cpp.ascii "200"
  reason := Cpp.ascii "OK"
  fields := [⟨Cpp.ascii "Transfer-Encoding",[32],Cpp.ascii "chunked"⟩]

def greetingBody : Bytes := Cpp.ascii "5\r\nhello\r\n0\r\n\r\nHTTP/1.1 404"

theorem greeting_proper : greeting.Proper := by
  refine ⟨by decide,by decide,by decide,fun f hf => ?_⟩
  rw [List.mem_singleton.mp hf]
  exact ⟨by decide,by decide +kernel,by decide,by decide +kernel⟩

theorem greeting_closed : ∀ f ∈ greeting.fields, ¬f.Trailing := by
  rintro f hf ⟨c,u,w,hvalue,-⟩
  rw [List.mem_singleton.mp hf] at hvalue
  have hcomma : (44 : UInt8) ∈ c::(u++44::w) := by simp
  rw [← hvalue] at hcomma
  exact absurd hcomma (by decide)

theorem greeting_numbered : Numbered greeting := by
  refine ⟨⟨by decide +kernel,by decide⟩,fun f hf hkey => ?_⟩
  rw [List.mem_singleton.mp hf] at hkey
  exact absurd hkey (by decide)

theorem greeting_sends : Sends greeting .eof greetingBody (Cpp.ascii "hello") := by
  have hfive : HexText (Cpp.ascii "5") (Cpp.ascii "hello").length :=
    ⟨by decide,by decide +kernel,by decide⟩
  have hzero : HexText (Cpp.ascii "0") 0 := ⟨by decide,by decide +kernel,by decide⟩
  have htext : Chunks (Cpp.ascii "5\r\nhello\r\n0\r\n\r\n") (Cpp.ascii "hello") :=
    .chunk hfive (by decide) (.last hzero)
  exact .chunked (show lastValue greeting TRANSFER_ENCODING = some CHUNKED by decide) htext (by decide)

theorem getResponse_greeting :
    ∃ n, getResponse n (bytewise (greeting.print++greetingBody) .eof) =
      some (.returned ⟨200,Cpp.ascii "hello"⟩) :=
  (getResponse_sent greeting_proper greeting_closed greeting_numbered (by decide) greeting_sends
    (carries_bytewise _ _) _).mpr rfl

end TownCrier.Https
