import TownCrier.ByteFeed
import TownCrier.HttpMessage

/-!
# Bodies in chunks

A chunk has its size before it, in hexadecimal digits, and the last one is empty.
Where it does not get stuck, the parser closes on exactly the bodies whose last
chunk is there, and has read what the chunks contain.
-/
namespace TownCrier.HttpChunks
open BigEndian Automaton TinyHttp HttpMessage

def hexFrom (n : ℤ) (s : Bytes) : ℤ := s.foldl (fun n c => n*16+hexDigit c) n

/-- A number in hexadecimal digits. -/
structure HexText (s : Bytes) (n : ℤ) : Prop where
  nonempty : s ≠ []
  digits : ∀ c ∈ s, isHex c = true
  value : hexFrom 0 s = n

/-- A body in chunks: each with its size before it, and the last one empty. -/
inductive Chunks : Bytes → Bytes → Prop
  | last {size} (hsize : HexText size 0) : Chunks (size++CRLF++CRLF) []
  | chunk {size data text body} (hsize : HexText size data.length) (hdata : data ≠ [])
      (h : Chunks text body) : Chunks (size++CRLF++data++CRLF++text) (data++body)

section Text
variable {text rest body : Bytes} {n : ℤ} {c : UInt8}

/-- The rest of a body after `n` more bytes of a chunk. -/
def InData (n : ℤ) (rest body : Bytes) : Prop :=
  ∃ data text body', (data.length : ℤ) = n ∧ rest = data++CRLF++text ∧ body = data++body' ∧
    Chunks text body'

/-- What comes after the line with a size. -/
def AfterSize (n : ℤ) (rest body : Bytes) : Prop :=
  n = 0 ∧ rest = CRLF ∧ body = [] ∨ n ≠ 0 ∧ InData n rest body

/-- What comes after the line end of a chunk with this size, or of the last one. -/
def AfterData (n : ℤ) (rest body : Bytes) : Prop :=
  n = 0 ∧ rest = [] ∧ body = [] ∨ n ≠ 0 ∧ Chunks rest body

/-- What comes after the first digits of a size. -/
def InSize (n : ℤ) (rest body : Bytes) : Prop :=
  ∃ digits after, (∀ d ∈ digits, isHex d = true) ∧ rest = digits++CRLF++after ∧
    AfterSize (hexFrom n digits) after body

theorem chunks_cons_iff : Chunks (c::text) body ↔ isHex c = true ∧ InSize (hexDigit c) text body := by
  constructor
  · intro h
    generalize htext : c::text = s at h
    cases h with
    | @last size hsize =>
        obtain ⟨d,digits,rfl⟩ := List.exists_cons_of_ne_nil hsize.nonempty
        cases htext
        have hvalue := hsize.value
        rw [hexFrom,List.foldl_cons,zero_mul,zero_add] at hvalue
        refine ⟨hsize.digits c List.mem_cons_self,digits,CRLF,?_,rfl,.inl ⟨hvalue,rfl,rfl⟩⟩
        exact fun d hd => hsize.digits d (List.mem_cons_of_mem c hd)
    | @chunk size data text' body' hsize hdata h =>
        obtain ⟨d,digits,rfl⟩ := List.exists_cons_of_ne_nil hsize.nonempty
        simp only [List.cons_append,List.cons.injEq] at htext
        obtain ⟨rfl,rfl⟩ := htext
        have hvalue := hsize.value
        rw [hexFrom,List.foldl_cons,zero_mul,zero_add] at hvalue
        refine ⟨hsize.digits c List.mem_cons_self,digits,data++CRLF++text',?_,?_,.inr ⟨?_,?_⟩⟩
        · exact fun d hd => hsize.digits d (List.mem_cons_of_mem c hd)
        · simp only [List.append_assoc]
        · rw [hexFrom,hvalue]
          have hpos := List.length_pos_iff.mpr hdata
          omega
        · exact ⟨data,text',body',hvalue.symm,rfl,rfl,h⟩
  · rintro ⟨hc,digits,after,hdigits,rfl,hafter⟩
    have hvalue : hexFrom 0 (c::digits) = hexFrom (hexDigit c) digits := by
      rw [hexFrom,List.foldl_cons,zero_mul,zero_add]
      rfl
    have hhex : ∀ d ∈ c::digits, isHex d = true := by
      intro d hd
      rcases List.mem_cons.mp hd with rfl | hd
      · exact hc
      · exact hdigits d hd
    rcases hafter with ⟨hzero,rfl,rfl⟩ | ⟨hne,data,text',body',hlength,rfl,rfl,h⟩
    · exact @Chunks.last (c::digits) ⟨List.cons_ne_nil c digits,hhex,hvalue.trans hzero⟩
    · have hsize : HexText (c::digits) data.length :=
        ⟨List.cons_ne_nil c digits,hhex,hvalue.trans hlength.symm⟩
      have hdata : data ≠ [] := by
        rintro rfl
        exact hne hlength.symm
      have hchunk := Chunks.chunk hsize hdata h
      simpa only [List.cons_append,List.append_assoc] using hchunk

theorem exists_cons_iff {d : UInt8} {P : Bytes → Prop} (f : Bytes → Bytes) :
    (∃ rest, c::text = d::f rest ∧ P rest) ↔ c = d ∧ ∃ rest, text = f rest ∧ P rest := by
  simp only [List.cons.injEq,and_assoc,exists_and_left]

theorem inSize_cons_iff : InSize n (c::text) body ↔
    isHex c = true ∧ InSize (n*16+hexDigit c) text body ∨
      c = 13 ∧ ∃ rest, text = 10::rest ∧ AfterSize n rest body := by
  constructor
  · rintro ⟨digits,after,hdigits,htext,hafter⟩
    cases digits with
    | nil =>
        cases htext
        exact .inr ⟨rfl,after,rfl,hafter⟩
    | cons d digits =>
        cases htext
        refine .inl ⟨hdigits c List.mem_cons_self,digits,after,?_,rfl,hafter⟩
        exact fun d hd => hdigits d (List.mem_cons_of_mem c hd)
  · rintro (⟨hc,digits,after,hdigits,rfl,hafter⟩ | ⟨rfl,rest,rfl,hafter⟩)
    · refine ⟨c::digits,after,fun d hd => ?_,rfl,hafter⟩
      rcases List.mem_cons.mp hd with rfl | hd
      · exact hc
      · exact hdigits d hd
    · exact ⟨[],rest,nofun,rfl,hafter⟩

theorem inData_cons_iff (hn : 0 < n) : InData n (c::text) body ↔ ∃ body', body = c::body' ∧
    (n = 1 ∧ (∃ rest, text = 13::10::rest ∧ Chunks rest body') ∨ n ≠ 1 ∧ InData (n-1) text body') := by
  constructor
  · rintro ⟨data,text',body',hlength,htext,rfl,h⟩
    cases data with
    | nil =>
        rw [List.length_nil] at hlength
        omega
    | cons d data =>
        cases htext
        rw [List.length_cons,Nat.cast_add,Nat.cast_one] at hlength
        refine ⟨data++body',rfl,?_⟩
        cases data with
        | nil => exact .inl ⟨hlength.symm,text',rfl,h⟩
        | cons d data =>
            refine .inr ⟨?_,d::data,text',body',?_,rfl,rfl,h⟩
            · rw [List.length_cons,Nat.cast_add,Nat.cast_one] at hlength
              omega
            · omega
  · rintro ⟨body',rfl,⟨rfl,rest,rfl,h⟩ | ⟨-,data,text',body'',hlength,rfl,rfl,h⟩⟩
    · exact ⟨[c],rest,body',rfl,rfl,rfl,h⟩
    · refine ⟨c::data,text',body'',?_,rfl,rfl,h⟩
      rw [List.length_cons,Nat.cast_add,Nat.cast_one]
      omega

end Text

/-- The rest of a body in chunks, for a parser that is inside of it. -/
def Remains (rt : Roundtripper) (text body : Bytes) : Prop :=
  match rt.state, rt.parsestate with
  | .chunkHeader, 0 => Chunks text body
  | .chunkHeader, 1 => InSize rt.contentlength text body
  | .chunkHeader, 2 => ∃ rest, text = 10::rest ∧ AfterSize rt.contentlength rest body
  | .chunkHeader, 3 => ∃ rest, text = 13::10::rest ∧ AfterData rt.contentlength rest body
  | .chunkHeader, 4 => ∃ rest, text = 10::rest ∧ AfterData rt.contentlength rest body
  | .chunkData, _ => InData rt.contentlength text body
  | .close, _ => text = [] ∧ body = []
  | _, _ => False

section Body
variable {rt rt' : Roundtripper} {text body s : Bytes} {c : UInt8}

theorem remains_error (h : rt.state = .error) : ¬Remains rt text body := by
  rw [Remains,h]
  exact id

/-- What the parser is after a character around the sizes. -/
structure Parsed (rt rt' : Roundtripper) (c : UInt8) (more : Bool) : Prop where
  parse : parseChunked rt.parsestate rt.contentlength c =
    some (more,rt'.parsestate,rt'.contentlength)
  response : rt'.response = rt.response
  state : rt'.state = if more then .chunkHeader else if rt'.contentlength = -1 then .error
    else if rt'.contentlength = 0 then .close else .chunkData

theorem parseChunked_row {row : ℕ} (h : rt.parsestate = row) :
    parseChunked rt.parsestate rt.contentlength c = parseChunked row rt.contentlength c := by
  rw [h]

theorem parsed_of (hstate : rt.state = .chunkHeader) (h : chunkHeaderChar rt c = some rt') :
    ∃ more, Parsed rt rt' c more := by
  obtain ⟨⟨more,parsestate,size⟩,hparse,h⟩ := Option.bind_eq_some_iff.mp h
  rw [Option.some_inj] at h
  subst h
  refine ⟨more,?_,?_,?_⟩
  · split_ifs <;> exact hparse
  · split_ifs <;> rfl
  · rw [← hstate]
    split_ifs <;> rfl

section Parsed
variable {more : Bool} (h : Parsed rt rt' c more) (hstate : rt.state = .chunkHeader)
include h

/-- A character that is not allowed. -/
theorem Parsed.malformed
    (hbad : parseChunked rt.parsestate rt.contentlength c = some malformed) :
    ¬Remains rt' text body := by
  have heq := Option.some_inj.mp (h.parse.symm.trans hbad)
  obtain ⟨rfl,-,hsize⟩ : more = false ∧ rt'.parsestate = 1 ∧ rt'.contentlength = -1 := by
    simpa only [TinyHttp.malformed,Prod.mk.injEq] using heq
  have herror := h.state
  rw [hsize] at herror
  exact remains_error herror

theorem Parsed.goesOn {row : ℕ} {size : ℤ}
    (hmore : parseChunked rt.parsestate rt.contentlength c = some (true,row,size)) :
    rt'.state = .chunkHeader ∧ rt'.parsestate = row ∧ rt'.contentlength = size := by
  have heq := Option.some_inj.mp (h.parse.symm.trans hmore)
  obtain ⟨rfl,hrow,hsize⟩ : more = true ∧ rt'.parsestate = row ∧ rt'.contentlength = size := by
    simpa only [Prod.mk.injEq] using heq
  exact ⟨h.state,hrow,hsize⟩

theorem Parsed.complete {row : ℕ} {size : ℤ} (hne : size ≠ -1)
    (hdone : parseChunked rt.parsestate rt.contentlength c = some (false,row,size)) :
    rt'.state = (if size = 0 then .close else .chunkData) ∧ rt'.contentlength = size := by
  have heq := Option.some_inj.mp (h.parse.symm.trans hdone)
  obtain ⟨rfl,-,hsize⟩ : more = false ∧ rt'.parsestate = row ∧ rt'.contentlength = size := by
    simpa only [Prod.mk.injEq] using heq
  have hstate := h.state
  rw [hsize,if_neg Bool.false_ne_true,if_neg hne] at hstate
  exact ⟨hstate,hsize⟩

include hstate

theorem Parsed.first (hrow : rt.parsestate = 0) :
    Remains rt (c::text) body ↔ Remains rt' text body := by
  have hparse := (parseChunked_row hrow).trans (parseChunked_first rt.contentlength c)
  have hbefore : Remains rt (c::text) body ↔ isHex c = true ∧ InSize (hexDigit c) text body := by
    unfold Remains
    rw [hstate,hrow]
    exact chunks_cons_iff
  rw [hbefore]
  by_cases hhex : isHex c = true
  · rw [if_pos hhex,h.parse] at hparse
    obtain ⟨n,hn,-⟩ := Option.map_eq_some_iff.mp hparse.symm
    rw [hn] at hparse
    obtain ⟨hstate',hrow',hsize⟩ := h.goesOn (h.parse.trans hparse)
    unfold Remains
    rw [hstate',hrow',hsize,pushHex_eq_some hn,zero_mul,zero_add]
    exact and_iff_right hhex
  · rw [if_neg hhex] at hparse
    exact iff_of_false (fun h => hhex h.1) (h.malformed hparse)

theorem Parsed.digit (hrow : rt.parsestate = 1) :
    Remains rt (c::text) body ↔ Remains rt' text body := by
  have hparse := (parseChunked_row hrow).trans (parseChunked_digit rt.contentlength c)
  have hbefore : Remains rt (c::text) body ↔ isHex c = true ∧
      InSize (rt.contentlength*16+hexDigit c) text body ∨
        c = 13 ∧ ∃ rest, text = 10::rest ∧ AfterSize rt.contentlength rest body := by
    unfold Remains
    rw [hstate,hrow]
    exact inSize_cons_iff
  rw [hbefore]
  by_cases hhex : isHex c = true
  · have hcr : c ≠ 13 := by
      rintro rfl
      cases hhex
    rw [if_pos hhex,h.parse] at hparse
    obtain ⟨n,hn,-⟩ := Option.map_eq_some_iff.mp hparse.symm
    rw [hn] at hparse
    obtain ⟨hstate',hrow',hsize⟩ := h.goesOn (h.parse.trans hparse)
    unfold Remains
    rw [hstate',hrow',hsize,pushHex_eq_some hn]
    exact ⟨fun hor => (hor.resolve_right fun h => hcr h.1).2,fun hin => .inl ⟨hhex,hin⟩⟩
  · rw [if_neg hhex] at hparse
    by_cases hcr : c = 13
    · rw [if_pos hcr] at hparse
      obtain ⟨hstate',hrow',hsize⟩ := h.goesOn hparse
      unfold Remains
      rw [hstate',hrow',hsize]
      exact ⟨fun hor => (hor.resolve_left fun h => hhex h.1).2,fun hlf => .inr ⟨hcr,hlf⟩⟩
    · rw [if_neg hcr] at hparse
      refine iff_of_false ?_ (h.malformed hparse)
      rintro (hor | hor)
      · exact hhex hor.1
      · exact hcr hor.1

theorem Parsed.sizeLf (hsize : 0 ≤ rt.contentlength) (hrow : rt.parsestate = 2) :
    Remains rt (c::text) body ↔ Remains rt' text body := by
  have hparse := (parseChunked_row hrow).trans (parseChunked_sizeLf rt.contentlength c)
  have hbefore : Remains rt (c::text) body ↔ c = 10 ∧ AfterSize rt.contentlength text body := by
    unfold Remains
    rw [hstate,hrow]
    exact (exists_cons_iff fun rest => rest).trans (and_congr_right fun _ => exists_eq_left')
  rw [hbefore]
  by_cases hlf : c = 10
  · rw [if_pos hlf] at hparse
    by_cases hzero : rt.contentlength = 0
    · rw [decide_eq_true hzero] at hparse
      obtain ⟨hstate',hrow',hsize'⟩ := h.goesOn hparse
      unfold Remains AfterSize AfterData
      rw [hstate',hrow',hsize',hzero]
      constructor
      · rintro ⟨-,⟨-,rfl,rfl⟩ | ⟨hne,-⟩⟩
        · exact ⟨[],rfl,.inl ⟨rfl,rfl,rfl⟩⟩
        · exact absurd rfl hne
      · rintro ⟨rest,rfl,⟨-,rfl,rfl⟩ | ⟨hne,-⟩⟩
        · exact ⟨hlf,.inl ⟨rfl,rfl,rfl⟩⟩
        · exact absurd rfl hne
    · rw [decide_eq_false hzero] at hparse
      obtain ⟨hstate',hsize'⟩ := h.complete (by omega) hparse
      rw [if_neg hzero] at hstate'
      unfold Remains AfterSize
      rw [hstate',hsize']
      exact ⟨fun hand => (hand.2.resolve_left fun h => hzero h.1).2,fun hin => ⟨hlf,.inr ⟨hzero,hin⟩⟩⟩
  · rw [if_neg hlf] at hparse
    exact iff_of_false (fun h => hlf h.1) (h.malformed hparse)

theorem Parsed.cr (hrow : rt.parsestate = 3) :
    Remains rt (c::text) body ↔ Remains rt' text body := by
  have hparse := (parseChunked_row hrow).trans (parseChunked_cr rt.contentlength c)
  have hbefore : Remains rt (c::text) body ↔
      c = 13 ∧ ∃ rest, text = 10::rest ∧ AfterData rt.contentlength rest body := by
    unfold Remains
    rw [hstate,hrow]
    exact exists_cons_iff (10::·)
  rw [hbefore]
  by_cases hcr : c = 13
  · rw [if_pos hcr] at hparse
    obtain ⟨hstate',hrow',hsize'⟩ := h.goesOn hparse
    unfold Remains
    rw [hstate',hrow',hsize']
    exact and_iff_right hcr
  · rw [if_neg hcr] at hparse
    exact iff_of_false (fun h => hcr h.1) (h.malformed hparse)

theorem Parsed.lf (hrow : rt.parsestate = 4) :
    Remains rt (c::text) body ↔ Remains rt' text body := by
  have hparse := (parseChunked_row hrow).trans (parseChunked_lf rt.contentlength c)
  have hbefore : Remains rt (c::text) body ↔ c = 10 ∧ AfterData rt.contentlength text body := by
    unfold Remains
    rw [hstate,hrow]
    exact (exists_cons_iff fun rest => rest).trans (and_congr_right fun _ => exists_eq_left')
  rw [hbefore]
  by_cases hlf : c = 10
  · rw [if_pos hlf] at hparse
    by_cases hzero : rt.contentlength = 0
    · rw [decide_eq_false (not_not.mpr hzero)] at hparse
      obtain ⟨hstate',hsize'⟩ := h.complete (by omega) hparse
      rw [if_pos hzero] at hstate'
      unfold Remains AfterData
      rw [hstate']
      exact ⟨fun hand => (hand.2.resolve_right fun h => h.1 hzero).2,
        fun hend => ⟨hlf,.inl ⟨hzero,hend⟩⟩⟩
    · rw [decide_eq_true hzero] at hparse
      obtain ⟨hstate',hrow',-⟩ := h.goesOn hparse
      unfold Remains AfterData
      rw [hstate',hrow']
      exact ⟨fun hand => (hand.2.resolve_left fun h => hzero h.1).2,
        fun hnext => ⟨hlf,.inr ⟨hzero,hnext⟩⟩⟩
  · rw [if_neg hlf] at hparse
    exact iff_of_false (fun h => hlf h.1) (h.malformed hparse)

end Parsed

/-- A character around the sizes is the one that the rest of the body begins with. -/
theorem remains_chunkHeader (hsane : Sane rt) (hstate : rt.state = .chunkHeader)
    (h : chunkHeaderChar rt c = some rt') : rt'.response = rt.response ∧
      (Remains rt (c::text) body ↔ Remains rt' text body) := by
  obtain ⟨more,hparsed⟩ := parsed_of hstate h
  refine ⟨hparsed.response,?_⟩
  have hrow := hsane.row hstate
  have hsize := hsane.size hstate
  generalize hparsestate : rt.parsestate = row at hrow
  interval_cases row
  · exact hparsed.first hstate hparsestate
  · exact hparsed.digit hstate hparsestate
  · exact hparsed.sizeLf hstate hsize hparsestate
  · exact hparsed.cr hstate hparsestate
  · exact hparsed.lf hstate hparsestate

/-- A byte of a chunk. -/
theorem remains_chunkData (hsane : Sane rt) (hstate : rt.state = .chunkData) :
    Remains rt (c::text) body ↔
      ∃ body', body = c::body' ∧ Remains (chunkData rt [c]) text body' := by
  have hbefore : Remains rt (c::text) body ↔ InData rt.contentlength (c::text) body := by
    unfold Remains
    rw [hstate]
  rw [hbefore,inData_cons_iff (hsane.left (.inl hstate))]
  refine exists_congr fun body' => and_congr_right fun _ => ?_
  by_cases hone : rt.contentlength = 1
  · have hafter : chunkData rt [c] =
        {appendBody rt [c] with contentlength := 1, state := .chunkHeader} :=
      if_pos (sub_eq_zero.mpr hone)
    rw [hafter]
    unfold Remains
    dsimp only [appendBody]
    rw [hsane.data hstate]
    constructor
    · rintro (⟨-,rest,rfl,h⟩ | ⟨hne,-⟩)
      · exact ⟨rest,rfl,.inr ⟨one_ne_zero,h⟩⟩
      · exact absurd hone hne
    · rintro ⟨rest,rfl,⟨h,-⟩ | ⟨-,h⟩⟩
      · cases h
      · exact .inl ⟨hone,rest,rfl,h⟩
  · rw [chunkData,dataBlock_singleton hone]
    unfold Remains
    dsimp only [appendBody]
    rw [hstate]
    exact ⟨fun hor => (hor.resolve_left fun h => hone h.1).2,fun hin => .inr ⟨hone,hin⟩⟩

/-- The states of a parser which reads a body in chunks. -/
inductive InChunks : State → Prop
  | header : InChunks .chunkHeader
  | data : InChunks .chunkData
  | close : InChunks .close
  | error : InChunks .error

theorem Parsed.inChunks {more : Bool} (h : Parsed rt rt' c more) : InChunks rt'.state := by
  rw [h.state]
  split_ifs
  · exact .header
  · exact .error
  · exact .close
  · exact .data

theorem remains_nil (h : Remains rt [] body) : rt.state = .close := by
  have hsize : ∀ n, ¬InSize n [] body := by
    rintro n ⟨digits,after,-,h,-⟩
    simp [CRLF] at h
  have hchunks : ¬Chunks [] body := by
    intro h
    generalize htext : ([] : Bytes) = text at h
    cases h with
    | last => simp [CRLF] at htext
    | chunk => simp [CRLF] at htext
  have hdata : ¬InData rt.contentlength [] body := by
    rintro ⟨data,text,body',-,h,-⟩
    simp [CRLF] at h
  unfold Remains at h
  split at h
  · exact absurd h hchunks
  · exact absurd h (hsize _)
  · obtain ⟨_,h,_⟩ := h
    cases h
  · obtain ⟨_,h,_⟩ := h
    cases h
  · obtain ⟨_,h,_⟩ := h
    cases h
  · exact absurd h hdata
  · assumption
  · exact h.elim

theorem remains_close (h : rt.state = .close) : Remains rt text body ↔ text = [] ∧ body = [] := by
  unfold Remains
  rw [h]

/-- A byte of a body in chunks, what it adds to the body, and what remains after it. -/
theorem remains_step (hsane : Sane rt) (hchunks : InChunks rt.state) (hfinal : finished rt = false)
    (h : parser.read rt c = some rt') : InChunks rt'.state ∧ ∃ new,
      rt'.response.body = rt.response.body++new ∧ ∀ text body, Remains rt (c::text) body ↔
        ∃ body', body = new++body' ∧ Remains rt' text body' := by
  rw [read_eq hfinal] at h
  unfold readByte at h
  generalize hstate : rt.state = state at hchunks h
  cases hchunks with
  | header =>
      obtain ⟨more,hparsed⟩ := parsed_of hstate h
      refine ⟨hparsed.inChunks,[],?_,fun text body => ?_⟩
      · rw [hparsed.response,List.append_nil]
      · rw [(remains_chunkHeader hsane hstate h).2]
        exact ⟨fun h => ⟨body,rfl,h⟩,fun ⟨_,heq,h⟩ => heq ▸ h⟩
  | data =>
      cases h
      refine ⟨?_,[c],?_,fun text body => remains_chunkData hsane hstate⟩
      · unfold chunkData dataBlock
        dsimp only
        split_ifs
        · exact .header
        · exact hstate ▸ .data
      · unfold chunkData dataBlock
        dsimp only
        split_ifs <;> rfl
  | close | error =>
      rw [finished,hstate] at hfinal
      cases hfinal

/-- A complete body in chunks closes the parser. -/
theorem chunks_close {rest : Bytes} (hsane : Sane rt) (hchunks : InChunks rt.state)
    (h : Remains rt text body) (hfeed : parser.feed rt (text++rest) = some rt') :
    rt'.state = .close ∧ rt'.response.body = rt.response.body++body := by
  induction text generalizing rt body with
  | nil =>
      have hclose := remains_nil h
      rw [Machine.feed_final (finished_iff.mpr (.inr hclose))] at hfeed
      cases hfeed
      rw [((remains_close hclose).mp h).2,List.append_nil]
      exact ⟨hclose,rfl⟩
  | cons c text ih =>
      have hfinal : finished rt = false := by
        refine Bool.eq_false_iff.mpr fun hfinal => ?_
        rcases finished_iff.mp hfinal with herror | hclose
        · exact remains_error herror h
        · cases ((remains_close hclose).mp h).1
      obtain ⟨rt₁,hread,hrest⟩ := Machine.feed_cons_eq_some.mp hfeed
      obtain ⟨hchunks₁,new,hnew,hremains⟩ := remains_step hsane hchunks hfinal hread
      obtain ⟨body₁,rfl,h₁⟩ := (hremains text body).mp h
      rw [read_eq hfinal] at hread
      obtain ⟨hclose,hbody⟩ := ih (hsane.step hread) hchunks₁ h₁ hrest
      exact ⟨hclose,by rw [hbody,hnew,List.append_assoc]⟩

/-- The parser closes on a complete body in chunks only. -/
theorem chunks_of_close (hsane : Sane rt) (hchunks : InChunks rt.state)
    (hfeed : parser.feed rt s = some rt') (hclose : rt'.state = .close) :
    ∃ text rest body, s = text++rest ∧ Remains rt text body := by
  induction s generalizing rt with
  | nil =>
      cases hfeed
      exact ⟨[],[],[],rfl,(remains_close hclose).mpr ⟨rfl,rfl⟩⟩
  | cons c s ih =>
      cases hfinal : finished rt with
      | true =>
          rw [Machine.feed_final hfinal] at hfeed
          cases hfeed
          exact ⟨[],c::s,[],rfl,(remains_close hclose).mpr ⟨rfl,rfl⟩⟩
      | false =>
          obtain ⟨rt₁,hread,hrest⟩ := Machine.feed_cons_eq_some.mp hfeed
          obtain ⟨hchunks₁,new,-,hremains⟩ := remains_step hsane hchunks hfinal hread
          rw [read_eq hfinal] at hread
          obtain ⟨text,rest,body,rfl,h⟩ := ih (hsane.step hread) hchunks₁ hrest
          exact ⟨c::text,rest,new++body,rfl,(hremains text _).mpr ⟨body,rfl,h⟩⟩

end Body
end TownCrier.HttpChunks
