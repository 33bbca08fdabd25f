import TownCrier.Cpp
import Mathlib.Data.List.Basic

/-!
# Requests with a query

The head of an HTTP request without a body: a request line with the parameters
of a query, and header lines. `parse` accepts exactly what `print` writes for
requests whose parts are free of the separators around them. The parameters are
taken as they stand in the line, without decoding.
-/
namespace TownCrier.HttpMessage
open BigEndian Cpp

structure Request where
  method : Bytes
  path : Bytes
  params : List (Bytes × Bytes)
  version : Bytes
  headers : List Bytes
  deriving DecidableEq

def CRLF : Bytes := [13,10]

def printParam (p : Bytes × Bytes) : Bytes := p.1++61::p.2

def printQuery (params : List (Bytes × Bytes)) : Bytes :=
  [38].intercalate (params.map printParam)

def requestLine (r : Request) : Bytes :=
  r.method++32::(r.path++63::printQuery r.params)++32::r.version

def printLines (lines : List Bytes) : Bytes := lines.flatMap (·++CRLF)

def print (r : Request) : Bytes := printLines (requestLine r::r.headers++[[]])

/-- The text on the two sides of the first separator. -/
def breakAt (separator : UInt8) : Bytes → Option (Bytes × Bytes)
  | [] => none
  | c::s => if c = separator then some ([],s) else (breakAt separator s).map fun p => (c::p.1,p.2)

/-- The lines of a text in which CR and LF occur only together. -/
def lines (current : Bytes) : Bytes → Option (List Bytes)
  | [] => if current = [] then some [] else none
  | c::s =>
      if c = 13 then
        match s with
        | 10::s => (lines [] s).map (current::·)
        | _ => none
      else if c = 10 then none
      else lines (current++[c]) s

/-- The header lines; an empty line ends them and the text. -/
def headerLines : List Bytes → Option (List Bytes)
  | [] => none
  | l::ls => if l = [] then (if ls = [] then some [] else none) else (headerLines ls).map (l::·)

def parseQuery (query : Bytes) : Option (List (Bytes × Bytes)) :=
  (query.splitOn 38).mapM (breakAt 61)

/-- A space or the start of a fragment ends a target early. -/
def parseLine (parseTarget : Bytes → Option (Bytes × List (Bytes × Bytes))) (line : Bytes)
    (headers : List Bytes) : Option Request := do
  let (method,line) ← breakAt 32 line
  let (target,version) ← breakAt 32 line
  if 32 ∈ version ∨ 35 ∈ target then none
  else
    let (path,params) ← parseTarget target
    some ⟨method,path,params,version,headers⟩

/-- The reader of a head, from one of targets. -/
def read (parseTarget : Bytes → Option (Bytes × List (Bytes × Bytes))) (s : Bytes) :
    Option Request := do
  match ← lines [] s with
  | [] => none
  | line::rest => parseLine parseTarget line (← headerLines rest)

def parseTarget (s : Bytes) : Option (Bytes × List (Bytes × Bytes)) := do
  let (path,query) ← breakAt 63 s
  let params ← parseQuery query
  some (path,params)

def parse (s : Bytes) : Option Request := read parseTarget s

/-- Free of the separators around it, and of line ends. -/
def Free (separators : Bytes) (s : Bytes) : Prop := ∀ c ∈ s, c ∉ separators

instance (separators s : Bytes) : Decidable (Free separators s) :=
  List.decidableBAll (fun c => c ∉ separators) s

/-- No part has a separator that ends it. -/
structure Readable (r : Request) : Prop where
  method : Free [13,10,32] r.method
  path : Free [13,10,32,35,63] r.path
  keys : ∀ p ∈ r.params, Free [13,10,32,35,38,61] p.1
  values : ∀ p ∈ r.params, Free [13,10,32,35,38] p.2
  version : Free [13,10,32] r.version
  headers : ∀ h ∈ r.headers, h ≠ [] ∧ Free [13,10] h

structure WellFormed (r : Request) : Prop extends Readable r where
  params : r.params ≠ []

@[simp] theorem free_nil (s : Bytes) : Free [] s := fun _ _ => List.not_mem_nil

@[simp] theorem free_cons {c : UInt8} {separators s : Bytes} :
    Free (c::separators) s ↔ c ∉ s ∧ Free separators s := by
  simp only [Free,List.mem_cons,not_or]
  constructor
  · exact fun h => ⟨fun hc => (h c hc).1 rfl,fun x hx => (h x hx).2⟩
  · rintro ⟨hc,h⟩ x hx
    refine ⟨?_,h x hx⟩
    rintro rfl
    exact hc hx

theorem breakAt_append {separator : UInt8} {left : Bytes} (h : separator ∉ left) (right : Bytes) :
    breakAt separator (left++separator::right) = some (left,right) := by
  induction left with
  | nil => simp [breakAt]
  | cons c left ih =>
      rw [List.mem_cons,not_or] at h
      rw [List.cons_append,breakAt,if_neg (Ne.symm h.1),ih h.2]
      rfl

theorem breakAt_eq_some {separator : UInt8} {s left right : Bytes} :
    breakAt separator s = some (left,right) ↔ separator ∉ left ∧ s = left++separator::right := by
  constructor
  · intro h
    induction s generalizing left with
    | nil => cases h
    | cons c s ih =>
        rw [breakAt] at h
        split_ifs at h with hc
        · cases h
          exact ⟨List.not_mem_nil,by rw [hc]; rfl⟩
        · obtain ⟨⟨left',right'⟩,hbreak,heq⟩ := Option.map_eq_some_iff.mp h
          cases heq
          obtain ⟨hmem,rfl⟩ := ih hbreak
          exact ⟨by rw [List.mem_cons,not_or]; exact ⟨Ne.symm hc,hmem⟩,rfl⟩
  · rintro ⟨hmem,rfl⟩
    exact breakAt_append hmem right

theorem lines_sound {current s : Bytes} {ls : List Bytes} (hfree : Free [13,10] current)
    (h : lines current s = some ls) :
    current++s = printLines ls ∧ ∀ l ∈ ls, Free [13,10] l := by
  fun_induction lines current s generalizing ls with
  | case1 => 
      cases h
      exact ⟨rfl,by simp⟩
  | case3 current s ih =>
      obtain ⟨ls,hls,rfl⟩ := Option.map_eq_some_iff.mp h
      obtain ⟨heq,hall⟩ := ih (by simp) hls
      refine ⟨?_,List.forall_mem_cons.mpr ⟨hfree,hall⟩⟩
      rw [printLines,List.flatMap_cons,← printLines,← heq]
      simp [CRLF]
  | case6 current c s hcr hlf ih =>
      obtain ⟨heq,hall⟩ := ih (by simp_all [eq_comm]) h
      exact ⟨by simpa using heq,hall⟩
  | case2 | case4 | case5 => cases h

theorem lines_append {l : Bytes} (hfree : Free [13,10] l) (current s : Bytes) :
    lines current (l++CRLF++s) = (lines [] s).map ((current++l)::·) := by
  induction l generalizing current with
  | nil => simp [CRLF,lines]
  | cons c l ih =>
      simp only [free_cons,List.mem_cons,not_or,free_nil,and_true] at hfree ih
      rw [List.cons_append,List.cons_append,lines.eq_def]
      dsimp only
      rw [if_neg (Ne.symm hfree.1.1),if_neg (Ne.symm hfree.2.1),ih ⟨hfree.1.2,hfree.2.2⟩]
      simp

theorem lines_eq_some {s : Bytes} {ls : List Bytes} :
    lines [] s = some ls ↔ s = printLines ls ∧ ∀ l ∈ ls, Free [13,10] l := by
  constructor
  · exact lines_sound (by simp)
  · rintro ⟨rfl,hall⟩
    induction ls with
    | nil => rfl
    | cons l ls ih =>
        rw [List.forall_mem_cons] at hall
        rw [printLines,List.flatMap_cons,← printLines,lines_append hall.1,ih hall.2]
        rfl

theorem headerLines_eq_some {ls headers : List Bytes} :
    headerLines ls = some headers ↔ ls = headers++[[]] ∧ ∀ h ∈ headers, h ≠ [] := by
  induction ls generalizing headers with
  | nil => simp [headerLines]
  | cons l ls ih =>
      cases headers with
      | nil =>
          by_cases hl : l = [] <;> simp [headerLines,hl]
      | cons h headers =>
          by_cases hl : l = []
          · subst hl
            simp only [headerLines,if_true,List.cons_append,List.cons.injEq,List.forall_mem_cons]
            constructor
            · intro heq
              split_ifs at heq
              cases heq
            · rintro ⟨⟨rfl,-⟩,hne,-⟩
              exact absurd rfl hne
          · simp only [headerLines,hl,if_false,Option.map_eq_some_iff,List.cons.injEq,
              List.cons_append,List.forall_mem_cons,ih]
            constructor
            · rintro ⟨headers,⟨rfl,hne⟩,rfl,rfl⟩
              exact ⟨⟨rfl,rfl⟩,hl,hne⟩
            · rintro ⟨⟨rfl,rfl⟩,-,hne⟩
              exact ⟨headers,⟨rfl,hne⟩,rfl,rfl⟩

theorem not_mem_of_mem_splitOn {c : UInt8} {s l : Bytes} (h : l ∈ s.splitOn c) : c ∉ l := by
  induction s generalizing l with
  | nil =>
      rw [List.splitOn_nil,List.mem_singleton] at h
      rw [h]
      exact List.not_mem_nil
  | cons x s ih =>
      rw [List.splitOn_cons_eq_if_modifyHead] at h
      split_ifs at h with hx
      · rcases List.mem_cons.mp h with rfl | h
        · exact List.not_mem_nil
        · exact ih h
      · cases hs : s.splitOn c with
        | nil => exact absurd hs (List.splitOn_ne_nil _ _)
        | cons first rest =>
            rw [hs] at h ih
            rcases List.mem_cons.mp h with rfl | h
            · rw [List.mem_cons,not_or]
              exact ⟨fun heq => hx (by simp [heq]),ih List.mem_cons_self⟩
            · exact ih (List.mem_cons_of_mem _ h)

theorem mapM_breakAt {parts : List Bytes} {params : List (Bytes × Bytes)} :
    parts.mapM (breakAt 61) = some params ↔
      parts = params.map printParam ∧ ∀ p ∈ params, 61 ∉ p.1 := by
  induction parts generalizing params with
  | nil => cases params <;> simp
  | cons part parts ih =>
      rw [List.mapM_cons]
      simp only [Option.bind_eq_bind,Option.bind_eq_some_iff,Option.pure_def,Option.some.injEq,ih]
      constructor
      · rintro ⟨p,hp,params,⟨rfl,hall⟩,rfl⟩
        obtain ⟨hkey,rfl⟩ := breakAt_eq_some.mp hp
        exact ⟨rfl,List.forall_mem_cons.mpr ⟨hkey,hall⟩⟩
      · rintro ⟨heq,hall⟩
        cases params with
        | nil => cases heq
        | cons p params =>
            cases heq
            rw [List.forall_mem_cons] at hall
            exact ⟨p,breakAt_append hall.1 _,params,⟨rfl,hall.2⟩,rfl⟩

theorem parseQuery_eq_some {query : Bytes} {params : List (Bytes × Bytes)} :
    parseQuery query = some params ↔ params ≠ [] ∧ query = printQuery params ∧
      ∀ p ∈ params, Free [38,61] p.1 ∧ Free [38] p.2 := by
  rw [parseQuery,mapM_breakAt]
  have hfree : ∀ p : Bytes × Bytes, 38 ∉ printParam p ↔ 38 ∉ p.1 ∧ 38 ∉ p.2 := by
    intro p
    simp [printParam]
  constructor
  · rintro ⟨hsplit,hkeys⟩
    refine ⟨?_,?_,fun p hp => ?_⟩
    · rintro rfl
      exact List.splitOn_ne_nil _ _ hsplit
    · rw [printQuery,← hsplit,List.intercalate_splitOn]
    · have hmem := not_mem_of_mem_splitOn (hsplit ▸ List.mem_map_of_mem hp)
      rw [hfree] at hmem
      simpa using ⟨⟨hmem.1,hkeys p hp⟩,hmem.2⟩
  · rintro ⟨hne,rfl,hall⟩
    refine ⟨?_,fun p hp => ?_⟩
    · refine List.splitOn_intercalate 38 ?_ (by simpa using hne)
      simp only [List.forall_mem_map]
      intro p hp
      have := hall p hp
      simp at this
      exact (hfree p).mpr ⟨this.1.1,this.2⟩
    · have := (hall p hp).1
      simp at this
      exact this.2

theorem not_mem_printQuery {c : UInt8} (hc : c ≠ 38) (hc' : c ≠ 61)
    {params : List (Bytes × Bytes)} :
    c ∉ printQuery params ↔ ∀ p ∈ params, c ∉ p.1 ∧ c ∉ p.2 := by
  induction params with
  | nil => simp [printQuery]
  | cons p params ih =>
      cases params with
      | nil => simp [printQuery,printParam,hc']
      | cons p' params =>
          have hcons : printQuery (p::p'::params) = printParam p++38::printQuery (p'::params) := by
            simp [printQuery,List.intercalate_cons_cons]
          rw [hcons,List.mem_append,List.mem_cons,not_or,not_or,ih,List.forall_mem_cons (l := p'::params)]
          simp [printParam,hc,hc']

/-- A reader of targets accepts what it prints, from parts without the separators. -/
structure Reads (parseTarget : Bytes → Option (Bytes × List (Bytes × Bytes)))
    (target : Bytes → List (Bytes × Bytes) → Bytes) (accepted : List (Bytes × Bytes) → Prop) :
    Prop where
  eq_some : ∀ s path params, parseTarget s = some (path,params) ↔
    s = target path params ∧ 63 ∉ path ∧ accepted params ∧
      ∀ p ∈ params, Free [38,61] p.1 ∧ Free [38] p.2
  not_mem : ∀ c : UInt8, c ≠ 63 → c ≠ 38 → c ≠ 61 → ∀ path params,
    c ∉ target path params ↔ c ∉ path ∧ ∀ p ∈ params, c ∉ p.1 ∧ c ∉ p.2

theorem reads_parseTarget :
    Reads parseTarget (fun path params => path++63::printQuery params) (· ≠ []) where
  eq_some := by
    intro s path params
    simp only [parseTarget,Option.bind_eq_bind,Option.bind_eq_some_iff,Prod.exists,breakAt_eq_some,
      Option.some.injEq,Prod.mk.injEq]
    constructor
    · rintro ⟨path,query,⟨hpath,rfl⟩,params,hquery,rfl,rfl⟩
      obtain ⟨hne,rfl,hall⟩ := parseQuery_eq_some.mp hquery
      exact ⟨rfl,hpath,hne,hall⟩
    · rintro ⟨rfl,hpath,hne,hall⟩
      exact ⟨path,_,⟨hpath,rfl⟩,params,parseQuery_eq_some.mpr ⟨hne,rfl,hall⟩,rfl,rfl⟩
  not_mem := by
    intro c h63 h38 h61 path params
    rw [List.mem_append,List.mem_cons,not_or,not_or,not_mem_printQuery h38 h61]
    simp [h63]

section
variable {parseTarget : Bytes → Option (Bytes × List (Bytes × Bytes))}
  {target : Bytes → List (Bytes × Bytes) → Bytes} {accepted : List (Bytes × Bytes) → Prop}
  {s line : Bytes} {headers : List Bytes} {r : Request}

/-- The separators of a target and around it. -/
def Parted (target : Bytes → List (Bytes × Bytes) → Bytes) (accepted : List (Bytes × Bytes) → Prop)
    (r : Request) : Prop :=
  32 ∉ r.method ∧ 32 ∉ r.version ∧ 32 ∉ target r.path r.params ∧ 35 ∉ target r.path r.params ∧
    63 ∉ r.path ∧ accepted r.params ∧ ∀ p ∈ r.params, Free [38,61] p.1 ∧ Free [38] p.2

/-- A line is read back when the separators in it are its own. -/
theorem Reads.parseLine_eq_some (h : Reads parseTarget target accepted) :
    parseLine parseTarget line headers = some r ↔
      (r.headers = headers ∧ line = r.method++32::target r.path r.params++32::r.version) ∧
        Parted target accepted r := by
  simp only [parseLine,Option.bind_eq_bind,Option.bind_eq_some_iff,Prod.exists,breakAt_eq_some]
  constructor
  · rintro ⟨method,_,⟨hmethod,rfl⟩,target',version,⟨htarget,rfl⟩,hread⟩
    split_ifs at hread with hsep
    obtain ⟨path,params,hparse,rfl⟩ := by
      simpa only [Option.bind_eq_some_iff,Prod.exists,Option.some.injEq] using hread
    obtain ⟨rfl,hpath,haccepted,hall⟩ := (h.eq_some _ _ _).mp hparse
    rw [not_or] at hsep
    exact ⟨⟨rfl,by rw [List.append_assoc]; rfl⟩,hmethod,hsep.1,htarget,hsep.2,hpath,haccepted,hall⟩
  · rintro ⟨⟨rfl,rfl⟩,hmethod,hversion,htarget,hfragment,hpath,haccepted,hall⟩
    refine ⟨_,_,⟨hmethod,by rw [List.append_assoc]; rfl⟩,_,_,⟨htarget,rfl⟩,?_⟩
    rw [if_neg (not_or.mpr ⟨hversion,hfragment⟩),(h.eq_some _ _ _).mpr ⟨rfl,hpath,haccepted,hall⟩,
      Option.bind_some]

/-- The separators line by line instead of part by part. -/
theorem Reads.readable_iff (h : Reads parseTarget target accepted) :
    Readable r ∧ accepted r.params ↔
      Free [13,10] (r.method++32::target r.path r.params++32::r.version) ∧
        Parted target accepted r ∧ ∀ h ∈ r.headers, h ≠ [] ∧ Free [13,10] h := by
  have hline : ∀ c : UInt8, c ≠ 32 →
      (c ∉ r.method++32::target r.path r.params++32::r.version ↔
        c ∉ r.method ∧ c ∉ target r.path r.params ∧ c ∉ r.version) := by
    intro c hc
    simp [hc]
  simp only [Parted,free_cons,free_nil,and_true,hline 13 (by decide),hline 10 (by decide),
    h.not_mem 13 (by decide) (by decide) (by decide),h.not_mem 10 (by decide) (by decide) (by decide),
    h.not_mem 32 (by decide) (by decide) (by decide),h.not_mem 35 (by decide) (by decide) (by decide)]
  constructor
  · rintro ⟨⟨hmethod,hpath,hkeys,hvalues,hversion,hheaders⟩,haccepted⟩
    simp only [free_cons,free_nil,and_true] at hmethod hpath hkeys hvalues hversion hheaders
    grind
  · rintro ⟨⟨⟨hm,⟨hp,hq⟩,hv⟩,hm',⟨hp',hq'⟩,hv'⟩,⟨hspace,hspace',⟨hpath,hquery⟩,⟨hpath',hquery'⟩,
      hquestion,haccepted,hall⟩,hheaders⟩
    refine ⟨⟨?_,?_,fun p hp => ?_,fun p hp => ?_,?_,fun h hh => ?_⟩,haccepted⟩
    all_goals simp only [free_cons,free_nil,and_true]
    · exact ⟨hm,hm',hspace⟩
    · exact ⟨‹_›,hp',hpath,hpath',hquestion⟩
    · exact ⟨(hq p hp).1,(hq' p hp).1,(hquery p hp).1,(hquery' p hp).1,(hall p hp).1⟩
    · exact ⟨(hq p hp).2,(hq' p hp).2,(hquery p hp).2,(hquery' p hp).2,(hall p hp).2⟩
    · exact ⟨hv,hv',hspace'⟩
    · exact hheaders h hh

/-- What is accepted is readable and prints as it was read. -/
theorem Reads.read_eq_some (h : Reads parseTarget target accepted) : read parseTarget s = some r ↔
    (Readable r ∧ accepted r.params) ∧ s = printLines
      ((r.method++32::target r.path r.params++32::r.version)::r.headers++[[]]) := by
  rw [h.readable_iff]
  simp only [read,Option.bind_eq_bind,Option.bind_eq_some_iff,lines_eq_some]
  constructor
  · rintro ⟨ls,⟨rfl,hall⟩,hread⟩
    cases ls with
    | nil => cases hread
    | cons line rest =>
        obtain ⟨headers,hheaders,hparse⟩ := Option.bind_eq_some_iff.mp hread
        obtain ⟨rfl,hne⟩ := headerLines_eq_some.mp hheaders
        obtain ⟨⟨rfl,rfl⟩,hparts⟩ := h.parseLine_eq_some.mp hparse
        rw [List.forall_mem_cons,List.forall_mem_append] at hall
        exact ⟨⟨hall.1,hparts,fun h hh => ⟨hne h hh,hall.2.1 h hh⟩⟩,rfl⟩
  · rintro ⟨⟨hline,hparts,hheaders⟩,rfl⟩
    refine ⟨_,⟨rfl,?_⟩,?_⟩
    · simp only [List.cons_append,List.forall_mem_cons,List.forall_mem_append]
      exact ⟨hline,fun h hh => (hheaders h hh).2,by simp,by simp⟩
    · dsimp only [List.cons_append]
      rw [headerLines_eq_some.mpr ⟨rfl,fun h hh => (hheaders h hh).1⟩,Option.bind_some]
      exact h.parseLine_eq_some.mpr ⟨⟨rfl,rfl⟩,hparts⟩

end

theorem wellFormed_iff {r : Request} : WellFormed r ↔ Readable r ∧ r.params ≠ [] :=
  ⟨fun h => ⟨h.toReadable,h.params⟩,fun h => ⟨h.1,h.2⟩⟩

/-- What is accepted is well formed and prints as it was read. -/
theorem parse_eq_some {s : Bytes} {r : Request} :
    parse s = some r ↔ WellFormed r ∧ s = print r := by
  rw [wellFormed_iff]
  exact reads_parseTarget.read_eq_some

end TownCrier.HttpMessage
