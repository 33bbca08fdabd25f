import TownCrier.HttpMessage

/-!
# Requests with or without a query

The head of an HTTP request without a body whose target is a path, or a path and the
parameters of a query. `parse` accepts exactly what `print` writes for requests
whose parts are free of the separators around them.
-/
namespace TownCrier.RequestText
open BigEndian HttpMessage

/-- Without parameters there is no question mark either. -/
def target (path : Bytes) (params : List (Bytes × Bytes)) : Bytes :=
  if params = [] then path else path++63::printQuery params

def print (r : Request) : Bytes :=
  printLines ((r.method++32::target r.path r.params++32::r.version)::r.headers++[[]])

def parseTarget (s : Bytes) : Option (Bytes × List (Bytes × Bytes)) :=
  match breakAt 63 s with
  | none => some (s,[])
  | some (path,query) => (parseQuery query).map fun params => (path,params)

def parse (s : Bytes) : Option Request := read parseTarget s

section
variable {s path : Bytes} {params : List (Bytes × Bytes)} {r : Request}

theorem target_of_params (h : params ≠ []) : target path params = path++63::printQuery params :=
  if_neg h

theorem breakAt_eq_none {separator : UInt8} : breakAt separator s = none ↔ separator ∉ s := by
  induction s with
  | nil => simp [breakAt]
  | cons c s ih =>
      rw [breakAt,List.mem_cons,not_or]
      split_ifs with hc
      · simp [hc]
      · rw [Option.map_eq_none_iff,ih]
        exact (and_iff_right (Ne.symm hc)).symm

theorem parseTarget_eq_some : parseTarget s = some (path,params) ↔
    s = target path params ∧ 63 ∉ path ∧ ∀ p ∈ params, Free [38,61] p.1 ∧ Free [38] p.2 := by
  unfold parseTarget target
  cases hbreak : breakAt 63 s with
  | none =>
      have hnone := breakAt_eq_none.mp hbreak
      constructor
      · rintro ⟨⟩
        exact ⟨rfl,hnone,by simp⟩
      · rintro ⟨hs,hpath,-⟩
        split_ifs at hs with hparams
        · rw [hs,hparams]
        · rw [hs] at hnone
          simp at hnone
  | some p =>
      obtain ⟨left,right⟩ := p
      obtain ⟨hleft,hs⟩ := breakAt_eq_some.mp hbreak
      dsimp only
      rw [Option.map_eq_some_iff]
      constructor
      · rintro ⟨params',hquery,heq⟩
        cases heq
        obtain ⟨hne,rfl,hall⟩ := parseQuery_eq_some.mp hquery
        exact ⟨by rw [if_neg hne]; exact hs,hleft,hall⟩
      · rintro ⟨htarget,hpath,hall⟩
        split_ifs at htarget with hparams
        · rw [← htarget,hs] at hpath
          simp at hpath
        · have heq := (breakAt_append hpath (printQuery params)).symm.trans (htarget ▸ hbreak)
          cases heq
          exact ⟨params,parseQuery_eq_some.mpr ⟨hparams,rfl,hall⟩,rfl⟩

theorem reads_parseTarget : Reads parseTarget target fun _ => True where
  eq_some := by
    intro s path params
    rw [parseTarget_eq_some,true_and]
  not_mem := by
    intro c h63 h38 h61 path params
    unfold target
    split_ifs with hparams
    · simp [hparams]
    · rw [List.mem_append,List.mem_cons,not_or,not_or,not_mem_printQuery h38 h61]
      simp [h63]

/-- What is accepted is readable and prints as it was read. -/
theorem parse_eq_some : parse s = some r ↔ Readable r ∧ s = print r := by
  refine reads_parseTarget.read_eq_some.trans ?_
  rw [and_true]
  rfl

/-- With parameters the two readers agree. -/
theorem parse_iff_of_params (hparams : r.params ≠ []) :
    parse s = some r ↔ HttpMessage.parse s = some r := by
  have hprint : print r = HttpMessage.print r := by
    rw [print,target_of_params hparams]
    rfl
  rw [parse_eq_some,HttpMessage.parse_eq_some,hprint,wellFormed_iff,and_iff_left hparams]

end
end TownCrier.RequestText
