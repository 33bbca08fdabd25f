import TownCrier.HttpHead
import TownCrier.HttpMessage
import Mathlib.Data.Fintype.Basic

/-!
# Headers as servers write them

A status line, fields and an empty line. The parser reads the fields back, with the
names in lower case, exactly if no value ends in a comma: after a comma it takes
the next line for the rest of the list.
-/
namespace TownCrier.ResponseText
open BigEndian TinyHttp HttpHead HttpMessage

structure Field where
  name : Bytes
  blanks : Bytes
  value : Bytes

structure ResponseHead where
  version : Bytes
  status : Bytes
  reason : Bytes
  fields : List Field

def Field.print (f : Field) : Bytes := f.name++58::f.blanks++f.value++CRLF

def ResponseHead.print (r : ResponseHead) : Bytes :=
  r.version++32::r.status++32::r.reason++CRLF++r.fields.flatMap Field.print++CRLF

/-- No character that has another meaning where it stands. -/
structure Field.Proper (f : Field) : Prop where
  name : Free [9,10,13,32,44,58] f.name
  blanks : ∀ c ∈ f.blanks, c = 9 ∨ c = 32
  value : Free [10,13] f.value
  first : ∀ c, f.value.head? = some c → c ≠ 9 ∧ c ≠ 32

structure ResponseHead.Proper (r : ResponseHead) : Prop where
  version : Free [9,10,13,32] r.version
  status : Free [9,10,13,32,44,58] r.status
  reason : Free [10,13] r.reason
  fields : ∀ f ∈ r.fields, f.Proper

/-- The value ends in a comma which is not its first character, maybe with blanks after it. -/
def Field.Trailing (f : Field) : Prop :=
  ∃ c u w, f.value = c::(u++44::w) ∧ ∀ d ∈ w, d = 9 ∨ d = 32 ∨ d = 44

/-- What the parser makes of a field; the end of the line stands for an empty value. -/
def Field.read (f : Field) : Bytes × Bytes :=
  (f.name.map tolower,if f.value = [] then [13] else f.value)

def ResponseHead.read (r : ResponseHead) : Head := ⟨r.status,r.fields.map Field.read,[],[]⟩

/-- The table, by state and column. -/
def transition (state code : ℕ) : HeaderStatus × ℕ :=
  let newstate := httpHeaderState.getD (state*8+code) 0xC1
  (headerStatus newstate,(newstate &&& 0xF).toNat)

section Table
variable {state : ℕ} {c : UInt8}

theorem parseHeaderChar_eq (state : ℕ) (c : UInt8) :
    parseHeaderChar state c = transition state (headerCode c) := rfl

theorem headerCode_lt (c : UInt8) : headerCode c < 7 := by
  unfold headerCode
  split_ifs <;> omega

theorem headerCode_other (h : c ∉ [9,10,13,32,44,58]) : headerCode c = 0 := by
  simp only [List.mem_cons,List.not_mem_nil,or_false,not_or] at h
  obtain ⟨h9,h10,h13,h32,h44,h58⟩ := h
  rw [headerCode,if_neg h9,if_neg h10,if_neg h13,if_neg h32,if_neg h44,if_neg h58]

/-- The columns of the characters that a value can have. -/
theorem headerCode_value (h : c ∉ [10,13]) : headerCode c ≠ 2 ∧ headerCode c ≠ 3 := by
  simp only [List.mem_cons,List.not_mem_nil,or_false,not_or] at h
  unfold headerCode
  rw [if_neg h.1,if_neg h.2]
  split_ifs <;> decide

end Table

section Scan
variable {q : ℕ} {h h' : Head} {s rest : Bytes} {c : UInt8} {status : HeaderStatus}

theorem scan_cons {q' : ℕ} (hc : parseHeaderChar q c = (status,q')) (hne : status ≠ .done) :
    scan q h (c::s) = scan q' (h.take c status) s := by
  rw [scan,hc]
  exact if_neg hne

/-- A run over characters that do not change the state. -/
theorem scan_stay (hs : ∀ c ∈ s, parseHeaderChar q c = (status,q)) (hne : status ≠ .done)
    (rest : Bytes) :
    scan q h (s++rest) = scan q (s.foldl (fun h c => h.take c status) h) rest := by
  induction s generalizing h with
  | nil => rfl
  | cons c s ih =>
      rw [List.forall_mem_cons] at hs
      rw [List.cons_append,scan_cons hs.1 hne,ih hs.2]
      rfl

theorem foldl_status (s : Bytes) (h : Head) :
    s.foldl (fun h c => h.take c .codeCharacter) h = {h with status := h.status++s} := by
  induction s generalizing h with
  | nil => rw [List.append_nil]; rfl
  | cons c s ih => rw [List.foldl_cons,ih]; simp [Head.take]

theorem foldl_key (s : Bytes) (h : Head) :
    s.foldl (fun h c => h.take c .keyCharacter) h = {h with key := h.key++s.map tolower} := by
  induction s generalizing h with
  | nil => rw [List.map_nil,List.append_nil]; rfl
  | cons c s ih => rw [List.foldl_cons,ih]; simp [Head.take]

theorem foldl_idle (hidle : ∀ (h : Head) c, h.take c status = h) (s : Bytes) (h : Head) :
    s.foldl (fun h c => h.take c status) h = h := by
  induction s generalizing h with
  | nil => rfl
  | cons c s ih => rw [List.foldl_cons,hidle,ih]

/-- The state after a character of a value: 8 behind a comma. -/
def valueRow (q : ℕ) (c : UInt8) : ℕ := if c = 44 ∨ q = 8 ∧ (c = 9 ∨ c = 32) then 8 else 7

theorem valueRow_cases (q : ℕ) (c : UInt8) : valueRow q c = 7 ∨ valueRow q c = 8 := by
  unfold valueRow
  split_ifs
  · exact .inr rfl
  · exact .inl rfl

theorem parse_value (hq : q = 7 ∨ q = 8) (hc : c ∉ [10,13]) :
    parseHeaderChar q c = (.valueCharacter,valueRow q c) := by
  simp only [List.mem_cons,List.not_mem_nil,or_false,not_or] at hc
  rw [parseHeaderChar_eq]
  by_cases h9 : c = 9
  · rcases hq with rfl | rfl <;> subst h9 <;> decide
  by_cases h32 : c = 32
  · rcases hq with rfl | rfl <;> subst h32 <;> decide
  by_cases h44 : c = 44
  · rcases hq with rfl | rfl <;> subst h44 <;> decide
  by_cases h58 : c = 58
  · rcases hq with rfl | rfl <;> subst h58 <;> decide
  · rw [headerCode_other (by simp [*]),valueRow,if_neg (by simp [*])]
    rcases hq with rfl | rfl <;> decide

theorem scan_value (hq : q = 7 ∨ q = 8) (hs : Free [10,13] s) (rest : Bytes) :
    scan q h (s++rest) = scan (s.foldl valueRow q) {h with value := h.value++s} rest := by
  induction s generalizing q h with
  | nil => rw [List.append_nil]; rfl
  | cons c s ih =>
      have hc := parse_value hq (hs c List.mem_cons_self)
      rw [List.cons_append,scan_cons hc (by decide),ih (valueRow_cases q c)
        fun d hd => hs d (List.mem_cons_of_mem c hd)]
      simp [Head.take]

theorem foldl_valueRow_cases (s : Bytes) (hq : q = 7 ∨ q = 8) :
    s.foldl valueRow q = 7 ∨ s.foldl valueRow q = 8 := by
  induction s generalizing q with
  | nil => exact hq
  | cons c s ih => exact ih (valueRow_cases q c)

/-- Behind a comma are those values that end in one. -/
theorem foldl_valueRow_eq_eight (s : Bytes) : s.foldl valueRow 7 = 8 ↔
    ∃ u w, s = u++44::w ∧ ∀ c ∈ w, c = 9 ∨ c = 32 ∨ c = 44 := by
  induction s using List.reverseRecOn with
  | nil => simp
  | append_singleton s c ih =>
      have hrow : valueRow (s.foldl valueRow 7) c = 8 ↔
          c = 44 ∨ s.foldl valueRow 7 = 8 ∧ (c = 9 ∨ c = 32) := by
        unfold valueRow
        split_ifs with h
        · exact iff_of_true rfl h
        · exact iff_of_false (by decide) h
      rw [List.foldl_append,List.foldl_cons,List.foldl_nil,hrow,ih]
      constructor
      · rintro (rfl | ⟨⟨u,w,rfl,hw⟩,hc⟩)
        · exact ⟨s,[],rfl,by simp⟩
        · refine ⟨u,w++[c],by simp,fun d hd => ?_⟩
          rcases List.mem_append.mp hd with hd | hd
          · exact hw d hd
          · rw [List.mem_singleton.mp hd]
            exact hc.imp_right .inl
      · rintro ⟨u,w,hs,hw⟩
        rcases List.eq_nil_or_concat' w with rfl | ⟨w,d,rfl⟩
        · obtain ⟨-,hc⟩ := List.append_inj' hs rfl
          exact .inl (List.cons.inj hc).1
        · rw [← List.cons_append,← List.append_assoc] at hs
          obtain ⟨rfl,hd⟩ := List.append_inj' hs rfl
          cases hd
          have hw' : ∃ u' w', u++44::w = u'++44::w' ∧ ∀ c ∈ w', c = 9 ∨ c = 32 ∨ c = 44 :=
            ⟨u,w,rfl,fun d hd => hw d (List.mem_append_left _ hd)⟩
          rcases hw c (by simp) with h | h | h
          · exact .inr ⟨hw',.inl h⟩
          · exact .inr ⟨hw',.inr h⟩
          · exact .inl h

theorem Field.print_append (f : Field) (rest : Bytes) :
    f.print++rest = f.name++58::f.blanks++(f.value++13::10::rest) := by
  simp [Field.print,CRLF]

/-- A field up to its value. -/
theorem scan_name {f : Field} (hf : f.Proper) (rest : Bytes) :
    scan 4 h (f.name++58::f.blanks++rest) = scan 6 {h with key := h.key++f.name.map tolower} rest := by
  have hname : ∀ c ∈ f.name, parseHeaderChar 4 c = (.keyCharacter,4) := by
    intro c hc
    rw [parseHeaderChar_eq,headerCode_other (hf.name c hc)]
    rfl
  have hblanks : ∀ c ∈ f.blanks, parseHeaderChar 6 c = (.goOn,6) := by
    intro c hc
    rcases hf.blanks c hc with rfl | rfl <;> rfl
  rw [List.append_assoc,scan_stay hname (by decide),foldl_key,List.cons_append,
    scan_cons (show parseHeaderChar 4 58 = (.goOn,6) from rfl) (by decide),scan_stay hblanks (by decide),
    foldl_idle (fun _ _ => rfl)]
  rfl

/-- The first character of a value. -/
theorem parse_first (hc : c ∉ [10,13]) (h9 : c ≠ 9) (h32 : c ≠ 32) :
    parseHeaderChar 6 c = (.valueCharacter,7) := by
  simp only [List.mem_cons,List.not_mem_nil,or_false,not_or] at hc
  rw [parseHeaderChar_eq]
  by_cases h44 : c = 44
  · subst h44
    rfl
  by_cases h58 : c = 58
  · subst h58
    rfl
  · rw [headerCode_other (by simp [*])]
    rfl

/-- A value that is not empty, up to the end of its line. -/
theorem scan_text {f : Field} (hf : f.Proper) (hne : f.value ≠ []) (rest : Bytes) :
    scan 6 h (f.value++rest) =
      scan (f.value.tail.foldl valueRow 7) {h with value := h.value++f.value} rest := by
  obtain ⟨c,s,hcs⟩ := List.exists_cons_of_ne_nil hne
  have hvalue := hf.value
  obtain ⟨h9,h32⟩ := hf.first c (by rw [hcs]; rfl)
  rw [hcs] at hvalue ⊢
  rw [List.cons_append,scan_cons (parse_first (hvalue c List.mem_cons_self) h9 h32) (by decide),
    scan_value (.inl rfl) fun d hd => hvalue d (List.mem_cons_of_mem c hd)]
  simp [Head.take]

theorem Field.Trailing.value_ne_nil {f : Field} (h : f.Trailing) : f.value ≠ [] := by
  obtain ⟨c,u,w,heq,-⟩ := h
  rw [heq]
  exact List.cons_ne_nil _ _

theorem trailing_iff {f : Field} (hne : f.value ≠ []) :
    f.Trailing ↔ f.value.tail.foldl valueRow 7 = 8 := by
  obtain ⟨c,s,hcs⟩ := List.exists_cons_of_ne_nil hne
  rw [foldl_valueRow_eq_eight,Field.Trailing,hcs,List.tail_cons]
  constructor
  · rintro ⟨_,u,w,⟨⟩,hw⟩
    exact ⟨u,w,rfl,hw⟩
  · rintro ⟨u,w,rfl,hw⟩
    exact ⟨c,u,w,rfl,hw⟩

/-- A field that does not end in a comma is stored. -/
theorem scan_field {f : Field} (hf : f.Proper) (hclosed : ¬f.Trailing) (hkey : h.key = [])
    (hvalue : h.value = []) (rest : Bytes) :
    scan 4 h (f.print++rest) = scan 4 {h with fields := h.fields++[f.read]} rest := by
  rw [f.print_append,scan_name hf]
  by_cases hne : f.value = []
  · rw [hne,List.nil_append,scan_cons (show parseHeaderChar 6 13 = (.valueCharacter,7) from rfl) (by decide),
      scan_cons (show parseHeaderChar 7 10 = (.storeKeyvalue,4) from rfl) (by decide)]
    simp [Head.take,Field.read,hne,hkey,hvalue]
  · have hrow : f.value.tail.foldl valueRow 7 = 7 :=
      (foldl_valueRow_cases _ (.inl rfl)).resolve_right fun h => hclosed ((trailing_iff hne).mpr h)
    rw [scan_text hf hne,hrow,scan_cons (show parseHeaderChar 7 13 = (.goOn,10) from rfl) (by decide),
      scan_cons (show parseHeaderChar 10 10 = (.storeKeyvalue,4) from rfl) (by decide)]
    simp [Head.take,Field.read,hne,hkey,hvalue]

/-- After a comma the line goes on. -/
theorem scan_trailing {f : Field} (hf : f.Proper) (htrailing : f.Trailing) (hkey : h.key = [])
    (hvalue : h.value = []) (rest : Bytes) : scan 4 h (f.print++rest) =
      scan 6 {h with key := f.name.map tolower, value := f.value} rest := by
  have hne := htrailing.value_ne_nil
  rw [f.print_append,scan_name hf,scan_text hf hne,(trailing_iff hne).mp htrailing,
    scan_cons (show parseHeaderChar 8 13 = (.goOn,9) from rfl) (by decide),
    scan_cons (show parseHeaderChar 9 10 = (.goOn,6) from rfl) (by decide)]
  simp [Head.take,hkey,hvalue]

end Scan

/-- What the rest of a header adds: outside of a value it only adds fields, and
inside it first completes the field. -/
structure Extends (q : ℕ) (h h' : Head) : Prop where
  status : h.status <+: h'.status
  outside : q ≤ 5 → h.fields <+: h'.fields
  inside : 6 ≤ q → ∃ w more, h'.fields = h.fields++(h.key,h.value++w)::more ∧
    (q = 6 ∨ q = 9 → w ≠ [])

section Extension
variable {h h' : Head} {s rest : Bytes} {c : UInt8} {q : ℕ}

/-- What a character can do, by the place of the state. -/
theorem transition_cases : ∀ (q : Fin 11) (k : Fin 7),
    (transition q k).1 = .done ∧ ((transition q k).2 = 0 → q.val ≤ 5) ∨
    q.val ≤ 5 ∧ (transition q k).2 ≤ 6 ∧ (transition q k).1 ≠ .done ∧
      (transition q k).1 ≠ .storeKeyvalue ∧ (transition q k).1 ≠ .valueCharacter ∨
    6 ≤ q.val ∧ 7 ≤ (transition q k).2 ∧ (transition q k).2 ≤ 8 ∧
      (transition q k).1 = .valueCharacter ∨
    6 ≤ q.val ∧ 6 ≤ (transition q k).2 ∧ (transition q k).2 ≤ 10 ∧
      (q.val = 6 ∨ q.val = 9 → (transition q k).2 = 6) ∧ (transition q k).1 = .goOn ∨
    6 ≤ q.val ∧ (transition q k).2 = 4 ∧ ¬(q.val = 6 ∨ q.val = 9) ∧
      (transition q k).1 = .storeKeyvalue := by
  decide

theorem scan_extends (hq : q ≤ 10) (hscan : scan q h s = some (h',rest)) : Extends q h h' := by
  induction s generalizing q h with
  | nil => cases hscan
  | cons c s ih =>
      have hcases := transition_cases ⟨q,by omega⟩ ⟨headerCode c,headerCode_lt c⟩
      dsimp only at hcases
      rw [scan,parseHeaderChar_eq] at hscan
      generalize transition q (headerCode c) = step at hcases hscan
      obtain ⟨status,next⟩ := step
      dsimp only at hcases hscan
      obtain ⟨rfl,hzero⟩ | ⟨houtside,hnext,hdone,hstore,hchar⟩ | ⟨hinside,hlow,hhigh,rfl⟩ |
        ⟨hinside,hlow,hhigh,hblank,rfl⟩ | ⟨hinside,rfl,hblank,rfl⟩ := hcases
      · rw [if_pos rfl] at hscan
        split_ifs at hscan with h0
        cases hscan
        have := hzero h0
        exact ⟨List.prefix_rfl,fun _ => List.prefix_rfl,fun h => by omega⟩
      · rw [if_neg hdone] at hscan
        obtain ⟨hstatus,hfields,hfield⟩ := ih (by omega) hscan
        have hkept : (h.take c status).fields = h.fields ∧ h.status <+: (h.take c status).status := by
          cases status with
          | done => exact absurd rfl hdone
          | storeKeyvalue => exact absurd rfl hstore
          | valueCharacter => exact absurd rfl hchar
          | codeCharacter => exact ⟨rfl,List.prefix_append _ _⟩
          | goOn | versionCharacter | statusCharacter | keyCharacter => exact ⟨rfl,List.prefix_rfl⟩
        refine ⟨hkept.2.trans hstatus,fun _ => ?_,fun h => by omega⟩
        rw [← hkept.1]
        by_cases h5 : next ≤ 5
        · exact hfields h5
        · obtain ⟨w,more,hmore,-⟩ := hfield (by omega)
          rw [hmore]
          exact List.prefix_append _ _
      · rw [if_neg (show HeaderStatus.valueCharacter ≠ .done by decide)] at hscan
        obtain ⟨hstatus,-,hfield⟩ := ih (by omega) hscan
        obtain ⟨w,more,hmore,-⟩ := hfield (by omega)
        refine ⟨hstatus,fun h => by omega,fun _ => ⟨c::w,more,?_,fun _ => List.cons_ne_nil c w⟩⟩
        rw [hmore]
        simp [Head.take]
      · rw [if_neg (show HeaderStatus.goOn ≠ .done by decide)] at hscan
        obtain ⟨hstatus,-,hfield⟩ := ih (by omega) hscan
        obtain ⟨w,more,hmore,hw⟩ := hfield (by omega)
        exact ⟨hstatus,fun h => by omega,fun _ => ⟨w,more,hmore,fun h => hw (.inl (hblank h))⟩⟩
      · rw [if_neg (show HeaderStatus.storeKeyvalue ≠ .done by decide)] at hscan
        obtain ⟨hstatus,hfields,-⟩ := ih (by omega) hscan
        obtain ⟨more,hmore⟩ := hfields (by omega)
        refine ⟨hstatus,fun h => by omega,fun _ => ⟨[],more,?_,fun h => absurd h hblank⟩⟩
        rw [← hmore]
        simp [Head.take]

/-- The fields are read as they are printed exactly if none ends in a comma. -/
theorem scan_fields_iff {fields : List Field} (hf : ∀ f ∈ fields, f.Proper) (hkey : h.key = [])
    (hvalue : h.value = []) : scan 4 h (fields.flatMap Field.print++CRLF++rest) =
      some ({h with fields := h.fields++fields.map Field.read},rest) ↔
        ∀ f ∈ fields, ¬f.Trailing := by
  induction fields generalizing h with
  | nil =>
      have hend : scan 4 h (CRLF++rest) = some (h,rest) := by
        rw [CRLF,List.cons_append,scan_cons (show parseHeaderChar 4 13 = (.goOn,5) from rfl) (by decide)]
        rfl
      rw [List.flatMap_nil,List.nil_append,hend]
      simp
  | cons f fields ih =>
      rw [List.forall_mem_cons] at hf ⊢
      rw [List.flatMap_cons,List.append_assoc,List.append_assoc,List.map_cons]
      by_cases htrailing : f.Trailing
      · refine iff_of_false (fun hscan => ?_) (fun hall => hall.1 htrailing)
        rw [scan_trailing hf.1 htrailing hkey hvalue] at hscan
        obtain ⟨w,more,hmore,hw⟩ := (scan_extends (by omega) hscan).inside le_rfl
        have hread : f.read = (f.name.map tolower,f.value++w) :=
          (List.cons.inj (List.append_cancel_left hmore)).1
        rw [Field.read,if_neg htrailing.value_ne_nil,Prod.mk.injEq] at hread
        exact hw (.inl rfl) (List.self_eq_append_right.mp hread.2)
      · rw [scan_field hf.1 htrailing hkey hvalue,← List.append_assoc]
        have hnext := ih (h := {h with fields := h.fields++[f.read]}) hf.2 hkey hvalue
        rw [List.append_cons h.fields f.read (fields.map Field.read)]
        exact hnext.trans (and_iff_right htrailing).symm

end Extension

theorem ResponseHead.Proper.version_row {r : ResponseHead} (h : r.Proper) :
    ∀ c ∈ r.version, parseHeaderChar 0 c = (.versionCharacter,0) := by
  intro c hc
  have hfree := h.version c hc
  rw [parseHeaderChar_eq]
  by_cases h44 : c = 44
  · subst h44
    rfl
  by_cases h58 : c = 58
  · subst h58
    rfl
  · rw [headerCode_other (by simp_all)]
    rfl

theorem ResponseHead.Proper.reason_row {r : ResponseHead} (h : r.Proper) :
    ∀ c ∈ r.reason, parseHeaderChar 2 c = (.statusCharacter,2) := by
  intro c hc
  have hrow : ∀ k : Fin 7, k.val ≠ 2 ∧ k.val ≠ 3 → transition 2 k = (.statusCharacter,2) := by decide
  exact hrow ⟨headerCode c,headerCode_lt c⟩ (headerCode_value (h.reason c hc))

/-- A printed header is read back, with the names in lower case, exactly if none of
its values ends in a comma. -/
theorem scan_print_iff {r : ResponseHead} (h : r.Proper) (rest : Bytes) :
    scan 0 .empty (r.print++rest) = some (r.read,rest) ↔ ∀ f ∈ r.fields, ¬f.Trailing := by
  have hstatus : ∀ c ∈ r.status, parseHeaderChar 1 c = (.codeCharacter,1) := by
    intro c hc
    rw [parseHeaderChar_eq,headerCode_other (h.status c hc)]
    rfl
  have hprint : r.print++rest = r.version++(32::(r.status++(32::(r.reason++
      (13::10::(r.fields.flatMap Field.print++CRLF++rest)))))) := by
    simp [ResponseHead.print,CRLF]
  rw [hprint,scan_stay h.version_row (by decide),foldl_idle (fun _ _ => rfl),
    scan_cons (show parseHeaderChar 0 32 = (.goOn,1) from rfl) (by decide),scan_stay hstatus (by decide),
    foldl_status,scan_cons (show parseHeaderChar 1 32 = (.goOn,2) from rfl) (by decide),
    scan_stay h.reason_row (by decide),foldl_idle (fun _ _ => rfl),
    scan_cons (show parseHeaderChar 2 13 = (.goOn,3) from rfl) (by decide),
    scan_cons (show parseHeaderChar 3 10 = (.goOn,4) from rfl) (by decide)]
  exact scan_fields_iff h.fields rfl rfl

end TownCrier.ResponseText
