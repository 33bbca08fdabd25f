import TownCrier.Numerals

/-!
# The JSON parser of the enclave

`picojson.h`: values, access to them, and the recursive descent parser. It takes
a prefix of its input and leaves a value behind even when it reports an error.
An access with the wrong type throws; parsing throws only on a number that
overflows.
-/
namespace TownCrier.PicoJson
open BigEndian Cpp Numerals

/-- The latest entry of an object comes first; lookups see only that one. -/
inductive Value where
  | null
  | boolean (b : Bool)
  | number (d : ℚ)
  | string (s : Bytes)
  | array (items : List Value)
  | object (fields : List (Bytes × Value))

namespace Value

def isObject : Value → Bool
  | .object _ => true
  | _ => false

def asObject : Value → Exec (List (Bytes × Value))
  | .object fields => pure fields
  | _ => raise .runtimeError

def asString : Value → Exec Bytes
  | .string s => pure s
  | _ => raise .runtimeError

def asNumber : Value → Exec ℚ
  | .number d => pure d
  | _ => raise .runtimeError

/-- `get(key)`: a missing key gives null. -/
def get (v : Value) (key : String) : Exec Value := do
  return ((← v.asObject).lookup (ascii key)).getD .null

def contains (v : Value) (key : String) : Exec Bool := do
  return ((← v.asObject).lookup (ascii key)).isSome

def evaluateAsBoolean : Value → Bool
  | .null => false
  | .boolean b => b
  | .number d => d ≠ 0
  | .string s => s ≠ []
  | _ => true

@[simp] theorem asObject_object (fields : List (Bytes × Value)) :
    (object fields).asObject = .ok fields := rfl
@[simp] theorem get_object (fields : List (Bytes × Value)) (key : String) :
    (object fields).get key = .ok ((fields.lookup (ascii key)).getD .null) := rfl
@[simp] theorem contains_object (fields : List (Bytes × Value)) (key : String) :
    (object fields).contains key = .ok (fields.lookup (ascii key)).isSome := rfl
@[simp] theorem isObject_object (fields : List (Bytes × Value)) :
    (object fields).isObject = true := rfl

@[simp] theorem get_null (key : String) : null.get key = raise .runtimeError := rfl

theorem asObject_of_not {v : Value} (h : v.isObject = false) : v.asObject = raise .runtimeError := by
  cases v <;> first | rfl | cases h

theorem asNumber_or (v : Value) : (∃ d, v = .number d) ∨ v.asNumber = raise .runtimeError := by
  cases v with
  | number d => exact .inl ⟨d,rfl⟩
  | _ => exact .inr rfl

@[simp] theorem asNumber_number (d : ℚ) : (number d).asNumber = .ok d := rfl

theorem get_of_not {v : Value} (h : v.isObject = false) (key : String) :
    v.get key = raise .runtimeError := by
  rw [get,asObject_of_not h]
  rfl

/-- An object, with its fields, or something else. -/
theorem object_or (v : Value) : (∃ fields, v = .object fields) ∨ v.isObject = false := by
  cases v with
  | object fields => exact .inl ⟨fields,rfl⟩
  | _ => exact .inr rfl

theorem get_or (v : Value) (key : String) :
    (∃ x, v.get key = .ok x) ∨ v.get key = raise .runtimeError := by
  obtain ⟨fields,rfl⟩ | h := v.object_or
  · exact .inl ⟨_,rfl⟩
  · exact .inr (get_of_not h key)

theorem get_get_or (v : Value) (key key' : String) :
    (∃ x, (do (← v.get key).get key') = .ok x) ∨
      (do (← v.get key).get key') = raise .runtimeError := by
  obtain ⟨x,hx⟩ | hx := v.get_or key
  · rw [hx,bind_ok]
    exact x.get_or key'
  · rw [hx]
    exact .inr rfl

end Value

/-- The outcome of a parsing step, with what it has written so far. -/
inductive Reply (A : Type) where
  | success (a : A) (rest : Bytes)
  | failure (a : A)

def Reply.map {A B : Type} (f : A → B) : Reply A → Reply B
  | .success a rest => .success (f a) rest
  | .failure a => .failure (f a)

def skipWs (s : Bytes) : Bytes := s.dropWhile fun c => c = 32 ∨ c = 9 ∨ c = 10 ∨ c = 13

def expect (c : UInt8) (s : Bytes) : Option Bytes :=
  match skipWs s with
  | x::rest => if x = c then some rest else none
  | [] => none

/-- `match`: the rest of a literal. -/
def matchPattern : Bytes → Bytes → Option Bytes
  | [], s => some s
  | p::ps, x::s => if x = p then matchPattern ps s else none
  | _::_, [] => none

def quadhex : Bytes → Option (ℕ × Bytes)
  | a::b::c::d::rest => do
      return (number 16 [← digitValue 16 a,← digitValue 16 b,← digitValue 16 c,← digitValue 16 d],rest)
  | _ => none

def utf8 (n : ℕ) : Bytes :=
  if n < 0x80 then [.ofNat n]
  else if n < 0x800 then [.ofNat (0xc0 ||| n >>> 6),.ofNat (0x80 ||| n &&& 0x3f)]
  else if n < 0x10000 then
    [.ofNat (0xe0 ||| n >>> 12),.ofNat (0x80 ||| n >>> 6 &&& 0x3f),.ofNat (0x80 ||| n &&& 0x3f)]
  else
    [.ofNat (0xf0 ||| n >>> 18),.ofNat (0x80 ||| n >>> 12 &&& 0x3f),
      .ofNat (0x80 ||| n >>> 6 &&& 0x3f),.ofNat (0x80 ||| n &&& 0x3f)]

/-- What follows `\u`, in UTF-8; a surrogate needs its other half. -/
def codepoint (s : Bytes) : Option (Bytes × Bytes) := do
  let (n,rest) ← quadhex s
  if 0xd800 ≤ n ∧ n ≤ 0xdfff then
    if 0xdc00 ≤ n then none
    else
      let (second,rest) ← quadhex (← matchPattern (ascii "\\u") rest)
      if 0xdc00 ≤ second ∧ second ≤ 0xdfff then
        some (utf8 (((n-0xd800) <<< 10 ||| (second-0xdc00) &&& 0x3ff)+0x10000),rest)
      else none
  else some (utf8 n,rest)

/-- The character after a backslash other than `u`. -/
def escape (c : UInt8) : Option UInt8 :=
  if c = 34 ∨ c = 92 ∨ c = 47 then some c
  else if c = 98 then some 8
  else if c = 102 then some 12
  else if c = 110 then some 10
  else if c = 114 then some 13
  else if c = 116 then some 9
  else none

/-- What follows a backslash: the characters it stands for, and the rest. -/
def parseEscape : Bytes → Option (Bytes × Bytes)
  | [] => none
  | c::s => if c = 117 then codepoint s else (escape c).map fun x => ([x],s)

/-- The first argument bounds the number of turns; every turn takes a character. -/
def parseString : ℕ → Bytes → Bytes → Reply Bytes
  | 0, out, _ => .failure out
  | _+1, out, [] => .failure out
  | fuel+1, out, c::s =>
      if c < 32 then .failure out
      else if c = 34 then .success out s
      else if c = 92 then
        match parseEscape s with
        | some (cs,rest) => parseString fuel (out++cs) rest
        | none => .failure out
      else parseString fuel (out++[c]) s

/-- The loop of `_parse_array`, where `p` parses an item. -/
def parseItems (p : Value → Bytes → Exec (Reply Value)) :
    ℕ → List Value → Bytes → Exec (Reply (List Value))
  | 0, items, _ => pure (.failure items)
  | fuel+1, items, s => do
      match ← p .null s with
      | .failure v => pure (.failure (items++[v]))
      | .success v s =>
          match expect 44 s with
          | some s => parseItems p fuel (items++[v]) s
          | none =>
              match expect 93 s with
              | some s => pure (.success (items++[v]) s)
              | none => pure (.failure (items++[v]))

/-- The loop of `_parse_object`. A repeated key is parsed over its old value. -/
def parseMembers (p : Value → Bytes → Exec (Reply Value)) :
    ℕ → List (Bytes × Value) → Bytes → Exec (Reply (List (Bytes × Value)))
  | 0, fields, _ => pure (.failure fields)
  | fuel+1, fields, s =>
      match (expect 34 s).map fun s => parseString s.length [] s with
      | some (.success key s) =>
          match expect 58 s with
          | some s => do
              match ← p ((fields.lookup key).getD .null) s with
              | .failure v => pure (.failure ((key,v)::fields))
              | .success v s =>
                  match expect 44 s with
                  | some s => parseMembers p fuel ((key,v)::fields) s
                  | none =>
                      match expect 125 s with
                      | some s => pure (.success ((key,v)::fields) s)
                      | none => pure (.failure ((key,v)::fields))
          | none => pure (.failure fields)
      | _ => pure (.failure fields)

def numberChar (c : UInt8) : Bool :=
  48 ≤ c ∧ c ≤ 57 ∨ c = 43 ∨ c = 45 ∨ c = 101 ∨ c = 69 ∨ c = 46

def literal (text : String) (v old : Value) (s : Bytes) : Reply Value :=
  match matchPattern (ascii text) s with
  | some rest => .success v rest
  | none => .failure old

/-- The value under construction starts out as `old`. The first argument bounds
the depth, which the length of the input does as well. -/
def parseValue : ℕ → Value → Bytes → Exec (Reply Value)
  | 0, old, _ => pure (.failure old)
  | fuel+1, old, s =>
      match skipWs s with
      | [] => pure (.failure old)
      | c::s =>
          if c = 110 then pure (literal "ull" .null old s)
          else if c = 102 then pure (literal "alse" (.boolean false) old s)
          else if c = 116 then pure (literal "rue" (.boolean true) old s)
          else if c = 34 then pure ((parseString s.length [] s).map Value.string)
          else if c = 91 then
            match expect 93 s with
            | some s => pure (.success (.array []) s)
            | none => do return (← parseItems (parseValue fuel) (s.length+1) [] s).map Value.array
          else if c = 123 then
            match expect 125 s with
            | some s => pure (.success (.object []) s)
            | none => do return (← parseMembers (parseValue fuel) (s.length+1) [] s).map Value.object
          else if 48 ≤ c ∧ c ≤ 57 ∨ c = 45 then
            match strtod ((c::s).takeWhile numberChar) with
            | (.finite d,[]) => pure (.success (.number d) ((c::s).dropWhile numberChar))
            | (_,[]) => raise .overflowError
            | _ => pure (.failure old)
          else pure (.failure old)

/-- What `parse` leaves behind; `malformed` when the error text is not empty. -/
inductive Document where
  | parsed (v : Value)
  | malformed (v : Value)

def parse (s : Bytes) : Exec Document := do
  match ← parseValue (s.length+1) .null s with
  | .success v _ => pure (.parsed v)
  | .failure v => pure (.malformed v)

/-!
### The bounds are never reached

A step that succeeds leaves less input than it found, so the length of the input
bounds the turns of every loop and the depth of the recursion.
-/

theorem skipWs_length_le (s : Bytes) : (skipWs s).length ≤ s.length :=
  (List.dropWhile_suffix _).length_le

theorem expect_length {c : UInt8} {s rest : Bytes} (h : expect c s = some rest) :
    rest.length < s.length := by
  have hle := skipWs_length_le s
  unfold expect at h
  split at h
  next x t hs =>
    rw [hs,List.length_cons] at hle
    split_ifs at h
    cases h
    omega
  next => cases h

theorem matchPattern_length {p s rest : Bytes} (h : matchPattern p s = some rest) :
    rest.length ≤ s.length := by
  induction p generalizing s with
  | nil =>
      cases h
      exact le_rfl
  | cons x p ih =>
      cases s with
      | nil => cases h
      | cons y s =>
          rw [matchPattern] at h
          split_ifs at h
          exact (ih h).trans (Nat.le_succ _)

theorem quadhex_length {s rest : Bytes} {n : ℕ} (h : quadhex s = some (n,rest)) :
    rest.length ≤ s.length := by
  unfold quadhex at h
  split at h
  next a b c d t =>
    cases ha : digitValue 16 a <;> cases hb : digitValue 16 b <;> cases hc : digitValue 16 c <;>
      cases hd : digitValue 16 d <;> simp [ha,hb,hc,hd] at h
    rw [← h.2]
    simp only [List.length_cons]
    omega
  next => cases h

theorem codepoint_length {s cs rest : Bytes} (h : codepoint s = some (cs,rest)) :
    rest.length ≤ s.length := by
  unfold codepoint at h
  rcases hq : quadhex s with _ | ⟨n,t⟩
  · simp [hq] at h
  have ht := quadhex_length hq
  simp only [hq,Option.bind_eq_bind,Option.bind_some] at h
  split_ifs at h with h₁ h₂
  · rcases hm : matchPattern (ascii "\\u") t with _ | u
    · simp [hm] at h
    have hu := matchPattern_length hm
    rcases hq₂ : quadhex u with _ | ⟨second,v⟩
    · simp [hm,hq₂] at h
    have hv := quadhex_length hq₂
    simp only [hm,hq₂,Option.bind_some] at h
    split_ifs at h
    obtain ⟨-,rfl⟩ := Prod.mk.inj (Option.some.inj h)
    omega
  · obtain ⟨-,rfl⟩ := Prod.mk.inj (Option.some.inj h)
    exact ht

theorem parseEscape_length {s cs rest : Bytes} (h : parseEscape s = some (cs,rest)) :
    rest.length ≤ s.length := by
  cases s with
  | nil => cases h
  | cons c s =>
      rw [parseEscape] at h
      split_ifs at h
      · exact (codepoint_length h).trans (Nat.le_succ _)
      · obtain ⟨x,-,hx⟩ := Option.map_eq_some_iff.mp h
        rw [← (Prod.mk.inj hx).2]
        exact Nat.le_succ _

theorem parseString_length {fuel : ℕ} {out s a rest : Bytes}
    (h : parseString fuel out s = .success a rest) : rest.length < s.length := by
  induction fuel generalizing out s with
  | zero => cases h
  | succ fuel ih =>
      cases s with
      | nil => cases h
      | cons c s =>
          rw [parseString] at h
          split_ifs at h
          · cases h
            exact Nat.lt_succ_self _
          · split at h
            next cs t he =>
              have := parseEscape_length he
              exact (ih h).trans_le (this.trans (Nat.le_succ _))
            next => cases h
          · exact (ih h).trans (Nat.lt_succ_self _)

theorem parseString_fuel {fuel : ℕ} {out s : Bytes} (h : s.length ≤ fuel) :
    parseString (fuel+1) out s = parseString fuel out s := by
  induction fuel generalizing out s with
  | zero =>
      obtain rfl : s = [] := List.length_eq_zero_iff.mp (by omega)
      rfl
  | succ fuel ih =>
      cases s with
      | nil => rfl
      | cons c s =>
          rw [List.length_cons] at h
          rw [parseString,parseString]
          cases he : parseEscape s with
          | none => rw [ih (by omega)]
          | some x =>
              have := parseEscape_length he
              simp only
              rw [ih (by omega),ih (by omega)]

/-- An item parser which takes something from its input. -/
def Shrinks (p : Value → Bytes → Exec (Reply Value)) : Prop :=
  ∀ old s v rest, p old s = .ok (.success v rest) → rest.length < s.length

section
variable {p q : Value → Bytes → Exec (Reply Value)}

theorem parseItems_length (hp : Shrinks p) {fuel : ℕ} {items all : List Value} {s rest : Bytes}
    (h : parseItems p fuel items s = .ok (.success all rest)) : rest.length < s.length := by
  induction fuel generalizing items s with
  | zero => cases h
  | succ fuel ih =>
      rw [parseItems] at h
      cases hv : p .null s with
      | error e => simp [hv,bind,Except.bind] at h
      | ok r =>
          cases r with
          | failure v => simp [hv,bind,Except.bind,pure,Except.pure] at h
          | success v t =>
              have ht := hp _ _ _ _ hv
              simp only [hv,bind,Except.bind] at h
              cases hc : expect 44 t with
              | some u =>
                  have hu := expect_length hc
                  simp only [hc] at h
                  have := ih h
                  omega
              | none =>
                  cases he : expect 93 t with
                  | some u =>
                      have hu := expect_length he
                      simp only [hc,he] at h
                      cases h
                      omega
                  | none =>
                      simp only [hc,he] at h
                      cases h

theorem parseItems_fuel (hp : Shrinks p) {fuel : ℕ} {items : List Value} {s : Bytes}
    (hpq : ∀ old t, t.length ≤ s.length → q old t = p old t) (h : s.length < fuel) :
    parseItems q (fuel+1) items s = parseItems p fuel items s := by
  induction fuel generalizing items s with
  | zero => omega
  | succ fuel ih =>
      rw [parseItems,parseItems,hpq _ _ le_rfl]
      cases hv : p .null s with
      | error e => rfl
      | ok r =>
          cases r with
          | failure v => rfl
          | success v t =>
              have ht := hp _ _ _ _ hv
              simp only [bind,Except.bind]
              cases hc : expect 44 t with
              | none => rfl
              | some u =>
                  have hu := expect_length hc
                  exact ih (fun old x hx => hpq old x (by omega)) (by omega)

theorem parseMembers_length (hp : Shrinks p) {fuel : ℕ} {fields all : List (Bytes × Value)}
    {s rest : Bytes} (h : parseMembers p fuel fields s = .ok (.success all rest)) :
    rest.length < s.length := by
  induction fuel generalizing fields s with
  | zero => cases h
  | succ fuel ih =>
      rw [parseMembers] at h
      split at h
      next key t hk =>
        obtain ⟨s',hs',hkey⟩ := Option.map_eq_some_iff.mp hk
        have h₁ := expect_length hs'
        have h₂ := parseString_length hkey
        cases hc : expect 58 t with
        | none =>
            simp only [hc] at h
            cases h
        | some u =>
            have h₃ := expect_length hc
            simp only [hc] at h
            cases hv : p ((fields.lookup key).getD .null) u with
            | error e => simp [hv,bind,Except.bind] at h
            | ok r =>
                cases r with
                | failure v => simp [hv,bind,Except.bind,pure,Except.pure] at h
                | success v x =>
                    have h₄ := hp _ _ _ _ hv
                    simp only [hv,bind,Except.bind] at h
                    cases hm : expect 44 x with
                    | some y =>
                        have h₅ := expect_length hm
                        simp only [hm] at h
                        have := ih h
                        omega
                    | none =>
                        cases he : expect 125 x with
                        | some y =>
                            have h₅ := expect_length he
                            simp only [hm,he] at h
                            cases h
                            omega
                        | none =>
                            simp only [hm,he] at h
                            cases h
      next => cases h

theorem parseMembers_fuel (hp : Shrinks p) {fuel : ℕ} {fields : List (Bytes × Value)} {s : Bytes}
    (hpq : ∀ old t, t.length ≤ s.length → q old t = p old t) (h : s.length < fuel) :
    parseMembers q (fuel+1) fields s = parseMembers p fuel fields s := by
  induction fuel generalizing fields s with
  | zero => omega
  | succ fuel ih =>
      rw [parseMembers,parseMembers]
      split
      next key t hk =>
        obtain ⟨s',hs',hkey⟩ := Option.map_eq_some_iff.mp hk
        have h₁ := expect_length hs'
        have h₂ := parseString_length hkey
        cases hc : expect 58 t with
        | none => rfl
        | some u =>
            have h₃ := expect_length hc
            simp only
            rw [hpq _ _ (by omega)]
            cases hv : p ((fields.lookup key).getD .null) u with
            | error e => rfl
            | ok r =>
                cases r with
                | failure v => rfl
                | success v x =>
                    have h₄ := hp _ _ _ _ hv
                    simp only [bind,Except.bind]
                    cases hm : expect 44 x with
                    | none => rfl
                    | some y =>
                        have h₅ := expect_length hm
                        exact ih (fun old z hz => hpq old z (by omega)) (by omega)
      next => rfl

end

theorem map_success {A B : Type} {f : A → B} {r : Reply A} {b : B} {rest : Bytes}
    (h : r.map f = .success b rest) : ∃ a, r = .success a rest := by
  cases r with
  | success a t =>
      cases h
      exact ⟨a,rfl⟩
  | failure a => cases h

theorem literal_length {text : String} {v old w : Value} {s rest : Bytes}
    (h : literal text v old s = .success w rest) : rest.length ≤ s.length := by
  unfold literal at h
  split at h
  next t ht =>
    cases h
    exact matchPattern_length ht
  next => cases h

theorem dropWhile_numberChar_length {c : UInt8} (hc : 48 ≤ c ∧ c ≤ 57 ∨ c = 45) (s : Bytes) :
    ((c::s).dropWhile numberChar).length ≤ s.length := by
  have hn : numberChar c = true := by
    rcases hc with hc | rfl
    · simp [numberChar,hc]
    · rfl
  rw [List.dropWhile_cons,if_pos hn]
  exact (List.dropWhile_suffix _).length_le

theorem parseValue_shrinks (fuel : ℕ) : Shrinks (parseValue fuel) := by
  induction fuel with
  | zero =>
      intro old s v rest h
      cases h
  | succ fuel ih =>
      intro old s v rest h
      have hws := skipWs_length_le s
      rw [parseValue] at h
      cases hs : skipWs s with
      | nil =>
          rw [hs] at h
          cases h
      | cons c t =>
          rw [hs,List.length_cons] at hws
          suffices hle : rest.length ≤ t.length by omega
          simp only [hs] at h
          split_ifs at h with _ _ _ _ _ _ hc
          · exact literal_length (Except.ok.inj h)
          · exact literal_length (Except.ok.inj h)
          · exact literal_length (Except.ok.inj h)
          · obtain ⟨a,ha⟩ := map_success (Except.ok.inj h)
            exact (parseString_length ha).le
          · cases he : expect 93 t with
            | some u =>
                simp only [he] at h
                cases h
                exact (expect_length he).le
            | none =>
                simp only [he] at h
                cases hi : parseItems (parseValue fuel) (t.length+1) [] t with
                | error e => simp [hi,bind,Except.bind] at h
                | ok r =>
                    simp only [hi] at h
                    obtain ⟨a,rfl⟩ := map_success (Except.ok.inj h)
                    exact (parseItems_length ih hi).le
          · cases he : expect 125 t with
            | some u =>
                simp only [he] at h
                cases h
                exact (expect_length he).le
            | none =>
                simp only [he] at h
                cases hi : parseMembers (parseValue fuel) (t.length+1) [] t with
                | error e => simp [hi,bind,Except.bind] at h
                | ok r =>
                    simp only [hi] at h
                    obtain ⟨a,rfl⟩ := map_success (Except.ok.inj h)
                    exact (parseMembers_length ih hi).le
          · split at h
            · cases h
              exact dropWhile_numberChar_length hc t
            · cases h
            · cases h
          · cases h

/-- The result does not depend on the bound once it exceeds the length. -/
theorem parseValue_fuel {fuel : ℕ} {old : Value} {s : Bytes} (h : s.length < fuel) :
    parseValue (fuel+1) old s = parseValue fuel old s := by
  induction fuel generalizing old s with
  | zero => omega
  | succ fuel ih =>
      have hws := skipWs_length_le s
      rw [parseValue,parseValue]
      cases hs : skipWs s with
      | nil => rfl
      | cons c t =>
          rw [hs,List.length_cons] at hws
          have hstable : ∀ old x, x.length ≤ t.length →
              parseValue (fuel+1) old x = parseValue fuel old x := fun old x hx => ih (by omega)
          have hitems : parseItems (parseValue (fuel+1)) (t.length+1) [] t =
              parseItems (parseValue fuel) (t.length+1) [] t :=
            (parseItems_fuel (parseValue_shrinks _) (fun _ _ _ => rfl) (Nat.lt_succ_self _)).symm.trans
              (parseItems_fuel (parseValue_shrinks fuel) hstable (Nat.lt_succ_self _))
          have hmembers : parseMembers (parseValue (fuel+1)) (t.length+1) [] t =
              parseMembers (parseValue fuel) (t.length+1) [] t :=
            (parseMembers_fuel (parseValue_shrinks _) (fun _ _ _ => rfl) (Nat.lt_succ_self _)).symm.trans
              (parseMembers_fuel (parseValue_shrinks fuel) hstable (Nat.lt_succ_self _))
          simp only [hitems,hmembers]

/-!
### Exceptions
-/

/-- An item parser which throws only on an overflowing number. -/
def OverflowOnly (p : Value → Bytes → Exec (Reply Value)) : Prop :=
  ∀ old s f, p old s = .error f → f = .throw .overflowError

theorem parseItems_error {p : Value → Bytes → Exec (Reply Value)} (hp : OverflowOnly p) {fuel : ℕ}
    {items : List Value} {s : Bytes} {f : Fault} (h : parseItems p fuel items s = .error f) :
    f = .throw .overflowError := by
  induction fuel generalizing items s with
  | zero => cases h
  | succ fuel ih =>
      rw [parseItems] at h
      rcases hv : p .null s with e | ⟨v,t⟩ | v
      · simp only [hv,bind_error] at h
        exact Except.error.inj h ▸ hp _ _ _ hv
      · simp only [hv,bind_ok] at h
        cases hc : expect 44 t with
        | some u =>
            simp only [hc] at h
            exact ih h
        | none =>
            simp only [hc] at h
            split at h <;> cases h
      · simp only [hv,bind_ok] at h
        cases h

theorem parseMembers_error {p : Value → Bytes → Exec (Reply Value)} (hp : OverflowOnly p)
    {fuel : ℕ} {fields : List (Bytes × Value)} {s : Bytes} {f : Fault}
    (h : parseMembers p fuel fields s = .error f) : f = .throw .overflowError := by
  induction fuel generalizing fields s with
  | zero => cases h
  | succ fuel ih =>
      rw [parseMembers] at h
      split at h
      next key t _ =>
        cases hc : expect 58 t with
        | none =>
            simp only [hc] at h
            cases h
        | some u =>
            simp only [hc] at h
            rcases hv : p ((fields.lookup key).getD .null) u with e | ⟨v,x⟩ | v
            · simp only [hv,bind_error] at h
              exact Except.error.inj h ▸ hp _ _ _ hv
            · simp only [hv,bind_ok] at h
              cases hm : expect 44 x with
              | some y =>
                  simp only [hm] at h
                  exact ih h
              | none =>
                  simp only [hm] at h
                  split at h <;> cases h
            · simp only [hv,bind_ok] at h
              cases h
      next => cases h

theorem map_eq_error {A B : Type} {g : A → B} {x : Exec A} {f : Fault}
    (h : (do return g (← x)) = .error f) : x = .error f := by
  cases x with
  | error e =>
      cases h
      rfl
  | ok a => cases h

theorem parseValue_error (fuel : ℕ) : OverflowOnly (parseValue fuel) := by
  induction fuel with
  | zero =>
      intro old s f h
      cases h
  | succ fuel ih =>
      intro old s f h
      rw [parseValue] at h
      cases hs : skipWs s with
      | nil =>
          rw [hs] at h
          cases h
      | cons c t =>
          simp only [hs] at h
          split_ifs at h
          case pos | pos | pos | pos => cases h
          · split at h
            · cases h
            · exact parseItems_error ih (map_eq_error h)
          · split at h
            · cases h
            · exact parseMembers_error ih (map_eq_error h)
          · split at h
            · cases h
            · exact (Except.error.inj h).symm
            · cases h
          · cases h

theorem parse_error {s : Bytes} {f : Fault} (h : parse s = .error f) :
    f = .throw .overflowError := by
  rw [parse] at h
  rcases hv : parseValue (s.length+1) .null s with e | ⟨v,t⟩ | v
  · rw [hv,bind_error] at h
    exact Except.error.inj h ▸ parseValue_error _ _ _ _ hv
  · rw [hv] at h
    cases h
  · rw [hv] at h
    cases h

end TownCrier.PicoJson
