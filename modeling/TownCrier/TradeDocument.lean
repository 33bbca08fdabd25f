import TownCrier.TradeScan
import TownCrier.FlightRequest

/-!
# Answers about trade offers

The text of an answer of Steam, and where the words of `parse_response` stand in it. The
fields that the scraper looks for are pieces of the text, in any order: what comes before
such a field, a quote, and its name with the value.
-/
namespace TownCrier.SteamScraper
open BigEndian Cpp Substrings

/-- An item has its two ids in one order or in the other. -/
structure Item where
  lead : Bytes
  appid : Bytes
  between : Bytes
  classid : Bytes
  classFirst : Bool
  deriving DecidableEq

inductive Field where
  | account (n : ℕ)
  | state (n : ℕ)
  | give (items : List Item)
  | receive (items : List Item)
  | method (n : ℕ)
  deriving DecidableEq

/-- Fields with the text in front of each, in which all other fields are. -/
abbrev Fields := List (Bytes × Field)

structure Offer where
  fields : Fields
  deriving DecidableEq

structure Document where
  offers : List Offer
  ending : Bytes

/-- A name with what follows it, up to the end of the value. -/
inductive Key where
  | account (n : ℕ)
  | state (n : ℕ)
  | give
  | receive
  | appid (id : Bytes)
  | classid (id : Bytes)
  | method (n : ℕ)

def receiveKey : Bytes := ascii "items_to_receive"

def Key.word : Key → Bytes
  | .account _ => accountKey
  | .state _ => stateKey
  | .give => giveKey
  | .receive => receiveKey
  | .appid _ => appidKey
  | .classid _ => classidKey
  | .method _ => methodKey

/-- Steam writes a blank behind the colon, as the searched words have it. -/
def Key.value : Key → Bytes
  | .account n => decimal n
  | .state n => ascii "\": "++decimal n
  | .give => ascii "\": ["
  | .receive => ascii "\": ["
  | .appid id => id++[34]
  | .classid id => id++[34]
  | .method n => ascii "\": "++decimal n

def Key.text (k : Key) : Bytes := k.word++k.value

/-- The ids are the only values that are texts. -/
def Key.id : Key → Bytes
  | .appid id => id
  | .classid id => id
  | _ => []

structure Piece where
  lead : Bytes
  key : Key

def Piece.text (p : Piece) : Bytes := (p.lead++[34])++p.key.text

def text (ps : List Piece) : Bytes := ps.flatMap Piece.text

def Item.pieces (i : Item) : List Piece :=
  if i.classFirst then [⟨i.lead,.classid i.classid⟩,⟨i.between,.appid i.appid⟩]
  else [⟨i.lead,.appid i.appid⟩,⟨i.between,.classid i.classid⟩]

def Field.key : Field → Key
  | .account n => .account n
  | .state n => .state n
  | .give _ => .give
  | .receive _ => .receive
  | .method n => .method n

def Field.items : Field → List Item
  | .give items => items
  | .receive items => items
  | _ => []

def Field.given : Field → List Item
  | .give items => items
  | _ => []

def pieces (fs : Fields) : List Piece :=
  fs.flatMap fun f => ⟨f.1,f.2.key⟩::f.2.items.flatMap Item.pieces

/-- What an offer says. -/
def Offer.values (o : Offer) : List Field := o.fields.map Prod.snd

def Offer.given (o : Offer) : List Item := o.values.flatMap Field.given

def Document.text (d : Document) : Bytes :=
  123::(SteamScraper.text (pieces (d.offers.flatMap Offer.fields))++d.ending)

/-- The words that the scraper looks for. -/
def words : List Bytes := [accountKey,methodKey,stateKey,giveKey,appidKey,classidKey]

/-- Those of them with the quote behind a name. -/
def names : List Bytes := [accountKey,appidKey,classidKey]

/-- A number in front of the text ends there. -/
def Bounds (t : Bytes) : Prop := ∀ c ∈ t.head?, ¬(48 ≤ c ∧ c ≤ 57)

instance (t : Bytes) : Decidable (Bounds t) := inferInstanceAs (Decidable (∀ _ ∈ _, _))

/-- A quote inside of a text is escaped, and so a name with its quote stands only at its own
field. An id is a number. -/
structure Piece.WellFormed (p : Piece) : Prop where
  lead : ∀ w ∈ names, ¬w <:+: p.lead++[34]
  bounds : Bounds p.lead
  id : ∀ c ∈ p.key.id, 48 ≤ c ∧ c ≤ 57

/-- No field stands twice. -/
def Once (fs : Fields) : Prop := (fs.map fun f => f.2.key.word).Nodup

instance (fs : Fields) : Decidable (Once fs) := inferInstanceAs (Decidable (List.Nodup _))

/-- Two fields of an offer have a comma between them. The order of the fields is free, and so
are the texts in front of them. -/
structure Document.WellFormed (d : Document) : Prop where
  once : ∀ o ∈ d.offers, Once o.fields
  commas : ∀ o ∈ d.offers, ∀ f ∈ o.fields.tail, 44 ∈ f.1
  pieces : ∀ o ∈ d.offers, ∀ p ∈ pieces o.fields, p.WellFormed
  ending : ∀ w ∈ names, ¬w <:+: d.ending
  bounds : Bounds d.ending

instance (p : Piece) : Decidable p.WellFormed :=
  decidable_of_iff ((∀ w ∈ names, ¬w <:+: p.lead++[34]) ∧ Bounds p.lead ∧
      p.key.id.all fun c => 48 ≤ c ∧ c ≤ 57)
    ⟨fun h => ⟨h.1,h.2.1,fun c hc => of_decide_eq_true (List.all_eq_true.mp h.2.2 c hc)⟩,
      fun h => ⟨h.lead,h.bounds,List.all_eq_true.mpr fun c hc => decide_eq_true (h.id c hc)⟩⟩

instance (d : Document) : Decidable d.WellFormed :=
  decidable_of_iff ((∀ o ∈ d.offers, Once o.fields) ∧
      (∀ o ∈ d.offers, ∀ f ∈ o.fields.tail, 44 ∈ f.1) ∧
      (∀ o ∈ d.offers, ∀ p ∈ SteamScraper.pieces o.fields, p.WellFormed) ∧
      (∀ w ∈ names, ¬w <:+: d.ending) ∧ Bounds d.ending)
    ⟨fun h => ⟨h.1,h.2.1,h.2.2.1,h.2.2.2.1,h.2.2.2.2⟩,
      fun h => ⟨h.once,h.commas,h.pieces,h.ending,h.bounds⟩⟩

/-- The word stands in none of the texts in front of the fields. -/
def Silent (w : Bytes) (ps : List Piece) : Prop := ∀ p ∈ ps, ¬w <:+: p.lead++[34]

instance (w : Bytes) (ps : List Piece) : Decidable (Silent w ps) :=
  inferInstanceAs (Decidable (∀ _ ∈ _, _))

/-! ## Where the words stand -/

/-- The words at the fields. -/
def fieldWords : List Bytes := receiveKey::words

theorem Key.word_mem (k : Key) : k.word ∈ fieldWords := by
  cases k with
  | account n => simp [fieldWords,words,Key.word]
  | state n => simp [fieldWords,words,Key.word]
  | give => simp [fieldWords,words,Key.word]
  | receive => simp [fieldWords,Key.word]
  | appid id => simp [fieldWords,words,Key.word]
  | classid id => simp [fieldWords,words,Key.word]
  | method n => simp [fieldWords,words,Key.word]

theorem words_apart : ∀ w ∈ words, ∀ v ∈ fieldWords, v ≠ w → Apart w v := by
  unfold Apart
  decide

theorem words_border : ∀ w ∈ words, ∀ v ∈ fieldWords, ¬[34,v.headD 0] <:+: w := by
  decide

theorem words_letter : ∀ w ∈ fieldWords, w = w.headD 0::w.tail ∧ 97 ≤ w.headD 0 := by
  decide

theorem names_words : ∀ w ∈ names, w ∈ words := by
  decide

section
variable {w t rest : Bytes} {k : Key} {p : Piece} {ps : List Piece}

/-- All words begin with a letter. -/
theorem clear_low (hw : w ∈ words) (h : ∀ c ∈ t, c < 97) : Clear w t rest := by
  have hletter := words_letter w (List.mem_cons_of_mem _ hw)
  rw [hletter.1]
  refine clear_of_notMem fun hmem => ?_
  exact absurd hletter.2 (UInt8.not_le.mpr (h _ hmem))

theorem digit_low {c : UInt8} (h : 48 ≤ c ∧ c ≤ 57) : c < 97 :=
  UInt8.lt_of_le_of_lt h.2 (by decide)

theorem decimal_low (n : ℕ) : ∀ c ∈ decimal n, c < 97 := by
  intro c hc
  exact digit_low (FlightScraper.decimal_digits n c hc)

theorem Key.value_low (hid : ∀ c ∈ k.id, 48 ≤ c ∧ c ≤ 57) : ∀ c ∈ k.value, c < 97 := by
  have hquote : (34 : UInt8) < 97 := by decide
  have hcolon : (ascii "\": ").all (· < 97) := by decide
  have hbracket : (ascii "\": [").all (· < 97) := by decide
  have hplain {t : Bytes} (h : t.all (· < 97)) : ∀ c ∈ t, c < 97 := fun c hc =>
    of_decide_eq_true (List.all_eq_true.mp h c hc)
  intro c hc
  cases k with
  | account n => exact decimal_low n c hc
  | state n | method n =>
      rcases List.mem_append.mp hc with hc | hc
      · exact hplain hcolon c hc
      · exact decimal_low n c hc
  | give | receive => exact hplain hbracket c hc
  | appid id | classid id =>
      rcases List.mem_append.mp hc with hc | hc
      · exact digit_low (hid c hc)
      · rwa [List.mem_singleton.mp hc]

theorem Key.text_pos : 0 < k.text.length := by
  rw [Key.text,(words_letter k.word k.word_mem).1]
  exact Nat.succ_pos _

theorem Key.clear (hw : w ∈ words) (hk : k.word ≠ w) (hid : ∀ c ∈ k.id, 48 ≤ c ∧ c ≤ 57) :
    Clear w k.text rest := by
  rw [Key.text,clear_append]
  exact ⟨clear_of_apart (words_apart w hw k.word k.word_mem hk),clear_low hw (k.value_low hid)⟩

theorem Piece.clear_lead (hw : w ∈ words) (hlead : ¬w <:+: p.lead++[34]) :
    Clear w (p.lead++[34]) (p.key.text++rest) := by
  have hletter := words_letter p.key.word p.key.word_mem
  have hhead : p.key.text++rest = p.key.word.headD 0::(p.key.word.tail++p.key.value++rest) := by
    rw [Key.text,List.append_assoc]
    nth_rewrite 1 [hletter.1]
    rw [List.cons_append,List.append_assoc]
  rw [hhead]
  exact clear_of_border hlead (words_border w hw p.key.word p.key.word_mem)

theorem text_cons : text (p::ps)++rest = p.text++(text ps++rest) := by
  rw [text,List.flatMap_cons,← text,List.append_assoc]

theorem text_append {qs : List Piece} : text (ps++qs)++rest = text ps++(text qs++rest) := by
  rw [text,List.flatMap_append,List.append_assoc]
  rfl

/-- Pieces with other keys are passed over, unless the word is in the text before them. -/
theorem strstr_skip (hw : w ∈ words) (hps : ∀ p ∈ ps, p.WellFormed) (hsilent : Silent w ps)
    (hkey : ∀ p ∈ ps, p.key.word ≠ w) : strstr w (text ps++rest) = strstr w rest := by
  induction ps with
  | nil => rfl
  | cons p ps ih =>
      rw [Silent,List.forall_mem_cons] at hsilent
      rw [List.forall_mem_cons] at hps hkey
      have hclear : Clear w p.text (text ps++rest) := by
        rw [Piece.text,clear_append]
        exact ⟨Piece.clear_lead hw hsilent.1,Key.clear hw hkey.1 hps.1.id⟩
      rw [text_cons,strstr_clear hclear,ih hps.2 hsilent.2 hkey.2]

/-- The first piece with the word. -/
theorem strstr_hit (hlead : ¬p.key.word <:+: p.lead++[34]) (hw : p.key.word ∈ words) :
    strstr p.key.word (p.text++rest) = some (p.key.text++rest) := by
  rw [Piece.text,List.append_assoc,strstr_clear (Piece.clear_lead hw hlead),Key.text,
    List.append_assoc]
  exact strstr_here (List.prefix_append _ _)

theorem silent_append {qs : List Piece} : Silent w (ps++qs) ↔ Silent w ps ∧ Silent w qs :=
  List.forall_mem_append

theorem silent_cons : Silent w (p::ps) ↔ ¬w <:+: p.lead++[34] ∧ Silent w ps :=
  List.forall_mem_cons

/-- The names are silent in an answer. -/
theorem silent_names (hw : w ∈ names) (hps : ∀ p ∈ ps, p.WellFormed) : Silent w ps :=
  fun p hp => (hps p hp).lead w hw

/-- A word at a field is in the text. -/
theorem infix_text (hp : p ∈ ps) : p.key.word <:+: text ps++rest := by
  have hpiece : p.text <:+: text ps := List.infix_of_mem_flatten (List.mem_map_of_mem hp)
  have hword : p.key.word <:+: p.text :=
    (List.prefix_append p.key.word p.key.value).isInfix.trans (List.suffix_append _ _).isInfix
  exact (hword.trans hpiece).trans (List.prefix_append _ _).isInfix

end

/-! ## The fields of an offer -/

section
variable {f : Bytes × Field} {fs gs : Fields} {i : Item} {w : Bytes}

theorem pieces_cons : pieces (f::fs) =
    ⟨f.1,f.2.key⟩::(f.2.items.flatMap Item.pieces++pieces fs) := rfl

theorem pieces_append : pieces (fs++gs) = pieces fs++pieces gs := List.flatMap_append

theorem Item.pieces_word : ∀ p ∈ i.pieces, p.key.word = appidKey ∨ p.key.word = classidKey := by
  intro p hp
  rw [Item.pieces] at hp
  split_ifs at hp
  · rcases List.mem_pair.mp hp with rfl | rfl
    · exact .inr rfl
    · exact .inl rfl
  · rcases List.mem_pair.mp hp with rfl | rfl
    · exact .inl rfl
    · exact .inr rfl

theorem Once.split (h : Once (fs++f::gs)) : ∀ g ∈ fs++gs, g.2.key.word ≠ f.2.key.word := by
  have hnodup := (List.perm_middle.map fun f : Bytes × Field => f.2.key.word).nodup_iff.mp h
  rw [List.map_cons,List.nodup_cons] at hnodup
  intro g hg hword
  refine hnodup.1 ?_
  rw [← hword]
  exact List.mem_map_of_mem (f := fun f : Bytes × Field => f.2.key.word) hg

/-- The pieces of fields have the words of the fields and of items. -/
theorem pieces_word (happid : w ≠ appidKey) (hclassid : w ≠ classidKey)
    (hfs : ∀ f ∈ fs, f.2.key.word ≠ w) : ∀ p ∈ pieces fs, p.key.word ≠ w := by
  intro p hp
  obtain ⟨f,hf,hp⟩ := List.mem_flatMap.mp hp
  rcases List.mem_cons.mp hp with rfl | hp
  · exact hfs f hf
  · obtain ⟨i,-,hp⟩ := List.mem_flatMap.mp hp
    rcases i.pieces_word p hp with h | h
    · rw [h]
      exact happid.symm
    · rw [h]
      exact hclassid.symm

/-- A word that is not found is at no field. -/
theorem missing {rest : Bytes} (h : strstr w (text (pieces fs)++rest) = none) :
    ∀ p ∈ pieces fs, p.key.word ≠ w := by
  intro p hp hword
  refine strstr_eq_none.mp h ?_
  rw [← hword]
  exact infix_text hp

theorem items_missing (h : ∀ p ∈ pieces fs, p.key.word ≠ appidKey) : ∀ f ∈ fs, f.2.items = [] := by
  intro f hf
  refine List.eq_nil_iff_forall_not_mem.mpr fun i hi => ?_
  have hsub : ∀ p ∈ i.pieces, p ∈ pieces fs := fun p hp =>
    List.mem_flatMap.mpr ⟨f,hf,List.mem_cons_of_mem _ (List.mem_flatMap.mpr ⟨i,hi,hp⟩)⟩
  rw [Item.pieces] at hsub
  split_ifs at hsub
  · exact h ⟨i.between,.appid i.appid⟩ (hsub _ (by simp)) rfl
  · exact h ⟨i.lead,.appid i.appid⟩ (hsub _ (by simp)) rfl

/-- Without items no piece has an id. -/
theorem pieces_bare (hfs : ∀ f ∈ fs, f.2.items = []) : ∀ p ∈ pieces fs, p.key.word ≠ appidKey := by
  have hne : accountKey ≠ appidKey ∧ stateKey ≠ appidKey ∧ giveKey ≠ appidKey ∧
      receiveKey ≠ appidKey ∧ methodKey ≠ appidKey := by decide
  intro p hp
  obtain ⟨f,hf,hp⟩ := List.mem_flatMap.mp hp
  rw [hfs f hf,List.flatMap_nil,List.mem_singleton] at hp
  rw [hp]
  cases f.2 with
  | account n => exact hne.1
  | state n => exact hne.2.1
  | give is => exact hne.2.2.1
  | receive is => exact hne.2.2.2.1
  | method n => exact hne.2.2.2.2

end

/-! ## The account on the other side -/

section
variable {rest : Bytes} {p : Piece} {ps : List Piece} {n other : ℕ}

/-- Behind the first letter of its key an account is not found again. -/
theorem account_tail (n other : ℕ) :
    Clear (accountKey++decimal other) (accountKey.tail++decimal n) rest := by
  have hletter : (97 : UInt8) ∉ accountKey.tail++decimal n := by
    intro hmem
    have hkey : (97 : UInt8) ∉ accountKey.tail := by decide
    rcases List.mem_append.mp hmem with h | h
    · exact hkey h
    · exact absurd (decimal_low n 97 h) (by decide)
  exact clear_of_notMem hletter

theorem account_here (h : decimal other <+: decimal n) :
    accountKey++decimal other <+: (Key.account n).text++rest := by
  rw [Key.text,List.append_assoc]
  refine (List.prefix_append_right_inj accountKey).mpr ?_
  exact h.trans (List.prefix_append _ _)

/-- An account is found only where another one begins with its digits. -/
theorem account_found (hrest : Bounds rest)
    (h : accountKey++decimal other <+: (Key.account n).text++rest) :
    decimal other <+: decimal n := by
  rw [Key.text,List.append_assoc] at h
  have hvalue := (List.prefix_append_right_inj accountKey).mp h
  cases rest with
  | nil => rwa [List.append_nil] at hvalue
  | cons c rest =>
      have hc : c ∉ decimal other := fun hmem => hrest c rfl (by
        have hdigit := FlightScraper.decimal_digits other c hmem
        exact ⟨UInt8.le_iff_toNat_le.mpr hdigit.1,UInt8.le_iff_toNat_le.mpr hdigit.2⟩)
      exact (front_iff hc).mp hvalue

theorem Key.account_of_word (k : Key) (h : k.word = accountKey) : ∃ n, k = .account n := by
  have hne : stateKey ≠ accountKey ∧ giveKey ≠ accountKey ∧ receiveKey ≠ accountKey ∧
      appidKey ≠ accountKey ∧ classidKey ≠ accountKey ∧ methodKey ≠ accountKey := by decide
  cases k with
  | account n => exact ⟨n,rfl⟩
  | state n => exact absurd h hne.1
  | give => exact absurd h hne.2.1
  | receive => exact absurd h hne.2.2.1
  | appid id => exact absurd h hne.2.2.2.1
  | classid id => exact absurd h hne.2.2.2.2.1
  | method n => exact absurd h hne.2.2.2.2.2

/-- The pieces that are not taken for the other side. -/
def Foreign (other : ℕ) (p : Piece) : Prop :=
  ∀ n, p.key = .account n → ¬decimal other <+: decimal n

theorem foreign_of_word (h : p.key.word ≠ accountKey) : Foreign other p := by
  intro n hn
  rw [hn] at h
  exact absurd rfl h

theorem Piece.WellFormed.clear_foreign (h : p.WellFormed) (hp : Foreign other p)
    (hrest : Bounds rest) : Clear (accountKey++decimal other) p.text rest := by
  have hmono {t rest : Bytes} (h : Clear accountKey t rest) :
      Clear (accountKey++decimal other) t rest := h.mono (List.prefix_append _ _)
  have hword : accountKey ∈ words := List.mem_cons_self
  rw [Piece.text,clear_append]
  refine ⟨hmono (Piece.clear_lead hword (h.lead _ List.mem_cons_self)),?_⟩
  by_cases hkey : p.key.word = accountKey
  · obtain ⟨n,hn⟩ := p.key.account_of_word hkey
    rw [hn]
    refine clear_cons.mpr ⟨?_,account_tail n other⟩
    exact fun hfront => hp n hn (account_found hrest hfront)
  · exact hmono (Key.clear hword hkey h.id)

theorem Piece.WellFormed.bounds_front (h : p.WellFormed) : Bounds (p.text++rest) := by
  have hlead := h.bounds
  rw [Piece.text]
  cases hstart : p.lead with
  | nil =>
      intro c hc
      cases hc
      decide
  | cons c lead =>
      rw [hstart] at hlead
      exact hlead

theorem bounds_text (h : ∀ p ∈ ps, p.WellFormed) (hrest : Bounds rest) :
    Bounds (text ps++rest) := by
  cases ps with
  | nil => exact hrest
  | cons p ps =>
      rw [text_cons]
      exact (h p List.mem_cons_self).bounds_front

theorem strstr_skip_foreign (h : ∀ p ∈ ps, p.WellFormed) (hps : ∀ p ∈ ps, Foreign other p)
    (hrest : Bounds rest) : strstr (accountKey++decimal other) (text ps++rest) =
      strstr (accountKey++decimal other) rest := by
  induction ps with
  | nil => rfl
  | cons p ps ih =>
      rw [List.forall_mem_cons] at h hps
      rw [text_cons,strstr_clear (h.1.clear_foreign hps.1 (bounds_text h.2 hrest)),ih h.2 hps.2]

theorem strstr_hit_account (hp : p.WellFormed) (hn : p.key = .account n)
    (hfound : decimal other <+: decimal n) :
    strstr (accountKey++decimal other) (p.text++rest) = some (p.key.text++rest) := by
  have hlead : Clear (accountKey++decimal other) (p.lead++[34]) (p.key.text++rest) :=
    (Piece.clear_lead List.mem_cons_self (hp.lead _ List.mem_cons_self)).mono
      (List.prefix_append _ _)
  rw [Piece.text,List.append_assoc,strstr_clear hlead,hn]
  exact strstr_here (account_here hfound)

end

end TownCrier.SteamScraper
