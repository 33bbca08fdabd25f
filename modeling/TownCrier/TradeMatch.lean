import Mathlib.Data.List.Count
import Mathlib.Data.List.Nodup
import Mathlib.Data.List.Perm.Subperm
import TownCrier.TradeRound

/-!
# When a trade is found

The offer that is asked for: with the account, in the state 3, and giving the items of
the list, each as often as it is there. The scraper compares accounts, states and names
by their beginnings, takes the items received for items given, and counts the items where
names are to be compared. `Legible` says that none of this makes a difference for the
offers that it looks into.
-/
namespace TownCrier.SteamScraper
open BigEndian Cpp Substrings

section
variable (getItemName : Bytes → Bytes → Option Bytes) (other : ℕ) (listB : List Bytes)

/-- The names of the items are those of the list, each as often as it is there. -/
def Named (is : List Item) : Prop :=
  (is.map fun i => getItemName i.appid i.classid).Perm (listB.map some)

/-- The offer that is asked for. -/
structure Exact (o : Offer) : Prop where
  account : .account other ∈ o.values
  state : .state 3 ∈ o.values
  items : Named getItemName listB o.given

/-- The answer is 0 if there is such an offer and -1 if there is none. -/
def Answers (offers : List Offer) (run : Exec Int32) : Prop :=
  ∃ r, run = .ok r ∧ (r = 0 ↔ ∃ o ∈ offers, Exact getItemName other listB o) ∧ (r = 0 ∨ r = -1)

def Settles (d : Document) : Prop :=
  Answers getItemName other listB d.offers
    (parseResponse getItemName (decimal other) listB d.text)

/-- The items given, before the fields `gs` and, behind the offer, the fields `beyond`. If all
names given are in the list, nothing is received there, and for as many names as the list has
none is given more often than it is there. Nothing is found to be given only in front of an
item. -/
structure Counted (is : List Item) (gs beyond : Fields) : Prop where
  told : AllTold getItemName listB is
  bare : (∀ i ∈ is, Listed getItemName listB i) → ∀ f ∈ gs, f.2.items = []
  often : (∀ i ∈ is, Listed getItemName listB i) → is.length = listB.length → ∀ name ∈ listB,
    (is.map fun i => getItemName i.appid i.classid).count (some name) ≤ listB.count name
  more : is = [] → listB = [] → ∃ f ∈ beyond, f.2.items ≠ []

/-- What stands between the state and the method. Without a field for them nothing is given, and
then the list must not be empty. -/
def Gives (x : Layout) (later : List Offer) : Prop :=
  (listB ≠ [] ∧ (∀ f ∈ x.fields other, f.2.key.word ≠ giveKey) ∧
    Silent giveKey (pieces x.inner++[⟨x.method.1,.method x.method.2⟩])) ∨
  ∃ fs lead is gs, x.inner = fs++(lead,.give is)::gs ∧
    Silent giveKey (pieces fs++[⟨lead,.give⟩]) ∧
    Counted getItemName listB is gs (x.rest++later.flatMap Offer.fields)

/-- The scraper understands an offer: the account is no longer number with the same beginning,
and if it is the right one, the fields have their order, the state is no other number with
a 3 in front, and the items are counted as they are meant. -/
structure Readable (o : Offer) (later : List Offer) : Prop where
  account : ∀ n, .account n ∈ o.values → decimal other <+: decimal n → n = other
  order : .account other ∈ o.values → ∃ x : Layout, o.fields = x.fields other ∧ x.Plain ∧
    ((decimal x.state.2).head? = some 51 → x.state.2 = 3 ∧ Gives getItemName other listB x later)

/-- The scraper understands the offers up to the first that is asked for. -/
def Legible : List Offer → Prop
  | [] => True
  | o::later => Readable getItemName other listB o later ∧
      (¬Exact getItemName other listB o → Legible later)

end

/-! ## The items of an offer -/

section
variable {getItemName : Bytes → Bytes → Option Bytes} {other : ℕ} {listB : List Bytes}
  {is : List Item} {o : Offer}

theorem Named.listed (h : Named getItemName listB is) : ∀ i ∈ is, Listed getItemName listB i := by
  intro i hi
  have hmem := h.subset (List.mem_map_of_mem hi)
  obtain ⟨name,hname,heq⟩ := List.mem_map.mp hmem
  exact ⟨name,hname,heq.symm⟩

theorem Named.length (h : Named getItemName listB is) : is.length = listB.length := by
  simpa using h.length_eq

/-- Membership and a count are enough if no name stands too often. -/
theorem named_of_count (hall : ∀ i ∈ is, Listed getItemName listB i)
    (hlength : is.length = listB.length) (hcount : ∀ name ∈ listB,
      (is.map fun i => getItemName i.appid i.classid).count (some name) ≤ listB.count name) :
    Named getItemName listB is := by
  have hsub : (is.map fun i => getItemName i.appid i.classid).Subperm (listB.map some) := by
    refine List.subperm_ext_iff.mpr fun x hx => ?_
    obtain ⟨i,hi,rfl⟩ := List.mem_map.mp hx
    obtain ⟨name,hname,heq⟩ := hall i hi
    rw [heq,List.count_map_of_injective listB some (Option.some_injective _)]
    exact hcount name hname
  exact hsub.perm_of_length_le (by simp [hlength])

theorem given_none (h : ∀ f ∈ o.fields, f.2.key.word ≠ giveKey) : o.given = [] := by
  refine List.flatMap_eq_nil_iff.mpr fun f hf => ?_
  obtain ⟨g,hg,rfl⟩ := List.mem_map.mp hf
  have hword := h g hg
  cases hvalue : g.2 with
  | give is =>
      rw [hvalue] at hword
      exact absurd rfl hword
  | account n => rfl
  | state n => rfl
  | receive is => rfl
  | method n => rfl

theorem given_some {fs gs : Fields} {lead : Bytes} (honce : Once o.fields)
    (h : o.fields = fs++(lead,.give is)::gs) : o.given = is := by
  rw [h] at honce
  have hword := honce.split
  have hfs : Offer.given ⟨fs⟩ = [] :=
    given_none (o := ⟨fs⟩) fun f hf => hword f (List.mem_append_left _ hf)
  have hgs : Offer.given ⟨gs⟩ = [] :=
    given_none (o := ⟨gs⟩) fun f hf => hword f (List.mem_append_right _ hf)
  rw [Offer.given,Offer.values] at hfs hgs
  rw [Offer.given,Offer.values,h,List.map_append,List.map_cons,List.flatMap_append,
    List.flatMap_cons,hfs,hgs]
  exact List.append_nil is

theorem given_of_bare (h : ∀ f ∈ o.fields, f.2.items = []) : o.given = [] := by
  refine List.flatMap_eq_nil_iff.mpr fun f hf => ?_
  obtain ⟨g,hg,rfl⟩ := List.mem_map.mp hf
  have hitems := h g hg
  cases hvalue : g.2 with
  | give is =>
      rw [hvalue] at hitems
      exact hitems
  | account n => rfl
  | state n => rfl
  | receive is => rfl
  | method n => rfl

theorem not_named_nil (hlist : listB ≠ []) : ¬Named getItemName listB [] := fun h =>
  hlist (List.length_eq_zero_iff.mp h.length.symm)

end

/-! ## One offer -/

section
variable {getItemName : Bytes → Bytes → Option Bytes} {other : ℕ} {listB : List Bytes}
  {o : Offer} {later : List Offer} {ending : Bytes} {x : Layout} {next : Exec Int32}

/-- The text of some offers and what comes after them. -/
def behind (ending : Bytes) (later : List Offer) : Bytes :=
  text (pieces (later.flatMap Offer.fields))++ending

/-- An offer is taken if its items are those of the list. Else the search goes on, or ends where
no later offer gives anything. -/
def Verdict (getItemName : Bytes → Bytes → Option Bytes) (listB : List Bytes) (o : Offer)
    (later : List Offer) (next run : Exec Int32) : Prop :=
  (Named getItemName listB o.given ∧ run = .ok 0) ∨
  (¬Named getItemName listB o.given ∧
    (run = next ∨ run = .ok (-1) ∧ ∀ p ∈ later, ¬Named getItemName listB p.given))

/-- No word is missing behind an offer that is at a field there. -/
theorem behind_missing {w : Bytes}
    (h : strstr w (text (pieces x.rest)++behind ending later) = none) :
    ∀ p ∈ pieces (x.rest++later.flatMap Offer.fields), p.key.word ≠ w := by
  rw [behind,← text_append,← pieces_append] at h
  exact missing h

theorem later_fields {f : Bytes × Field} {p : Offer} (hp : p ∈ later) (hf : f ∈ p.fields) :
    f ∈ x.rest++later.flatMap Offer.fields :=
  List.mem_append_right _ (List.mem_flatMap.mpr ⟨p,hp,hf⟩)

section
variable (hfields : o.fields = x.fields other) (hps : ∀ p ∈ pieces (x.fields other), p.WellFormed)

include hfields hps in
/-- An offer that gives nothing is none for a list with names. -/
theorem found_ungiven (hlist : listB ≠ []) (hnone : ∀ f ∈ x.fields other, f.2.key.word ≠ giveKey)
    (hsilent : Silent giveKey (pieces x.inner++[⟨x.method.1,.method x.method.2⟩])) :
    Verdict getItemName listB o later next
      (x.found getItemName listB (behind ending later) next) := by
  have hne : giveKey ∈ words ∧ giveKey ≠ appidKey ∧ giveKey ≠ classidKey := by decide
  have hsplit : x.inside = (x.inner++[(x.method.1,.method x.method.2)])++x.rest := by
    rw [Layout.inside,List.append_assoc,List.cons_append,List.nil_append]
  have hsub : x.inner++[(x.method.1,.method x.method.2)] ⊆ x.fields other := fun f hf =>
    Layout.mem_fields (List.mem_append_right _ (List.mem_cons_of_mem _
      (by rw [hsplit]; exact List.mem_append_left _ hf)))
  have hsilent' : Silent giveKey (pieces (x.inner++[(x.method.1,.method x.method.2)])) := by
    rw [pieces_append]
    exact hsilent
  have hskip : strstr giveKey (text (pieces x.inside)++behind ending later) =
      strstr giveKey (text (pieces x.rest)++behind ending later) := by
    rw [hsplit,pieces_append,text_append]
    exact strstr_skip hne.1 (Layout.formed hps hsub) hsilent'
      (pieces_word hne.2.1 hne.2.2 fun f hf => hnone f (hsub hf))
  have hgiven : o.given = [] := given_none (by rw [hfields]; exact hnone)
  refine .inr ⟨by rw [hgiven]; exact not_named_nil hlist,?_⟩
  rw [Layout.found,hskip]
  cases hfind : strstr giveKey (text (pieces x.rest)++behind ending later) with
  | none =>
      refine .inr ⟨rfl,fun p hp => ?_⟩
      have hpieces := behind_missing hfind
      have hgiven : p.given = [] := given_none fun f hf => hpieces ⟨f.1,f.2.key⟩
        (List.mem_flatMap.mpr ⟨f,later_fields hp hf,List.mem_cons_self⟩)
      rw [hgiven]
      exact not_named_nil hlist
  | some t =>
      have hlength := (strstr_length hfind).1
      have hkey : 0 < (Key.method x.method.2).text.length := Key.text_pos
      refine .inl ?_
      rw [Option.elim_some,if_pos]
      rw [Layout.last,List.length_append]
      omega

variable {is : List Item} {fs gs : Fields} {lead : Bytes}
  (honce : Once (x.fields other)) (hinner : x.inner = fs++(lead,.give is)::gs)

/-- The text of an offer behind the items given. -/
def beyond (x : Layout) (gs : Fields) (ending : Bytes) (later : List Offer) : Bytes :=
  text (pieces (gs++(x.method.1,.method x.method.2)::x.rest))++behind ending later

theorem Layout.inside_give (hinner : x.inner = fs++(lead,.give is)::gs) :
    x.inside = fs++(lead,.give is)::(gs++(x.method.1,.method x.method.2)::x.rest) := by
  rw [Layout.inside,hinner,List.append_assoc,List.cons_append]

include hinner in
theorem Layout.mem_give {f : Bytes × Field}
    (hf : f ∈ fs++(lead,.give is)::(gs++[(x.method.1,.method x.method.2)])) : f ∈ x.fields other := by
  refine Layout.mem_fields (List.mem_append_right _ (List.mem_cons_of_mem _ ?_))
  rw [Layout.inside_give hinner]
  simp only [List.mem_append,List.mem_cons,List.not_mem_nil,or_false] at hf ⊢
  exact hf.imp_right fun hf => hf.imp_right fun hf => hf.imp_right .inl

theorem last_le_beyond : (x.last (behind ending later)).length ≤ (beyond x gs ending later).length := by
  rw [beyond,text_split,Layout.last]
  simp only [List.length_append,Piece.text,Field.key]
  omega

include hps honce hinner in
theorem found_give (hsilent : Silent giveKey (pieces fs++[⟨lead,.give⟩])) :
    x.found getItemName listB (behind ending later) next =
      look getItemName listB (x.last (behind ending later)) next
        (Key.give.text++(text (is.flatMap Item.pieces)++beyond x gs ending later)) := by
  have hne : giveKey ∈ words ∧ giveKey ≠ appidKey ∧ giveKey ≠ classidKey := by decide
  have hsub : fs ⊆ x.fields other := fun f hf =>
    Layout.mem_give hinner (List.mem_append_left _ hf)
  have hsplit : x.fields other =
      (x.before++(x.account,.account other)::(x.first++(x.state.1,.state x.state.2)::fs))++
        (lead,.give is)::(gs++(x.method.1,.method x.method.2)::x.rest) := by
    rw [Layout.fields,Layout.behind,Layout.inside_give hinner]
    simp only [List.append_assoc,List.cons_append]
  have hword : ∀ f ∈ fs, f.2.key.word ≠ giveKey := by
    rw [hsplit] at honce
    intro f hf
    refine honce.split f (List.mem_append_left _ (List.mem_append_right _ ?_))
    exact List.mem_cons_of_mem _ (List.mem_append_right _ (List.mem_cons_of_mem _ hf))
  have hfound : strstr giveKey (text (pieces x.inside)++behind ending later) =
      some (Key.give.text++(text (is.flatMap Item.pieces)++beyond x gs ending later)) := by
    rw [Layout.inside_give hinner]
    exact strstr_field (f := .give is) hne.1 hne.2.1 hne.2.2 (Layout.formed hps hsub) hsilent hword
  have hlength : (x.last (behind ending later)).length ≤ (beyond x gs ending later).length :=
    last_le_beyond
  rw [Layout.found,hfound,Option.elim_some,if_neg]
  simp only [List.length_append]
  omega

include hps hinner in
theorem closes_beyond (hbare : ∀ f ∈ gs, f.2.items = []) :
    Closes (x.last (behind ending later)) (beyond x gs ending later) :=
  closes_rest hps (fun _ hf => Layout.mem_give hinner
    (List.mem_append_right _ (List.mem_cons_of_mem _ hf))) hbare

include hps honce hinner in
/-- An empty list is found in an offer without items, but only in front of an item. -/
theorem found_nothing (hgiven : o.given = []) (hempty : is = [])
    (hsilent : Silent giveKey (pieces fs++[⟨lead,.give⟩]))
    (hcounted : Counted getItemName listB is gs (x.rest++later.flatMap Offer.fields)) :
    Verdict getItemName listB o later next
      (x.found getItemName listB (behind ending later) next) := by
  have hall : ∀ i ∈ is, Listed getItemName listB i := by simp [hempty]
  have hitems : text (is.flatMap Item.pieces) = [] := by rw [hempty]; rfl
  have hbare := hcounted.bare hall
  have hsub : gs++[(x.method.1,.method x.method.2)] ⊆ x.fields other := fun f hf =>
    Layout.mem_give hinner (List.mem_append_right _ (List.mem_cons_of_mem _ hf))
  have hskip : strstr appidKey (beyond x gs ending later) =
      strstr appidKey (text (pieces x.rest)++behind ending later) := strstr_bare hps hsub hbare
  rw [found_give hps honce hinner hsilent,hitems,List.nil_append,
    look_empty (closes_beyond hps hinner hbare),hskip]
  cases hfind : strstr appidKey (text (pieces x.rest)++behind ending later) with
  | none =>
      have hmissing := items_missing (behind_missing hfind)
      have hlist : listB ≠ [] := by
        intro hlist
        obtain ⟨f,hf,hitems⟩ := hcounted.more hempty hlist
        exact hitems (hmissing f hf)
      refine .inr ⟨by rw [hgiven]; exact not_named_nil hlist,.inr ⟨rfl,fun p hp => ?_⟩⟩
      rw [given_of_bare fun f hf => hmissing f (later_fields hp hf)]
      exact not_named_nil hlist
  | some t =>
      rw [Option.elim_some,after]
      by_cases hlist : listB = []
      · refine .inl ⟨?_,if_pos (by simp [hlist])⟩
        rw [hgiven,hlist]
        exact .refl _
      · refine .inr ⟨by rw [hgiven]; exact not_named_nil hlist,.inl (if_neg fun h => ?_)⟩
        exact hlist (List.length_eq_zero_iff.mp h.symm)

include hps honce hinner in
theorem found_items (hgiven : o.given = is) (hne : is ≠ [])
    (hsilent : Silent giveKey (pieces fs++[⟨lead,.give⟩]))
    (hcounted : Counted getItemName listB is gs (x.rest++later.flatMap Offer.fields)) :
    Verdict getItemName listB o later next
      (x.found getItemName listB (behind ending later) next) := by
  have hformed : ∀ i ∈ is, ∀ p ∈ i.pieces, p.WellFormed := by
    intro i hi p hp
    refine hps p (List.mem_flatMap.mpr ⟨(lead,.give is),Layout.mem_give hinner ?_,?_⟩)
    · exact List.mem_append_right _ List.mem_cons_self
    · exact List.mem_cons_of_mem _ (List.mem_flatMap.mpr ⟨i,hi,hp⟩)
  have hlook : x.found getItemName listB (behind ending later) next =
      after listB next (itemsResult getItemName listB is 0) := by
    rw [found_give hps honce hinner hsilent]
    cases is with
    | nil => exact absurd rfl hne
    | cons i is => exact look_given hcounted.told hformed last_le_beyond fun hall =>
        closes_beyond hps hinner (hcounted.bare hall)
  rw [hlook,itemsResult]
  by_cases hall : ∀ i ∈ is, Listed getItemName listB i
  · rw [if_pos hall,after,Nat.zero_add]
    by_cases hlength : is.length = listB.length
    · rw [if_pos hlength]
      refine .inl ⟨?_,rfl⟩
      rw [hgiven]
      exact named_of_count hall hlength (hcounted.often hall hlength)
    · rw [if_neg hlength]
      refine .inr ⟨fun h => hlength ?_,.inl rfl⟩
      rw [hgiven] at h
      exact h.length
  · rw [if_neg hall]
    refine .inr ⟨fun h => hall ?_,.inl rfl⟩
    rw [hgiven] at h
    exact h.listed

end

theorem found_gives (hfields : o.fields = x.fields other) (honce : Once (x.fields other))
    (hps : ∀ p ∈ pieces (x.fields other), p.WellFormed)
    (hgives : Gives getItemName other listB x later) :
    Verdict getItemName listB o later next
      (x.found getItemName listB (behind ending later) next) := by
  rcases hgives with ⟨hlist,hnone,hsilent⟩ | ⟨fs,lead,is,gs,hinner,hsilent,hcounted⟩
  · exact found_ungiven hfields hps hlist hnone hsilent
  · have hsplit : o.fields = (x.before++(x.account,.account other)::
        (x.first++(x.state.1,.state x.state.2)::fs))++
          (lead,.give is)::(gs++(x.method.1,.method x.method.2)::x.rest) := by
      rw [hfields,Layout.fields,Layout.behind,Layout.inside_give hinner]
      simp only [List.append_assoc,List.cons_append]
    have hgiven : o.given = is := given_some (by rw [hfields]; exact honce) hsplit
    by_cases hempty : is = []
    · exact found_nothing hps honce hinner (by rw [hgiven,hempty]) hempty hsilent hcounted
    · exact found_items hps honce hinner hgiven hempty hsilent hcounted

end

/-! ## All offers -/

section
variable {getItemName : Bytes → Bytes → Option Bytes} {other : ℕ} {listB : List Bytes}
  {o : Offer} {later : List Offer} {ending : Bytes} {x : Layout} {run : Exec Int32}

theorem Answers.cons (h : Answers getItemName other listB later run)
    (ho : ¬Exact getItemName other listB o) :
    Answers getItemName other listB (o::later) run := by
  obtain ⟨r,hrun,hexact,hr⟩ := h
  refine ⟨r,hrun,hexact.trans ?_,hr⟩
  rw [List.exists_mem_cons_iff,or_iff_right ho]

theorem answers_here (ho : Exact getItemName other listB o) :
    Answers getItemName other listB (o::later) (.ok 0) :=
  ⟨0,rfl,iff_of_true rfl ⟨o,List.mem_cons_self,ho⟩,.inl rfl⟩

theorem answers_none (h : ∀ o ∈ later, ¬Exact getItemName other listB o) :
    Answers getItemName other listB later (.ok (-1)) := by
  refine ⟨-1,rfl,iff_of_false (by decide) ?_,.inr rfl⟩
  rintro ⟨o,ho,hexact⟩
  exact h o ho hexact

theorem trades_none (fuel : ℕ) :
    trades getItemName (decimal other) listB fuel none = .ok (-1) := by
  cases fuel with
  | zero => rfl
  | succ fuel => rfl

theorem behind_cons :
    behind ending (o::later) = text (pieces o.fields)++behind ending later := by
  rw [behind,List.flatMap_cons,pieces_append,text_append]
  rfl

theorem bounds_behind (hps : ∀ o ∈ later, ∀ p ∈ pieces o.fields, p.WellFormed)
    (hending : Bounds ending) : Bounds (behind ending later) := by
  refine bounds_text (fun p hp => ?_) hending
  obtain ⟨f,hf,hp⟩ := List.mem_flatMap.mp hp
  obtain ⟨o,ho,hf⟩ := List.mem_flatMap.mp hf
  exact hps o ho p (List.mem_flatMap.mpr ⟨f,hf,hp⟩)

/-- The search passes over an offer with another account. -/
theorem offer_foreign (hps : ∀ p ∈ pieces o.fields, p.WellFormed)
    (hrest : Bounds (behind ending later))
    (h : ∀ n, .account n ∈ o.values → ¬decimal other <+: decimal n) :
    strstr (accountKey++decimal other) (behind ending (o::later)) =
      strstr (accountKey++decimal other) (behind ending later) := by
  have hne : appidKey ≠ accountKey ∧ classidKey ≠ accountKey := by decide
  rw [behind_cons,strstr_skip_foreign hps ?_ hrest]
  intro p hp n hn
  obtain ⟨f,hf,hp⟩ := List.mem_flatMap.mp hp
  rcases List.mem_cons.mp hp with rfl | hp
  · refine h n (List.mem_map.mpr ⟨f,hf,?_⟩)
    cases hvalue : f.2 with
    | account m =>
        rw [hvalue] at hn
        cases hn
        rfl
    | state m => rw [hvalue] at hn; cases hn
    | give is => rw [hvalue] at hn; cases hn
    | receive is => rw [hvalue] at hn; cases hn
    | method n => rw [hvalue] at hn; cases hn
  · obtain ⟨i,-,hp⟩ := List.mem_flatMap.mp hp
    have hword : p.key.word = accountKey := by rw [hn]; rfl
    rcases i.pieces_word p hp with h | h
    · exact absurd (h.symm.trans hword) hne.1
    · exact absurd (h.symm.trans hword) hne.2

/-- The search stops at an offer with the account. -/
theorem offer_found (hfields : o.fields = x.fields other) (honce : Once (x.fields other))
    (hps : ∀ p ∈ pieces (x.fields other), p.WellFormed) :
    strstr (accountKey++decimal other) (behind ending (o::later)) =
      some (x.place other (behind ending later)) := by
  have hne : accountKey ≠ appidKey ∧ accountKey ≠ classidKey := by decide
  have hbefore : ∀ p ∈ pieces x.before, Foreign other p := fun p hp =>
    foreign_of_word (pieces_word hne.1 hne.2
      (fun f hf => honce.split f (List.mem_append_left _ hf)) p hp)
  have hformed : ∀ p ∈ pieces x.before, p.WellFormed :=
    Layout.formed hps (List.subset_append_left _ _)
  have haccount : (Piece.mk x.account (.account other)).WellFormed := by
    refine hps _ (List.mem_flatMap.mpr ⟨(x.account,.account other),?_,List.mem_cons_self⟩)
    exact List.mem_append_right _ List.mem_cons_self
  rw [behind_cons,hfields,Layout.fields,text_split,Field.key,
    strstr_skip_foreign hformed hbefore haccount.bounds_front]
  exact strstr_hit_account haccount rfl (List.prefix_refl _)

theorem state_of_mem (honce : Once (x.fields other)) (h : .state 3 ∈ (x.fields other).map Prod.snd) :
    x.state.2 = 3 := by
  obtain ⟨f,hf,hvalue⟩ := List.mem_map.mp h
  have hmem : (x.state.1,Field.state x.state.2) ∈ x.fields other :=
    Layout.mem_fields (List.mem_append_right _ List.mem_cons_self)
  have hword : f.2.key.word = stateKey := by rw [hvalue]; rfl
  have heq := List.inj_on_of_nodup_map honce hf hmem hword
  rw [heq] at hvalue
  exact Field.state.inj hvalue

/-- The search from some offers on. -/
theorem trades_legible {offers : List Offer} {fuel : ℕ} (honce : ∀ o ∈ offers, Once o.fields)
    (hcommas : ∀ o ∈ offers, ∀ f ∈ o.fields.tail, 44 ∈ f.1)
    (hps : ∀ o ∈ offers, ∀ p ∈ pieces o.fields, p.WellFormed)
    (hending : ¬accountKey <:+: ending) (hbounds : Bounds ending) (hother : (decimal other).length ≤ 81)
    (hfuel : (behind ending offers).length ≤ fuel) (hread : Legible getItemName other listB offers) :
    Answers getItemName other listB offers
      (trades getItemName (decimal other) listB fuel
        (strstr (accountKey++decimal other) (behind ending offers))) := by
  induction offers generalizing fuel with
  | nil =>
      have hnone : strstr (accountKey++decimal other) (behind ending []) = none := by
        refine strstr_eq_none.mpr fun h => hending ?_
        exact (List.prefix_append _ _).isInfix.trans h
      rw [hnone,trades_none]
      exact answers_none (List.forall_mem_nil _)
  | cons o later ih =>
      rw [List.forall_mem_cons] at honce hcommas hps
      obtain ⟨hreadable,hlegible⟩ := hread
      have hlater : (behind ending later).length ≤ (behind ending (o::later)).length := by
        rw [behind_cons,List.length_append]
        exact Nat.le_add_left _ _
      have hrest : Bounds (behind ending later) := bounds_behind hps.2 hbounds
      by_cases hfound : ∀ n, .account n ∈ o.values → ¬decimal other <+: decimal n
      · have hexact : ¬Exact getItemName other listB o := fun h =>
          hfound other h.account (List.prefix_refl _)
        rw [offer_foreign hps.1 hrest hfound]
        exact (ih honce.2 hcommas.2 hps.2 (hlater.trans hfuel) (hlegible hexact)).cons hexact
      simp only [not_forall,not_not] at hfound
      obtain ⟨n,hn,hfront⟩ := hfound
      have haccount : .account other ∈ o.values := hreadable.account n hn hfront ▸ hn
      obtain ⟨x,hfields,hplain,hstate⟩ := hreadable.order haccount
      rw [hfields] at honce hcommas hps
      have hplace : strstr (accountKey++decimal other) (behind ending (o::later)) =
          some (x.place other (behind ending later)) := offer_found hfields honce.1 hps.1
      have hlength := (strstr_length hplace).1
      rw [Layout.place,Key.text,Key.word,List.length_append,List.length_append,
        List.length_append] at hlength
      have hkey : accountKey.length = 18 := by decide
      cases fuel with
      | zero => omega
      | succ fuel =>
          have hnext : ¬Exact getItemName other listB o → Answers getItemName other listB (o::later)
              (trades getItemName (decimal other) listB fuel
                (strstr (accountKey++decimal other) (behind ending later))) := fun hexact =>
            (ih honce.2 hcommas.2 hps.2 (by omega) (hlegible hexact)).cons hexact
          rw [hplace,trades_place honce.1 hps.1 hcommas.1 hrest hplain hother]
          generalize trades getItemName (decimal other) listB fuel
            (strstr (accountKey++decimal other) (behind ending later)) = next at hnext ⊢
          split_ifs with hhead
          · refine hnext fun h => hhead ?_
            have hvalue := h.state
            rw [Offer.values,hfields] at hvalue
            rw [state_of_mem honce.1 hvalue]
            decide
          · obtain ⟨hthree,hgives⟩ := hstate (not_not.mp hhead)
            have hverdict : Verdict getItemName listB o later next
                (x.found getItemName listB (behind ending later) next) :=
              found_gives hfields honce.1 hps.1 hgives
            rcases hverdict with ⟨hnamed,hrun⟩ | ⟨hnamed,hrun | ⟨hrun,hlater⟩⟩
            · rw [hrun]
              refine answers_here ⟨haccount,?_,hnamed⟩
              rw [Offer.values,hfields,← hthree]
              refine List.mem_map_of_mem (a := (x.state.1,Field.state x.state.2)) ?_
              exact Layout.mem_fields (List.mem_append_right _ List.mem_cons_self)
            · rw [hrun]
              exact hnext fun h => hnamed h.items
            · rw [hrun]
              refine answers_none (List.forall_mem_cons.mpr ⟨fun h => hnamed h.items,?_⟩)
              exact fun p hp h => hlater p hp h.items

end

/-- The scraper answers as it should if it understands the offers, up to the first that is
asked for, and if the account fits its buffer. -/
theorem settles_of_legible {d : Document} (h : d.WellFormed)
    (getItemName : Bytes → Bytes → Option Bytes) {other : ℕ} (hother : (decimal other).length ≤ 81)
    {listB : List Bytes} (hread : Legible getItemName other listB d.offers) :
    Settles getItemName other listB d := by
  have hfits : ¬100 < accountKey.length+(decimal other).length+1 :=
    mt (search_long_iff _).mp hother.not_gt
  have hfirst : getNextTradeWithOther (some d.text) (decimal other) =
      .ok (strstr (accountKey++decimal other) (behind d.ending d.offers)) := by
    rw [getNextTradeWithOther,if_neg hfits]
    rfl
  have hfuel : (behind d.ending d.offers).length ≤ d.text.length := Nat.le_succ _
  rw [Settles,parseResponse,hfirst,bind_ok]
  exact trades_legible h.once h.commas h.pieces (h.ending _ List.mem_cons_self) h.bounds hother
    hfuel hread

/-- The one item there is. -/
def portal (_ _ : Bytes) : Option Bytes := some (ascii "Portal")

def portalItem : Item := ⟨ascii "\x7b",ascii "620",ascii ", ",ascii "7",false⟩

/-- An offer that gives the item, in the order of Steam. -/
def portalLayout (account : Bytes) (state : ℕ) : Layout where
  before := []
  account := account
  first := []
  state := (ascii ", \"message\": \"\", ",state)
  inner := [(ascii ", ",.give [portalItem])]
  method := (ascii "\x7d], ",0)
  rest := []

def portalOffer (lead : Bytes) (account state : ℕ) : Offer :=
  ⟨(portalLayout lead state).fields account⟩

def opening : Bytes := ascii "\"response\": \x7b\"trade_offers_received\": [\x7b"

def nextOffer : Bytes := ascii "\x7d, \x7b\"tradeofferid\": \"2\", "

/-- An offer with its fields in another order, and with names of fields in its message. -/
def otherOffer : Offer where
  fields :=
    [(opening,.method 0),
      (ascii ", ",.state 3),
      (ascii ", \"message\": \"items_to_give, trade_offer_state\", ",.receive [portalItem]),
      (ascii "\x7d], ",.account 7)]

/-- The third offer is the one that is asked for. -/
def answer : Document where
  offers := [otherOffer,portalOffer nextOffer 123 2,portalOffer nextOffer 123 3]
  ending := ascii "\x7d]\x7d\x7d"

theorem portal_counted (beyond : Fields) :
    Counted portal [ascii "Portal"] [portalItem] [] beyond where
  told := by
    refine ⟨⟨rfl,by decide,ascii "Portal",rfl,rfl,fun _ => List.mem_cons_self⟩,fun _ => trivial⟩
  bare := fun _ => List.forall_mem_nil _
  often := by
    intro _ _ name hname
    rw [List.mem_singleton.mp hname]
    decide
  more := fun h => absurd h (List.cons_ne_nil _ _)

theorem portal_gives (lead : Bytes) (state : ℕ) (later : List Offer) :
    Gives portal 123 [ascii "Portal"] (portalLayout lead state) later :=
  .inr ⟨[],ascii ", ",[portalItem],[],rfl,by decide,portal_counted _⟩

theorem answer_legible : Legible portal 123 [ascii "Portal"] answer.offers := by
  have hplain : ∀ state ∈ [2,3], (portalLayout nextOffer state).Plain := by
    intro state hstate
    rcases List.mem_pair.mp hstate with rfl | rfl
    · exact ⟨by decide,by decide⟩
    · exact ⟨by decide,by decide⟩
  have haccount (n m s : ℕ) (h : .account n ∈ (portalOffer nextOffer m s).values) : n = m := by
    simpa [portalOffer,portalLayout,Offer.values,Layout.fields,Layout.behind,Layout.inside] using h
  refine ⟨⟨fun n hn hfront => ?_,fun h => ?_⟩,fun _ => ⟨⟨fun n hn _ => haccount n 123 2 hn,
    fun _ => ⟨portalLayout nextOffer 2,rfl,hplain 2 (by decide),fun h => absurd h (by decide)⟩⟩,
    fun _ => ⟨⟨fun n hn _ => haccount n 123 3 hn,fun _ => ⟨portalLayout nextOffer 3,rfl,hplain 3 (by decide),
      fun _ => ⟨rfl,portal_gives nextOffer 3 []⟩⟩⟩,fun _ => trivial⟩⟩⟩
  · have hseven : n = 7 := by simpa [otherOffer,Offer.values] using hn
    rw [hseven] at hfront
    exact absurd hfront (by decide)
  · exact absurd h (by decide)

set_option maxRecDepth 4000 in
theorem answer_wellFormed : answer.WellFormed := by decide

theorem settles_of_legible_answer : answer.WellFormed ∧
    Legible portal 123 [ascii "Portal"] answer.offers ∧
      Settles portal 123 [ascii "Portal"] answer :=
  ⟨answer_wellFormed,answer_legible,
    settles_of_legible answer_wellFormed portal (by decide) answer_legible⟩

/-- An answer with one offer, of the account 123. -/
def stranger : Document where
  offers := [portalOffer opening 123 3]
  ending := ascii "\x7d]\x7d\x7d"

/-- The account 12 is paid for what the account 123 has got. -/
theorem stranger_taken :
    stranger.WellFormed ∧
      parseResponse portal (decimal 12) [ascii "Portal"] stranger.text = .ok 0 ∧
      (¬∃ o ∈ stranger.offers, Exact portal 12 [ascii "Portal"] o) ∧
      ¬Settles portal 12 [ascii "Portal"] stranger := by
  have hrun : parseResponse portal (decimal 12) [ascii "Portal"] stranger.text = .ok 0 := by
    decide +kernel
  have hnone : ¬∃ o ∈ stranger.offers, Exact portal 12 [ascii "Portal"] o := by
    rintro ⟨o,ho,hexact⟩
    rw [List.mem_singleton.mp ho] at hexact
    exact absurd hexact.account (by decide)
  refine ⟨by decide +kernel,hrun,hnone,?_⟩
  rintro ⟨r,hr,hiff,-⟩
  cases hrun.symm.trans hr
  exact hnone (hiff.mp rfl)

end TownCrier.SteamScraper
