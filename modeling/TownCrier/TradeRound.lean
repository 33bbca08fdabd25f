import TownCrier.TradeItems

/-!
# One offer of an answer

A round of the loop of `parse_response` over the trades, at an offer that has its fields
in the order in which they are looked for. The other fields may stand anywhere.
-/
namespace TownCrier.SteamScraper
open BigEndian Cpp Substrings

/-- The fields of an offer from its account on. -/
structure Layout where
  before : Fields
  account : Bytes
  first : Fields
  state : Bytes × ℕ
  inner : Fields
  method : Bytes × ℕ
  rest : Fields

namespace Layout

/-- What stands behind the state. -/
def inside (x : Layout) : Fields := x.inner++(x.method.1,.method x.method.2)::x.rest

/-- What stands behind the account. -/
def behind (x : Layout) : Fields := x.first++(x.state.1,.state x.state.2)::x.inside

def fields (x : Layout) (n : ℕ) : Fields := x.before++(x.account,.account n)::x.behind

/-- From the account on the searches for the state and the method end at their fields. -/
structure Plain (x : Layout) : Prop where
  state : Silent stateKey (pieces x.first++[⟨x.state.1,.state x.state.2⟩])
  method : Silent methodKey
    (pieces (x.first++(x.state.1,.state x.state.2)::x.inner)++[⟨x.method.1,.method x.method.2⟩])

end Layout

/-! ## Searches among fields -/

section
variable {w lead rest tail ending : Bytes} {f : Field} {fs gs : Fields} {x : Layout} {n other : ℕ}

theorem text_split : text (pieces (fs++(lead,f)::gs))++rest =
    text (pieces fs)++((Piece.mk lead f.key).text++
      (text (f.items.flatMap Item.pieces)++(text (pieces gs)++rest))) := by
  rw [pieces_append,text_append,pieces_cons,text_cons,text_append]

/-- The search for a field ends at it. -/
theorem strstr_field (hw : f.key.word ∈ words) (happid : f.key.word ≠ appidKey)
    (hclassid : f.key.word ≠ classidKey) (hps : ∀ p ∈ pieces fs, p.WellFormed)
    (hsilent : Silent f.key.word (pieces fs++[⟨lead,f.key⟩]))
    (hother : ∀ g ∈ fs, g.2.key.word ≠ f.key.word) :
    strstr f.key.word (text (pieces (fs++(lead,f)::gs))++rest) =
      some (f.key.text++(text (f.items.flatMap Item.pieces)++(text (pieces gs)++rest))) := by
  rw [silent_append,silent_cons] at hsilent
  rw [text_split,strstr_skip hw hps hsilent.1 (pieces_word happid hclassid hother)]
  exact strstr_hit (p := ⟨lead,f.key⟩) hsilent.2.1 hw

namespace Layout

/-- The text of an offer from its account on, with what comes after it. -/
def place (x : Layout) (n : ℕ) (tail : Bytes) : Bytes :=
  (Key.account n).text++(text (pieces x.behind)++tail)

/-- The text of an offer from its last field on. -/
def last (x : Layout) (tail : Bytes) : Bytes :=
  (Key.method x.method.2).text++(text (pieces x.rest)++tail)

end Layout

section
variable (honce : Once (x.fields n))
  (hps : ∀ p ∈ pieces (x.fields n), p.WellFormed)

theorem Layout.mem_fields {f : Bytes × Field} (h : f ∈ x.behind) : f ∈ x.fields n :=
  List.mem_append_right _ (List.mem_cons_of_mem _ h)

include hps in
theorem Layout.formed (hsub : fs ⊆ x.fields n) : ∀ p ∈ pieces fs, p.WellFormed := by
  intro p hp
  obtain ⟨f,hf,hp⟩ := List.mem_flatMap.mp hp
  exact hps p (List.mem_flatMap.mpr ⟨f,hsub hf,hp⟩)

include honce in
/-- There is one account in an offer. -/
theorem Layout.foreign_behind : ∀ p ∈ pieces x.behind, Foreign other p := by
  have hne : accountKey ≠ appidKey ∧ accountKey ≠ classidKey := by decide
  intro p hp
  refine foreign_of_word (pieces_word hne.1 hne.2 (fun f hf => ?_) p hp)
  exact honce.split f (List.mem_append_right _ hf)

include honce hps in
theorem place_method (hx : x.Plain) :
    strstr methodKey (x.place n tail) = some (x.last tail) := by
  have hne : methodKey ∈ words ∧ accountKey ≠ methodKey ∧ methodKey ≠ appidKey ∧
      methodKey ≠ classidKey := by decide
  have hsplit : x.behind =
      (x.first++(x.state.1,.state x.state.2)::x.inner)++(x.method.1,.method x.method.2)::x.rest := by
    rw [Layout.behind,Layout.inside,List.append_assoc,List.cons_append]
  have hsub : x.first++(x.state.1,.state x.state.2)::x.inner ⊆ x.fields n := fun f hf =>
    Layout.mem_fields (by rw [hsplit]; exact List.mem_append_left _ hf)
  have hfields : x.fields n = (x.before++(x.account,.account n)::
      (x.first++(x.state.1,.state x.state.2)::x.inner))++(x.method.1,.method x.method.2)::x.rest := by
    rw [Layout.fields,hsplit]
    simp only [List.append_assoc,List.cons_append]
  rw [hfields] at honce
  rw [Layout.place,strstr_clear (Key.clear (k := .account n) hne.1 hne.2.1 (by simp [Key.id])),
    hsplit]
  refine strstr_field (f := .method x.method.2) hne.1 hne.2.2.1 hne.2.2.2 (Layout.formed hps hsub)
    hx.method fun f hf => honce.split f ?_
  exact List.mem_append_left _ (List.mem_append_right _ (List.mem_cons_of_mem _ hf))

include honce hps in
theorem place_state (hx : x.Plain) : strstr stateKey (x.place n tail) =
    some ((Key.state x.state.2).text++(text (pieces x.inside)++tail)) := by
  have hne : stateKey ∈ words ∧ accountKey ≠ stateKey ∧ stateKey ≠ appidKey ∧
      stateKey ≠ classidKey := by decide
  have hsub : x.first ⊆ x.fields n := fun f hf =>
    Layout.mem_fields (List.mem_append_left _ hf)
  have hfields : x.fields n = (x.before++(x.account,.account n)::x.first)++
      (x.state.1,.state x.state.2)::x.inside := by
    rw [Layout.fields,Layout.behind,List.append_assoc,List.cons_append]
  rw [hfields] at honce
  rw [Layout.place,strstr_clear (Key.clear (k := .account n) hne.1 hne.2.1 (by simp [Key.id])),
    Layout.behind]
  refine strstr_field (f := .state x.state.2) hne.1 hne.2.2.1 hne.2.2.2 (Layout.formed hps hsub)
    hx.state fun f hf => honce.split f ?_
  exact List.mem_append_left _ (List.mem_append_right _ (List.mem_cons_of_mem _ hf))

end

/-! ## One round -/

theorem search_long_iff (s : Bytes) : 100 < accountKey.length+s.length+1 ↔ 81 < s.length := by
  have hlength : accountKey.length = 18 := by decide
  omega

theorem decimal_ne_nil (n : ℕ) : decimal n ≠ [] := by
  rw [decimal,ne_eq,List.map_eq_nil_iff]
  exact Nat.toDigits_ne_nil

section
variable (honce : Once (x.fields n))
  (hps : ∀ p ∈ pieces (x.fields n), p.WellFormed) (htail : Bounds tail)
  (hother : (decimal other).length ≤ 81)
include honce hps htail hother

theorem getNext_place : getNextTradeWithOther (some (x.place n tail)) (decimal other) =
    .ok (strstr (accountKey++decimal other) tail) := by
  have hfits : ¬100 < accountKey.length+(decimal other).length+1 :=
    mt (search_long_iff _).mp hother.not_gt
  have hkey : accountKey = 97::accountKey.tail := by decide
  have hadvance : advance (x.place n tail) 1 =
      .ok ((accountKey.tail++decimal n)++(text (pieces x.behind)++tail)) := by
    rw [Layout.place,Key.text,Key.word,hkey]
    rfl
  have hformed := Layout.formed hps fun f hf => Layout.mem_fields (x := x) hf
  rw [getNextTradeWithOther,if_neg hfits,hadvance,bind_ok,strstr_clear (account_tail n other),
    strstr_skip_foreign hformed (Layout.foreign_behind honce) htail]
  rfl

end

/-- The number of the state is followed by a comma in front of the last field. -/
theorem inside_comma (tail : Bytes) (hcommas : ∀ f ∈ (x.fields n).tail, 44 ∈ f.1) :
    ∃ t, strstr [44] (decimal x.state.2++(text (pieces x.inside)++tail)) = some t ∧
      (x.last tail).length ≤ t.length := by
  have hmem : (x.method.1,Field.method x.method.2) ∈ (x.fields n).tail := by
    have hsplit : x.fields n = (x.before++(x.account,.account n)::(x.first++
        (x.state.1,.state x.state.2)::x.inner))++(x.method.1,.method x.method.2)::x.rest := by
      simp only [Layout.fields,Layout.behind,Layout.inside,List.append_assoc,List.cons_append]
    rw [hsplit,List.tail_append_of_ne_nil (by simp)]
    exact List.mem_append_right _ List.mem_cons_self
  obtain ⟨u,v,hlead,hu⟩ := List.eq_append_cons_of_mem
    (List.mem_append_right (decimal x.state.2++text (pieces x.inner)) (hcommas _ hmem))
  refine ⟨44::(v++(34::x.last tail)),?_,?_⟩
  · have htext : decimal x.state.2++(text (pieces x.inside)++tail) =
        ((decimal x.state.2++text (pieces x.inner))++x.method.1)++(34::x.last tail) := by
      rw [Layout.inside,text_split,Layout.last]
      simp only [Piece.text,Field.key,Field.items,List.flatMap_nil,List.append_assoc,
        List.cons_append,List.nil_append]
      rfl
    rw [htext,hlead,List.append_assoc,List.cons_append]
    exact strstr_at (clear_of_notMem hu)
  · simp only [List.length_cons,List.length_append]
    omega

/-- The loop over the items, as the loop over the trades goes on after it. -/
def after (listB : List Bytes) (next : Exec Int32) : Items → Exec Int32
  | .failed => pure (-1)
  | .unlisted => next
  | .listed counter => if counter = listB.length then pure 0 else next

/-- An offer from its first item on. -/
def look (getItemName : Bytes → Bytes → Option Bytes) (listB : List Bytes) (last : Bytes)
    (next : Exec Int32) (temp : Bytes) : Exec Int32 :=
  (strstr appidKey temp).elim (pure (-1)) fun temp =>
    advance temp 9 >>= fun temp =>
      items getItemName listB last (temp.length+1) (some temp) 0 >>= after listB next

/-- An offer behind its state, if that is right. -/
def Layout.found (getItemName : Bytes → Bytes → Option Bytes) (listB : List Bytes) (x : Layout)
    (tail : Bytes) (next : Exec Int32) : Exec Int32 :=
  (strstr giveKey (text (pieces x.inside)++tail)).elim (pure (-1)) fun temp =>
    if temp.length < (x.last tail).length then next
    else look getItemName listB (x.last tail) next temp

section
variable {getItemName : Bytes → Bytes → Option Bytes} {listB : List Bytes} {fuel : ℕ}
  (honce : Once (x.fields n))
  (hps : ∀ p ∈ pieces (x.fields n), p.WellFormed) (hcommas : ∀ f ∈ (x.fields n).tail, 44 ∈ f.1)
  (htail : Bounds tail) (hx : x.Plain) (hother : (decimal other).length ≤ 81)
include honce hps hcommas htail hx hother

/-- One round of the loop over the trades, at an account. -/
theorem trades_place :
    trades getItemName (decimal other) listB (fuel+1) (some (x.place n tail)) =
      if (decimal x.state.2).head? ≠ some 51 then
        trades getItemName (decimal other) listB fuel (strstr (accountKey++decimal other) tail)
      else x.found getItemName listB tail
        (trades getItemName (decimal other) listB fuel
          (strstr (accountKey++decimal other) tail)) := by
  have hgiveWord : giveKey ∈ words := by decide
  have hadvance : advance ((Key.state x.state.2).text++(text (pieces x.inside)++tail)) 20 =
      .ok (decimal x.state.2++(text (pieces x.inside)++tail)) := by
    have hlength : (stateKey++ascii "\": ").length = 20 := by decide
    rw [Key.text,Key.word,Key.value,← List.append_assoc stateKey]
    exact advance_text hlength
  obtain ⟨t,hcomma,hend⟩ := inside_comma tail hcommas
  have hhead : (decimal x.state.2++(text (pieces x.inside)++tail)).head? =
      (decimal x.state.2).head? := List.head?_append_of_ne_nil _ (decimal_ne_nil x.state.2)
  have hgive : strstr giveKey (decimal x.state.2++(text (pieces x.inside)++tail)) =
      strstr giveKey (text (pieces x.inside)++tail) :=
    strstr_clear (clear_low hgiveWord (decimal_low x.state.2))
  have hnext : getNextTradeWithOther (some (x.place n tail)) (decimal other) =
      .ok (strstr (accountKey++decimal other) tail) := getNext_place honce hps htail hother
  rw [trades,place_method honce hps hx,place_state honce hps hx]
  dsimp only
  rw [hadvance,bind_ok,hcomma]
  dsimp only
  rw [if_neg (by omega),hhead,hgive,hnext,bind_ok]
  split_ifs with hstate
  · rfl
  rw [Layout.found]
  cases strstr giveKey (text (pieces x.inside)++tail) with
  | none => rfl
  | some temp =>
      dsimp only [Option.elim_some]
      split_ifs with hbehind
      · rfl
      rw [look]
      cases strstr appidKey temp with
      | none => rfl
      | some temp =>
          dsimp only [Option.elim_some]
          cases advance temp 9 with
          | error f => rfl
          | ok temp =>
              rw [bind_ok,bind_ok]
              cases items getItemName listB (x.last tail) (temp.length+1) (some temp) 0 with
              | error f => rfl
              | ok result =>
                  rw [bind_ok,bind_ok]
                  cases result with
                  | failed => rfl
                  | unlisted => rfl
                  | listed counter => rfl

end

/-! ## The items given -/

section
variable {getItemName : Bytes → Bytes → Option Bytes} {listB : List Bytes} {last : Bytes}
  {next : Exec Int32}

theorem strstr_give : strstr appidKey (Key.give.text++tail) = strstr appidKey tail := by
  have hne : appidKey ∈ words ∧ giveKey ≠ appidKey := by decide
  exact strstr_clear (Key.clear (k := .give) hne.1 hne.2 (by simp [Key.id]))

theorem look_given {i : Item} {is : List Item} (hall : AllTold getItemName listB (i::is))
    (hformed : ∀ j ∈ i::is, ∀ p ∈ j.pieces, p.WellFormed) (hlong : last.length ≤ tail.length)
    (htail : (∀ j ∈ i::is, Listed getItemName listB j) → Closes last tail) :
    look getItemName listB last next
        (Key.give.text++(text ((i::is).flatMap Item.pieces)++tail)) =
      after listB next (itemsResult getItemName listB (i::is) 0) := by
  have hkey : appidKey.length = 9 := by decide
  have happid := (Item.formed hall.1.order (hformed i List.mem_cons_self)).1
  have hlength := Item.pieces_length is tail
  have hadvance (rest : Bytes) : advance ((Key.appid i.appid).text++rest) 9 =
      .ok ((i.appid++[34])++rest) := advance_text hkey
  rw [look,strstr_give,Item.text_cons hall.1.order,strstr_appid happid,Option.elim_some,hadvance,
    bind_ok,items_first hall hformed hlong htail (by
      simp only [List.length_append,List.length_cons,Piece.text] at hlength ⊢
      omega)]
  rfl

/-- Without an item the search for one ends behind the offer. -/
theorem look_empty (htail : Closes last tail) :
    look getItemName listB last next (Key.give.text++tail) =
      (strstr appidKey tail).elim (pure (-1)) fun _ => after listB next (.listed 0) := by
  rw [look,strstr_give]
  cases hfind : strstr appidKey tail with
  | none => rfl
  | some t =>
      have hclose := htail t hfind
      have hlength := (strstr_length hfind).2
      have hkey : appidKey.length = 9 := by decide
      have hadvance : advance t 9 = .ok (t.drop 9) := if_pos (by omega)
      rw [Option.elim_some,hadvance,bind_ok,items_behind (Nat.succ_pos _) (by
        rw [List.length_drop]
        omega),bind_ok]
      rfl

end

section
variable (hps : ∀ p ∈ pieces (x.fields n), p.WellFormed)
include hps

/-- Fields without items are passed over in the search for the next item. -/
theorem strstr_bare (hsub : fs++[(x.method.1,.method x.method.2)] ⊆ x.fields n)
    (hbare : ∀ f ∈ fs, f.2.items = []) :
    strstr appidKey (text (pieces (fs++(x.method.1,.method x.method.2)::x.rest))++tail) =
      strstr appidKey (text (pieces x.rest)++tail) := by
  have hword : appidKey ∈ words ∧ appidKey ∈ names := by decide
  have hformed := Layout.formed hps hsub
  have hall : ∀ f ∈ fs++[(x.method.1,Field.method x.method.2)], f.2.items = [] := by
    intro f hf
    rcases List.mem_append.mp hf with hf | hf
    · exact hbare f hf
    · rw [List.mem_singleton.mp hf]
      rfl
  have hsplit : fs++(x.method.1,.method x.method.2)::x.rest =
      (fs++[(x.method.1,.method x.method.2)])++x.rest := by
    rw [List.append_assoc,List.cons_append,List.nil_append]
  rw [hsplit,pieces_append,text_append]
  exact strstr_skip hword.1 hformed (silent_names hword.2 hformed) (pieces_bare hall)

/-- Behind the items given no item is left in the offer. -/
theorem closes_rest (hsub : fs++[(x.method.1,.method x.method.2)] ⊆ x.fields n)
    (hbare : ∀ f ∈ fs, f.2.items = []) :
    Closes (x.last tail) (text (pieces (fs++(x.method.1,.method x.method.2)::x.rest))++tail) := by
  intro t ht
  rw [strstr_bare hps hsub hbare] at ht
  have hlength := (strstr_length ht).1
  rw [Layout.last,List.length_append]
  omega

end

end
end TownCrier.SteamScraper
