import TownCrier.TradeDocument

/-!
# The items of an offer

The loop of `parse_response` over the items, on the text of an offer. Up to the first item
that is not in the list it has to find the name of each.
-/
namespace TownCrier.SteamScraper
open BigEndian Cpp Substrings

section
variable (getItemName : Bytes → Bytes → Option Bytes) (listB : List Bytes)

/-- The name of the item is in the list. -/
def Listed (i : Item) : Prop := ∃ name ∈ listB, getItemName i.appid i.classid = some name

instance (i : Item) : Decidable (Listed getItemName listB i) :=
  inferInstanceAs (Decidable (∃ name ∈ _, _))

/-- An item that has its app id first and ids of at most 20 bytes. When `appid` is asked for,
its name comes back, and the name begins no entry of the list without being one. -/
structure Told (appid : Bytes) (i : Item) : Prop where
  order : i.classFirst = false
  short : appid.length ≤ 20 ∧ i.classid.length ≤ 20
  name : ∃ name, getItemName i.appid i.classid = some name ∧
    getItemName appid i.classid = some name ∧ (inList listB name = true → name ∈ listB)

/-- The items are looked at up to the first that is not in the list. -/
def ToldFrom (appid : Bytes) : List Item → Prop
  | [] => True
  | i::is => Told getItemName listB appid i ∧
      (Listed getItemName listB i → ToldFrom (ascii "appid") is)

/-- The first item is asked for with its own app id, and all others with the word "appid". -/
def AllTold : List Item → Prop
  | [] => True
  | i::is => ToldFrom getItemName listB i.appid (i::is)

end

section
variable {getItemName : Bytes → Bytes → Option Bytes} {listB : List Bytes} {last temp : Bytes}

theorem items_none (fuel counter : ℕ) :
    items getItemName listB last fuel none counter = .ok (.listed counter) := by
  cases fuel with
  | zero => rfl
  | succ fuel => rfl

/-- Behind the offer the loop ends. -/
theorem items_behind {fuel : ℕ} (hfuel : 0 < fuel) (h : temp.length ≤ last.length) (counter : ℕ) :
    items getItemName listB last fuel (some temp) counter = .ok (.listed counter) := by
  cases fuel with
  | zero => omega
  | succ fuel =>
      rw [items,if_pos h]
      rfl

theorem strstr_quote_value {id : Bytes} (hid : 34 ∉ id) (rest : Bytes) :
    strstr [34] ((id++[34])++rest) = some (34::rest) := by
  rw [List.append_assoc]
  exact strstr_at (clear_of_notMem hid)

theorem copyId_value (id rest : Bytes) :
    copyId ((id++[34])++rest) (34::rest) = if 21 ≤ id.length then undefined else .ok id := by
  have hlen : ((id++[34])++rest).length-(34::rest).length = id.length := by
    simp only [List.length_append,List.length_cons,List.length_nil]
    omega
  have htake : ((id++[34])++rest).take id.length = id := by
    rw [List.append_assoc]
    exact List.take_left
  rw [copyId,hlen,htake]
  split_ifs
  · omega
  · rfl
  · rfl
  · omega

theorem advance_text {w v rest : Bytes} {n : ℕ} (h : w.length = n) :
    advance ((w++v)++rest) n = .ok (v++rest) := by
  rw [advance,List.append_assoc,if_pos (by simp [h]),← h,List.drop_left]
  rfl

/-- One round: the id in front of the next quote, and the class of the item. -/
theorem items_step {front rest' c rest : Bytes} {fuel counter : ℕ} (hopen : last.length < temp.length)
    (htemp : temp = (front++[34])++rest') (hfront : 34 ∉ front)
    (hclass : strstr classidKey temp = some ((Key.classid c).text++rest))
    (hc : ∀ b ∈ c, 48 ≤ b ∧ b ≤ 57) :
    items getItemName listB last (fuel+1) (some temp) counter =
      if 21 ≤ front.length ∨ 21 ≤ c.length then undefined
      else (getItemName front c).elim (pure .failed) fun name =>
        if inList listB name then
          items getItemName listB last fuel (strstr appidKey rest) (counter+1)
        else pure .unlisted := by
  have hquote : 34 ∉ c := fun h => absurd (hc 34 h).1 (by decide)
  have hkey : appidKey ∈ words := by simp [words]
  have hlow : ∀ b ∈ c++[34], b < 97 := Key.value_low (k := .classid c) hc
  have hlength : classidKey.length = 11 := by decide
  have hadvance : advance ((Key.classid c).text++rest) 11 = .ok ((c++[34])++rest) :=
    advance_text hlength
  have hnext : strstr appidKey ((c++[34])++rest) = strstr appidKey rest :=
    strstr_clear (clear_low hkey hlow)
  rw [items,if_neg (by omega),hclass,htemp,strstr_quote_value hfront]
  dsimp only
  rw [copyId_value,hadvance]
  by_cases hlong : 21 ≤ front.length
  · rw [if_pos hlong,if_pos (.inl hlong)]
    rfl
  rw [if_neg hlong,bind_ok,bind_ok,strstr_quote_value hquote]
  dsimp only
  rw [copyId_value]
  by_cases hlong' : 21 ≤ c.length
  · rw [if_pos hlong',if_pos (.inr hlong')]
    rfl
  rw [if_neg hlong',bind_ok,if_neg (not_or.mpr ⟨hlong,hlong'⟩),hnext]
  cases getItemName front c with
  | none => rfl
  | some name => rfl

/-- The next item, if any, stands behind the offer. -/
def Closes (last tail : Bytes) : Prop := ∀ t, strstr appidKey tail = some t → t.length ≤ last.length

theorem Item.pieces_length (is : List Item) (rest : Bytes) :
    is.length+rest.length ≤ (text (is.flatMap Item.pieces)++rest).length := by
  induction is with
  | nil => simp [text]
  | cons i is ih =>
      have hfirst : 0 < (text i.pieces).length := by
        rw [Item.pieces,text]
        split_ifs
        · simp only [List.flatMap_cons,Piece.text,List.length_append,List.length_cons]
          omega
        · simp only [List.flatMap_cons,Piece.text,List.length_append,List.length_cons]
          omega
      rw [List.flatMap_cons,text_append,List.length_append,List.length_cons]
      omega

theorem Item.text_cons {i : Item} (h : i.classFirst = false) (is : List Item) (rest : Bytes) :
    text ((i::is).flatMap Item.pieces)++rest =
      (Piece.mk i.lead (.appid i.appid)).text++((Piece.mk i.between (.classid i.classid)).text++
        (text (is.flatMap Item.pieces)++rest)) := by
  rw [List.flatMap_cons,Item.pieces,if_neg (by simp [h]),List.cons_append,List.cons_append,
    SteamScraper.text_cons,SteamScraper.text_cons]
  rfl

theorem Item.formed {i : Item} (h : i.classFirst = false) (hi : ∀ p ∈ i.pieces, p.WellFormed) :
    (Piece.mk i.lead (.appid i.appid)).WellFormed ∧
      (Piece.mk i.between (.classid i.classid)).WellFormed := by
  rw [Item.pieces,if_neg (by simp [h])] at hi
  exact ⟨hi _ List.mem_cons_self,hi _ (List.mem_cons_of_mem _ List.mem_cons_self)⟩

theorem inList_of_mem {name : Bytes} (h : name ∈ listB) : inList listB name = true :=
  List.any_eq_true.mpr ⟨name,h,List.isPrefixOf_iff_prefix.mpr (List.prefix_refl name)⟩

/-- A round with one item. -/
theorem items_told {i : Item} {front rest rest' : Bytes} {fuel counter : ℕ}
    (hi : Told getItemName listB front i) (hopen : last.length < temp.length)
    (htemp : temp = (front++[34])++rest') (hfront : 34 ∉ front)
    (hclass : strstr classidKey temp = some ((Key.classid i.classid).text++rest))
    (hc : ∀ b ∈ i.classid, 48 ≤ b ∧ b ≤ 57) :
    items getItemName listB last (fuel+1) (some temp) counter =
      if Listed getItemName listB i then
        items getItemName listB last fuel (strstr appidKey rest) (counter+1)
      else .ok .unlisted := by
  obtain ⟨name,hname,hasked,hlist⟩ := hi.name
  have hshort := hi.short
  rw [items_step hopen htemp hfront hclass hc,if_neg (by omega),hasked,Option.elim_some]
  by_cases hlisted : Listed getItemName listB i
  · obtain ⟨name',hmem,hname'⟩ := hlisted
    cases hname.symm.trans hname'
    rw [if_pos (inList_of_mem hmem),if_pos ⟨name,hmem,hname⟩]
  · have hnot : ¬inList listB name = true := fun h => hlisted ⟨name,hlist h,hname⟩
    rw [if_neg hnot,if_neg hlisted]
    rfl

/-- The value of the loop over some items. -/
def itemsResult (getItemName : Bytes → Bytes → Option Bytes) (listB : List Bytes) (is : List Item)
    (counter : ℕ) : Items :=
  if ∀ i ∈ is, Listed getItemName listB i then .listed (counter+is.length) else .unlisted

theorem itemsResult_cons (i : Item) (is : List Item) (counter : ℕ) :
    itemsResult getItemName listB (i::is) counter =
      if Listed getItemName listB i then itemsResult getItemName listB is (counter+1)
      else .unlisted := by
  simp only [itemsResult,List.forall_mem_cons,List.length_cons]
  by_cases hi : Listed getItemName listB i
  · rw [if_pos hi]
    simp only [hi,true_and,Nat.add_right_comm counter 1,Nat.add_assoc]
  · rw [if_neg hi,if_neg fun h => hi h.1]

theorem strstr_appid {lead id : Bytes} (h : (Piece.mk lead (.appid id)).WellFormed) (rest : Bytes) :
    strstr appidKey ((Piece.mk lead (.appid id)).text++rest) =
      some ((Key.appid id).text++rest) := by
  have hname : appidKey ∈ names := by decide
  exact strstr_hit (p := ⟨lead,.appid id⟩) (h.lead _ hname) (names_words _ hname)

theorem strstr_classid {lead id : Bytes} (h : (Piece.mk lead (.classid id)).WellFormed)
    (rest : Bytes) : strstr classidKey ((Piece.mk lead (.classid id)).text++rest) =
      some ((Key.classid id).text++rest) := by
  have hname : classidKey ∈ names := by decide
  exact strstr_hit (p := ⟨lead,.classid id⟩) (h.lead _ hname) (names_words _ hname)

/-- The rounds after the first, which begin at the key of an item. -/
theorem items_run {is : List Item} {tail : Bytes} {fuel : ℕ}
    (hall : ToldFrom getItemName listB (ascii "appid") is)
    (hformed : ∀ i ∈ is, ∀ p ∈ i.pieces, p.WellFormed) (hlong : last.length ≤ tail.length)
    (htail : (∀ i ∈ is, Listed getItemName listB i) → Closes last tail)
    (hfuel : is.length < fuel) (counter : ℕ) :
    items getItemName listB last fuel
        (strstr appidKey (text (is.flatMap Item.pieces)++tail)) counter =
      .ok (itemsResult getItemName listB is counter) := by
  induction is generalizing fuel counter with
  | nil =>
      have hnone : text ([].flatMap Item.pieces)++tail = tail := rfl
      have hresult : itemsResult getItemName listB [] counter = .listed counter :=
        if_pos (List.forall_mem_nil _)
      rw [hnone,hresult]
      cases hfind : strstr appidKey tail with
      | none => exact items_none fuel counter
      | some t => exact items_behind hfuel (htail (List.forall_mem_nil _) t hfind) counter
  | cons i is ih =>
      rw [List.forall_mem_cons] at hformed
      have horder := hall.1.order
      obtain ⟨happid,hclassid⟩ := Item.formed horder hformed.1
      have hlength := Item.pieces_length is tail
      have hwords : classidKey ∈ words ∧ appidKey ≠ classidKey := by decide
      have hkey : appidKey = (ascii "appid"++[34])++ascii ": \"" := by decide
      have htext (rest : Bytes) : (Key.appid i.appid).text++rest =
          (ascii "appid"++[34])++(ascii ": \""++((i.appid++[34])++rest)) := by
        rw [Key.text,Key.word,hkey]
        simp only [Key.value,List.append_assoc]
      have hclass (rest : Bytes) : strstr classidKey ((Key.appid i.appid).text++
          ((Piece.mk i.between (.classid i.classid)).text++rest)) =
            some ((Key.classid i.classid).text++rest) := by
        rw [strstr_clear (Key.clear (k := .appid i.appid) hwords.1 hwords.2 happid.id)]
        exact strstr_classid hclassid rest
      cases fuel with
      | zero => exact absurd hfuel (Nat.not_lt_zero _)
      | succ fuel =>
          rw [Item.text_cons horder,strstr_appid happid,
            items_told hall.1 ?_ (htext _) (by decide) (hclass _) hclassid.id,itemsResult_cons]
          · split_ifs with hi
            · refine ih (hall.2 hi) hformed.2 (fun h => htail ?_) (Nat.lt_of_succ_lt_succ hfuel) _
              exact List.forall_mem_cons.mpr ⟨hi,h⟩
            · rfl
          · simp only [List.length_append,Key.text,Piece.text,List.length_cons] at hlength ⊢
            omega

/-- The first round, which begins at the id of an item. -/
theorem items_first {i : Item} {is : List Item} {tail : Bytes} {fuel : ℕ}
    (hall : AllTold getItemName listB (i::is))
    (hformed : ∀ j ∈ i::is, ∀ p ∈ j.pieces, p.WellFormed) (hlong : last.length ≤ tail.length)
    (htail : (∀ j ∈ i::is, Listed getItemName listB j) → Closes last tail)
    (hfuel : (i::is).length < fuel) :
    items getItemName listB last fuel (some ((i.appid++[34])++
        ((Piece.mk i.between (.classid i.classid)).text++
          (text (is.flatMap Item.pieces)++tail)))) 0 =
      .ok (itemsResult getItemName listB (i::is) 0) := by
  rw [List.forall_mem_cons] at hformed
  obtain ⟨happid,hclassid⟩ := Item.formed hall.1.order hformed.1
  have hlength := Item.pieces_length is tail
  have hword : classidKey ∈ words := by decide
  have hquote : 34 ∉ i.appid := fun h => absurd (happid.id 34 h).1 (by decide)
  have hlow : ∀ b ∈ i.appid++[34], b < 97 := Key.value_low (k := .appid i.appid) happid.id
  cases fuel with
  | zero => exact absurd hfuel (Nat.not_lt_zero _)
  | succ fuel =>
      rw [items_told hall.1 ?_ rfl hquote
        ((strstr_clear (clear_low hword hlow)).trans (strstr_classid hclassid _)) hclassid.id,
        itemsResult_cons]
      · split_ifs with hi
        · refine items_run (hall.2 hi) hformed.2 hlong (fun h => htail ?_)
            (Nat.lt_of_succ_lt_succ hfuel) _
          exact List.forall_mem_cons.mpr ⟨hi,h⟩
        · rfl
      · simp only [List.length_append,Piece.text,List.length_cons] at hlength ⊢
        omega

end

end TownCrier.SteamScraper
