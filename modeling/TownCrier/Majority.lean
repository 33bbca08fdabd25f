import TownCrier.PutOptionVote
import TownCrier.CallTree
import Mathlib.Data.List.Nodup

/-!
# When two oracles agree

Before a price has been paid out, every stored price is one that its oracle gave,
and no two are equal, so the first match is an agreement of two oracles. The
price of the second of them is not stored, and nothing but an empty balance keeps
the third from matching again: either price or the empty slot will do, as soon as
the issuer has refused what was left or new ether has come in.
-/
namespace TownCrier.PutOptionVote
open CallMachine Evm PutOptions

/-- A call of `settle` by an oracle, and whether there was any ether. -/
structure Delivery where
  index : Fin 3
  price : UInt256
  taken : Bool

/-- What a buyer was to get for so many units. -/
structure Offer where
  value : UInt256
  price : UInt256
  units : UInt256

def Event.delivery : Event → Option Delivery
  | .pay price _ (.settle index) => some ⟨index,price,true⟩
  | .ignored (some index) price => some ⟨index,price,false⟩
  | _ => none

def Purpose.payout : Purpose → Option UInt256
  | .remainder price => some price
  | _ => none

def offer (t : Transfer Purpose) : Option Offer :=
  match t.purpose with
  | .optionValue price units => some ⟨t.value,price,units⟩
  | _ => none

def deliveries (w : World) : List Delivery := w.logs.filterMap Event.delivery

/-- The price of each run of the branch that pays. -/
def payouts (w : World) : List UInt256 := w.sent.filterMap fun t => t.purpose.payout

def offers (w : World) : List Offer := w.sent.filterMap offer

/-- The issuer did not take what was left after a pay-out. -/
def Refused (w : World) : Prop := ∃ t ∈ w.sent, t.purpose.payout.isSome ∧ t.success = false

/-- The ether that came in, from the last pay-out on. -/
def Event.counted (n : ℕ) : Event → ℕ
  | .received value => n+value.toNat
  | .pay _ _ .checkAndPay => 0
  | _ => n

def since (w : World) : ℕ := w.logs.foldl Event.counted 0

@[simp] theorem since_emit (w : World) (e : Event) : since (w.emit e) = e.counted (since w) := by
  rw [since,Account.logs_emit,List.foldl_append]
  rfl

/-- The vote of the oracles, without the rest of the contract. -/
structure View where
  strike : UInt256
  oracles : Oracles
  deliveries : List Delivery
  payouts : List UInt256
  offers : List Offer

def view (w : World) : View :=
  ⟨w.storage.STRIKE_PRICE,w.storage.oracles,deliveries w,payouts w,offers w⟩

/-- The difference to the strike price is offered for every unit, once. -/
def Offered (strike price : UInt256) (L : List Offer) : Prop :=
  if price < strike then ∃ o, L = [o] ∧ o.price = price ∧
    o.value.toNat = (strike.toNat-price.toNat)*o.units.toNat
  else L = []

namespace View

/-- At most one price is paid out, two oracles gave it, and a price that two of
them gave is the one which counts. -/
structure Agreed (v : View) : Prop where
  once : v.payouts.length ≤ 1
  backed : ∀ p ∈ v.payouts, ∃ d₁ ∈ v.deliveries, ∃ d₂ ∈ v.deliveries,
    d₁.index ≠ d₂.index ∧ d₁.price = p ∧ d₂.price = p
  offered : ∀ d₁ ∈ v.deliveries, ∀ d₂ ∈ v.deliveries, d₁.index ≠ d₂.index →
    d₁.price = d₂.price → Offered v.strike d₁.price v.offers

/-- The vote while no price has been paid out. -/
structure Open (v : View) : Prop where
  offers : v.offers = []
  blank : ∀ i, v.oracles.delivered i = false → v.oracles.prices i = 0
  prices : ∀ d ∈ v.deliveries, d.taken = true → v.oracles.prices d.index = d.price
  distinct : ∀ d₁ ∈ v.deliveries, ∀ d₂ ∈ v.deliveries, d₁.index ≠ d₂.index →
    d₁.taken = true → d₂.taken = true → d₁.price ≠ d₂.price
  ignored : ∀ d ∈ v.deliveries, d.taken = false → ¬d.price < v.strike

/-- Two deliveries decided. The price of the first is stored, and the slot of the
second is as it was. -/
structure Decision (v : View) (d₁ d₂ : Delivery) : Prop where
  first : d₁ ∈ v.deliveries
  second : d₂ ∈ v.deliveries
  others : d₁.index ≠ d₂.index
  same : d₁.price = d₂.price
  payouts : v.payouts = [d₁.price]
  offered : Offered v.strike d₁.price v.offers
  stored : v.oracles.prices d₁.index = d₁.price
  blank : v.oracles.prices d₂.index = 0

structure Tally (v : View) : Prop where
  nodup : (v.deliveries.map Delivery.index).Nodup
  flags : ∀ i, v.oracles.delivered i = true ↔ ∃ d ∈ v.deliveries, d.index = i ∧ d.taken = true
  undecided : v.payouts = [] → v.Open
  decided : v.payouts ≠ [] → ∃ d₁ d₂, v.Decision d₁ d₂

variable {v : View} {i : Fin 3} {p : UInt256}

theorem Tally.unique (h : v.Tally) {d₁ d₂ : Delivery} (h₁ : d₁ ∈ v.deliveries)
    (h₂ : d₂ ∈ v.deliveries) (hindex : d₁.index = d₂.index) : d₁ = d₂ :=
  List.inj_on_of_nodup_map h.nodup h₁ h₂ hindex

/-- Two of three and two of three have one in common. -/
theorem common_index : ∀ i j k l : Fin 3, i ≠ j → k ≠ l → i = k ∨ i = l ∨ j = k ∨ j = l := by
  decide

theorem other_index : ∀ i j : Fin 3, i ≠ j → j = i+1 ∨ j = i+2 := by
  decide

theorem third_index : ∀ i j k : Fin 3, j ≠ k → j ≠ i → k ≠ i →
    i+1 = j ∧ i+2 = k ∨ i+1 = k ∧ i+2 = j := by
  decide

theorem Tally.agreed (h : v.Tally) : v.Agreed := by
  by_cases hpaid : v.payouts = []
  · have hopen := h.undecided hpaid
    refine ⟨by rw [hpaid]; exact Nat.zero_le 1,by rw [hpaid]; nofun,fun d₁ h₁ d₂ h₂ hne hprice => ?_⟩
    have hhigh : ¬d₁.price < v.strike := by
      by_cases ht₁ : d₁.taken = true
      · by_cases ht₂ : d₂.taken = true
        · exact absurd hprice (hopen.distinct d₁ h₁ d₂ h₂ hne ht₁ ht₂)
        · rw [hprice]
          exact hopen.ignored d₂ h₂ (Bool.eq_false_of_not_eq_true ht₂)
      · exact hopen.ignored d₁ h₁ (Bool.eq_false_of_not_eq_true ht₁)
    rw [Offered,if_neg hhigh]
    exact hopen.offers
  · obtain ⟨d₁,d₂,h₁,h₂,hne,hprice,hpayouts,hoffered,-,-⟩ := h.decided hpaid
    refine ⟨by rw [hpayouts]; exact Nat.le_refl 1,fun p hp => ?_,fun e₁ g₁ e₂ g₂ hne' hprice' => ?_⟩
    · rw [hpayouts,List.mem_singleton] at hp
      exact ⟨d₁,h₁,d₂,h₂,hne,hp.symm,hprice.symm.trans hp.symm⟩
    · have hsame : e₁.price = d₁.price := by
        rcases common_index _ _ _ _ hne hne' with hi | hi | hi | hi
        · rw [h.unique h₁ g₁ hi]
        · rw [h.unique h₁ g₂ hi,hprice']
        · rw [hprice,h.unique h₂ g₁ hi]
        · rw [hprice,h.unique h₂ g₂ hi,hprice']
      rw [hsame]
      exact hoffered

theorem Tally.append_nodup (h : v.Tally) {t : Bool} (hnew : ∀ d ∈ v.deliveries, d.index ≠ i) :
    ((v.deliveries++[(⟨i,p,t⟩ : Delivery)]).map Delivery.index).Nodup := by
  rw [List.map_append,List.nodup_append]
  refine ⟨h.nodup,List.nodup_singleton _,fun j hj k hk hjk => ?_⟩
  obtain ⟨d,hd,rfl⟩ := List.mem_map.mp hj
  exact hnew d hd (hjk.trans (List.mem_singleton.mp hk))

/-- One more delivery does not undo a decision. -/
theorem Decision.grow {d₁ d₂ : Delivery} (h : v.Decision d₁ d₂) {o : Oracles}
    (hprices : ∀ d ∈ v.deliveries, o.prices d.index = v.oracles.prices d.index) (d : Delivery) :
    Decision {v with oracles := o, deliveries := v.deliveries++[d]} d₁ d₂ where
  first := List.mem_append_left _ h.first
  second := List.mem_append_left _ h.second
  others := h.others
  same := h.same
  payouts := h.payouts
  offered := h.offered
  stored := (hprices d₁ h.first).trans h.stored
  blank := (hprices d₂ h.second).trans h.blank

/-- What the third oracle can match: the price, and the slot that was left empty. -/
theorem Decision.matched {d₁ d₂ : Delivery} (h : v.Decision d₁ d₂)
    (hnew : ∀ d ∈ v.deliveries, d.index ≠ i) (hmatch : v.oracles.Matched i p) :
    p = d₁.price ∨ p = 0 := by
  rcases third_index i d₁.index d₂.index h.others (hnew d₁ h.first) (hnew d₂ h.second) with
    ⟨hfirst,hsecond⟩ | ⟨hsecond,hfirst⟩
  all_goals
    rw [Oracles.Matched,hfirst,hsecond,h.stored,h.blank] at hmatch
    rcases hmatch with ⟨-,hp⟩ | ⟨-,hp⟩
    all_goals simp [← hp]

/-- A delivery to an empty contract. -/
theorem Tally.ignore (h : v.Tally) (hnew : ∀ d ∈ v.deliveries, d.index ≠ i)
    (hhigh : v.payouts = [] → ¬p < v.strike) :
    Tally {v with deliveries := v.deliveries++[⟨i,p,false⟩]} where
  nodup := h.append_nodup hnew
  flags j := by
    rw [h.flags j]
    simp
  undecided hpaid := by
    have hopen := h.undecided hpaid
    refine ⟨hopen.offers,hopen.blank,fun d hd ht => ?_,fun d₁ h₁ d₂ h₂ hne ht₁ ht₂ => ?_,
      fun d hd ht => ?_⟩
    · rcases List.mem_append.mp hd with hd | hd
      · exact hopen.prices d hd ht
      · rw [List.mem_singleton.mp hd] at ht
        cases ht
    · rcases List.mem_append.mp h₁ with h₁ | h₁
      · rcases List.mem_append.mp h₂ with h₂ | h₂
        · exact hopen.distinct d₁ h₁ d₂ h₂ hne ht₁ ht₂
        · rw [List.mem_singleton.mp h₂] at ht₂
          cases ht₂
      · rw [List.mem_singleton.mp h₁] at ht₁
        cases ht₁
    · rcases List.mem_append.mp hd with hd | hd
      · exact hopen.ignored d hd ht
      · rw [List.mem_singleton.mp hd]
        exact hhigh hpaid
  decided hpaid := by
    obtain ⟨d₁,d₂,hdecision⟩ := h.decided hpaid
    exact ⟨d₁,d₂,hdecision.grow (fun _ _ => rfl) _⟩

theorem Tally.flags_taken (h : v.Tally) (j : Fin 3) :
    Function.update v.oracles.delivered i true j = true ↔
      ∃ d ∈ v.deliveries++[⟨i,p,true⟩], d.index = j ∧ d.taken = true := by
  rw [Function.update_apply]
  by_cases hj : j = i
  · subst hj
    simp
  · rw [if_neg hj,h.flags j]
    simp [Ne.symm hj]

/-- Nobody has given a price that does not match. -/
theorem Tally.unmatched (h : v.Tally) (hpaid : v.payouts = []) (hno : ¬v.oracles.Matched i p) :
    ∀ d ∈ v.deliveries, d.index ≠ i → d.taken = true → d.price ≠ p := by
  rintro d hd hne ht rfl
  have hflag := (h.flags d.index).mpr ⟨d,hd,rfl,ht⟩
  have hprice := (h.undecided hpaid).prices d hd ht
  rcases other_index i d.index hne.symm with hj | hj
  · exact hno (.inl (by rw [← hj]; exact ⟨hflag,hprice⟩))
  · exact hno (.inr (by rw [← hj]; exact ⟨hflag,hprice⟩))

/-- A delivery whose price is stored. -/
theorem Tally.store (h : v.Tally) (hnew : ∀ d ∈ v.deliveries, d.index ≠ i)
    (hno : ¬v.oracles.Matched i p) :
    Tally {v with
      oracles := {v.oracles with
        delivered := Function.update v.oracles.delivered i true
        prices := Function.update v.oracles.prices i p}
      deliveries := v.deliveries++[⟨i,p,true⟩]} where
  nodup := h.append_nodup hnew
  flags j := h.flags_taken j
  undecided hpaid := by
    have hopen := h.undecided hpaid
    have hother := h.unmatched hpaid hno
    refine ⟨hopen.offers,fun j hj => ?_,fun d hd ht => ?_,
      fun d₁ h₁ d₂ h₂ hne ht₁ ht₂ => ?_,fun d hd ht => ?_⟩
    · by_cases hij : j = i
      · rw [hij] at hj
        exact absurd ((Function.update_self i true v.oracles.delivered).symm.trans hj) nofun
      · exact (Function.update_of_ne hij _ _).trans
          (hopen.blank j ((Function.update_of_ne hij _ _).symm.trans hj))
    · rcases List.mem_append.mp hd with hd | hd
      · exact (Function.update_of_ne (hnew d hd) _ _).trans (hopen.prices d hd ht)
      · rw [List.mem_singleton.mp hd]
        exact Function.update_self _ _ _
    · rcases List.mem_append.mp h₁ with h₁ | h₁
      · rcases List.mem_append.mp h₂ with h₂ | h₂
        · exact hopen.distinct d₁ h₁ d₂ h₂ hne ht₁ ht₂
        · rw [List.mem_singleton.mp h₂]
          exact hother d₁ h₁ (hnew d₁ h₁) ht₁
      · rcases List.mem_append.mp h₂ with h₂ | h₂
        · rw [List.mem_singleton.mp h₁]
          exact (hother d₂ h₂ (hnew d₂ h₂) ht₂).symm
        · rw [List.mem_singleton.mp h₁,List.mem_singleton.mp h₂] at hne
          exact absurd rfl hne
    · rcases List.mem_append.mp hd with hd | hd
      · exact hopen.ignored d hd ht
      · rw [List.mem_singleton.mp hd] at ht
        cases ht
  decided hpaid := by
    obtain ⟨d₁,d₂,hdecision⟩ := h.decided hpaid
    exact ⟨d₁,d₂,hdecision.grow (fun d hd => Function.update_of_ne (hnew d hd) _ _) _⟩

/-- The first delivery of a price that another oracle has given. -/
theorem Tally.pay (h : v.Tally) (hnew : ∀ d ∈ v.deliveries, d.index ≠ i)
    (hmatch : v.oracles.Matched i p) (hpaid : v.payouts = []) {L : List Offer}
    (hoffered : Offered v.strike p L) :
    Tally {v with
      oracles := {v.oracles with delivered := Function.update v.oracles.delivered i true}
      deliveries := v.deliveries++[⟨i,p,true⟩]
      payouts := v.payouts++[p]
      offers := v.offers++L} where
  nodup := h.append_nodup hnew
  flags j := h.flags_taken j
  undecided hnone := absurd hnone (List.append_ne_nil_of_right_ne_nil _ (List.cons_ne_nil _ _))
  decided _ := by
    have hopen := h.undecided hpaid
    have hfound : ∃ d ∈ v.deliveries, d.index ≠ i ∧ d.price = p ∧
        v.oracles.prices d.index = d.price := by
      rcases hmatch with ⟨hflag,hprice⟩ | ⟨hflag,hprice⟩
      all_goals
        obtain ⟨d,hd,hindex,ht⟩ := (h.flags _).mp hflag
        have hstored := hopen.prices d hd ht
        refine ⟨d,hd,hnew d hd,?_,hstored⟩
        rw [← hstored,hindex,hprice]
    have hblank : v.oracles.prices i = 0 := by
      refine hopen.blank i (Bool.eq_false_of_not_eq_true fun hflag => ?_)
      obtain ⟨d,hd,hindex,-⟩ := (h.flags i).mp hflag
      exact hnew d hd hindex
    obtain ⟨d,hd,hne,hprice,hstored⟩ := hfound
    refine ⟨d,⟨i,p,true⟩,List.mem_append_left _ hd,
      List.mem_append_right _ (List.mem_singleton_self _),hne,hprice,?_,?_,hstored,hblank⟩
    · rw [hpaid,hprice]
      rfl
    · rw [hopen.offers,hprice]
      exact hoffered

end View
/-- Each oracle settles at most once. -/
def Once (w : World) : Call → Prop
  | .message m (.settle _ _) _ => ∀ i, w.storage.oracles.index m.sender = some i →
      ∀ d ∈ deliveries w, d.index ≠ i
  | _ => True

/-- An oracle with a price below the strike price finds ether in the contract until a
price has been paid out. One that finds ether and a price like its own gives no more
for the units than a word holds. And if the issuer has refused what was left after the
payment, or ether has come in since, the price is a new one and not zero. -/
def Sound (w : World) : Call → Prop
  | .message m (.settle _ price) _ => ∀ i, w.storage.oracles.index m.sender = some i →
      (thisBalance (w.credit m.value) = 0 → payouts w = [] → ¬price < w.storage.STRIKE_PRICE) ∧
      (thisBalance (w.credit m.value) ≠ 0 →
        (w.storage.oracles.Matched i price → price < w.storage.STRIKE_PRICE →
          (w.storage.STRIKE_PRICE.toNat-price.toNat)*w.storage.units.toNat < 2^256) ∧
        (Refused w ∨ since w+m.value.toNat ≠ 0 → ∀ q ∈ payouts w, price ≠ q ∧ price ≠ 0))
  | _ => True

def Call.value : Call → UInt256
  | .forced value => value
  | .message m _ _ => m.value

/-- There is less ether than a word can count. -/
def Funded (w : World) (c : Call) : Prop := w.balance+c.value.toNat < 2^256

/-- After a pay-out that nobody refused there is no more than has come in since. -/
def Emptied (w : World) : Prop := payouts w ≠ [] → ¬Refused w → w.balance ≤ since w

section Code
variable {w : World}

theorem view_emit {e : Event} (he : e.delivery = none) : view (w.emit e) = view w := by
  simp [view,deliveries,payouts,offers,he]

theorem view_set {s : Storage} (hstrike : s.STRIKE_PRICE = w.storage.STRIKE_PRICE)
    (horacles : s.oracles = w.storage.oracles) : view (w.set s) = view w := by
  simp [view,deliveries,payouts,offers,hstrike,horacles]

/-- A transfer that is part of the vote, whether it is accepted or not. -/
def View.transfer (v : View) (a : Address) (value : UInt256) (x : Purpose) : View :=
  {v with
    payouts := v.payouts++x.payout.toList
    offers := v.offers++(offer ⟨a,value,x,true⟩).toList}

theorem view_pay (a : Address) (value : UInt256) (x : Purpose) :
    view (w.pay a value x) = (view w).transfer a value x := by
  cases x <;> simp [view,View.transfer,deliveries,payouts,offers,Purpose.payout,offer]

theorem view_keep (a : Address) (value : UInt256) (x : Purpose) :
    view (w.keep a value x) = (view w).transfer a value x := by
  cases x <;> simp [view,View.transfer,deliveries,payouts,offers,Purpose.payout,offer]

theorem view_send (accepts : Purpose → Bool) (a : Address) (value : UInt256) (x : Purpose) :
    view (send accepts a value x w) = (view w).transfer a value x := by
  unfold send
  split_ifs
  · exact view_pay a value x
  · exact view_keep a value x

theorem View.transfer_quiet (v : View) (a : Address) (value : UInt256) {x : Purpose}
    (hpayout : x.payout = none) (hoffer : offer ⟨a,value,x,true⟩ = none) :
    v.transfer a value x = v := by
  simp [View.transfer,hpayout,hoffer]

/-- Nothing about the vote changes, and what goes is more than what is not counted. -/
structure Quiet (w w' : World) : Prop where
  view : view w' = view w
  refused : Refused w → Refused w'
  funds : w'.balance+since w ≤ w.balance+since w'

theorem Quiet.rfl : Quiet w w := ⟨Eq.refl _,id,le_rfl⟩

theorem Quiet.trans {w₁ w₂ w₃ : World} (h : Quiet w₁ w₂) (h' : Quiet w₂ w₃) : Quiet w₁ w₃ where
  view := h'.view.trans h.view
  refused hrefused := h'.refused (h.refused hrefused)
  funds := by
    have hfirst := h.funds
    have hsecond := h'.funds
    omega

theorem Quiet.emptied {w' : World} (h : Quiet w w') (hw : Emptied w) : Emptied w' := by
  intro hpaid hnever
  have hpayouts : payouts w' = payouts w := congrArg View.payouts h.view
  have hbalance := hw (hpayouts ▸ hpaid) fun hrefused => hnever (h.refused hrefused)
  have hfunds := h.funds
  omega

theorem quiet_set {s : Storage} (hstrike : s.STRIKE_PRICE = w.storage.STRIKE_PRICE)
    (horacles : s.oracles = w.storage.oracles) : Quiet w (w.set s) where
  view := view_set hstrike horacles
  refused := id
  funds := le_rfl

theorem quiet_emit {e : Event} (he : e.delivery = none) (hcount : ∀ n, e.counted n = n) :
    Quiet w (w.emit e) where
  view := view_emit he
  refused := id
  funds := by
    rw [since_emit,hcount]
    rfl

/-- What comes in is counted. -/
theorem quiet_receive (value : UInt256) : Quiet w (receive value w) where
  view := view_emit (w := w.credit value) (by rfl)
  refused := id
  funds := by
    have hsince : since (receive value w) = since w+value.toNat := since_emit (w.credit value) _
    have hbalance : (receive value w).balance = w.balance+value.toNat := by rfl
    omega

theorem Refused.append {w' : World} {t : Transfer Purpose} (h : Refused w)
    (hsent : w'.sent = w.sent++[t]) : Refused w' := by
  obtain ⟨t',ht',hrest⟩ := h
  exact ⟨t',hsent ▸ List.mem_append_left _ ht',hrest⟩

theorem quiet_keep (a : Address) (value : UInt256) {x : Purpose} (hpayout : x.payout = none)
    (hoffer : offer ⟨a,value,x,true⟩ = none) : Quiet w (w.keep a value x) where
  view := by rw [view_keep,View.transfer_quiet _ _ _ hpayout hoffer]
  refused h := h.append (w.sent_keep a value x)
  funds := le_rfl

theorem quiet_pay (a : Address) (value : UInt256) {x : Purpose} (hpayout : x.payout = none)
    (hoffer : offer ⟨a,value,x,true⟩ = none) : Quiet w (w.pay a value x) where
  view := by rw [view_pay,View.transfer_quiet _ _ _ hpayout hoffer]
  refused h := h.append (w.sent_pay a value x)
  funds := Nat.add_le_add_right (Nat.sub_le _ _) _

theorem quiet_send (accepts : Purpose → Bool) (a : Address) (value : UInt256) {x : Purpose}
    (hpayout : x.payout = none) (hoffer : offer ⟨a,value,x,true⟩ = none) :
    Quiet w (send accepts a value x w) := by
  unfold send
  split_ifs
  · exact quiet_pay a value hpayout hoffer
  · exact quiet_keep a value hpayout hoffer

theorem quiet_buy (accepts : Purpose → Bool) (m : Msg) (n : UInt256) :
    (buy accepts m n w).All (Quiet w) fun _ => True := by
  unfold buy PutOptions.buy
  split_ifs
  · trivial
  · have hset : Quiet w (w.set {w.storage with buyer := m.sender, units := n}) := quiet_set rfl rfl
    dsimp only
    split_ifs
    · exact hset.trans (quiet_send _ _ _ rfl rfl)
    · exact hset

theorem quiet_recover (accepts : Purpose → Bool) (m : Msg) :
    (recover accepts m w).All (Quiet w) fun _ => True := by
  unfold recover PutOptions.recover
  split_ifs
  · trivial
  · have hset : Quiet w (w.set {w.storage with cancelled := true}) := quiet_set rfl rfl
    exact hset.trans (quiet_send _ _ _ rfl rfl)

theorem quiet_ask (index : Fin 3) : (ask index w).All (Quiet w) fun _ => True := by
  have hlog : Quiet w (w.emit (.put index (w.storage.oracles.contract index) [w.storage.TICKER])) :=
    quiet_emit rfl fun _ => rfl
  unfold ask
  exact Account.all_callOut _ (hlog.trans (quiet_keep _ _ rfl rfl)) (hlog.trans (quiet_pay _ _ rfl rfl))
    trivial trivial

theorem quiet_put (m : Msg) : (put m w).All (Quiet w) fun _ => True := by
  unfold put
  split_ifs
  · trivial
  · have hset : Quiet w (w.set {w.storage with optionPut := true}) := quiet_set rfl rfl
    exact (quiet_ask 0).mono (fun w' h => hset.trans h) fun _ h => h

theorem quiet_resume (k : Kont) (answer : Option Unit) :
    (resume k answer w).All (Quiet w) fun _ => True := by
  obtain ⟨index⟩ := k
  change (afterTcRequest index answer w).All _ _
  unfold afterTcRequest
  split_ifs
  · trivial
  · split
    · exact quiet_ask 1
    · exact quiet_ask 2
    · exact Quiet.rfl

/-- The log entry and the flag of a delivery with ether in the contract. -/
def delivered (i : Fin 3) (price : UInt256) (amount : ℤ) (w : World) : World :=
  setDelivered i (w.emit (.pay price amount (.settle i)))

theorem view_delivered (i : Fin 3) (price : UInt256) (amount : ℤ) :
    view (delivered i price amount w) =
      {view w with
        oracles := {(view w).oracles with
          delivered := Function.update (view w).oracles.delivered i true}
        deliveries := (view w).deliveries++[⟨i,price,true⟩]} := by
  simp [view,delivered,setDelivered,deliveries,payouts,offers,Event.delivery]

/-- The flag of an oracle does not match its own price. -/
theorem matched_delivered (i : Fin 3) (price : UInt256) (amount : ℤ) :
    (delivered i price amount w).storage.oracles.Matched i price ↔
      w.storage.oracles.Matched i price := by
  simp [Oracles.Matched,delivered,setDelivered]

/-- What the branch that pays adds to the vote. -/
theorem view_payOut (accepts : Purpose → Bool) (price : UInt256) :
    view (payOut accepts price w) =
      {view w with
        payouts := (view w).payouts++[price]
        offers := (view w).offers++if price < w.storage.STRIKE_PRICE then
          [⟨(w.storage.STRIKE_PRICE-price)*w.storage.units,price,w.storage.units⟩] else []} := by
  unfold payOut
  dsimp only
  rw [view_send]
  split_ifs
  · rw [view_emit rfl,view_send]
    simp [View.transfer,Purpose.payout,offer]
  · rw [view_emit rfl]
    simp [View.transfer,Purpose.payout,offer]

/-- What was left is gone, or was refused. -/
theorem emptied_payOut (accepts : Purpose → Bool) (price : UInt256) (hfunds : w.balance < 2^256) :
    Emptied (payOut accepts price w) := by
  intro hpaid hnever
  unfold payOut at hnever ⊢
  dsimp only at hnever ⊢
  generalize hw' : (if price < w.storage.STRIKE_PRICE then _ else _ : World) = w' at hnever ⊢
  have hless : w'.balance ≤ w.balance := by
    rw [← hw']
    split_ifs
    · rw [Account.balance_emit]
      have hsend := balance_send accepts w.storage.buyer
        ((w.storage.STRIKE_PRICE-price)*w.storage.units) (.optionValue price w.storage.units) w
      omega
    · rfl
  have hall : (thisBalance w').toNat = w'.balance := by
    rw [thisBalance,BitVec.toNat_ofNat,Nat.mod_eq_of_lt (hless.trans_lt hfunds)]
  unfold send at hnever ⊢
  split_ifs at hnever ⊢
  · rw [Account.balance_pay,hall,Nat.sub_self]
    exact Nat.zero_le _
  · exact (hnever ⟨_,List.mem_append_right _ (List.mem_singleton_self _),rfl,rfl⟩).elim

/-- The vote, and what the contract still holds. -/
structure Counted (w : World) : Prop where
  tally : (view w).Tally
  emptied : Emptied w

theorem Quiet.counted {w' : World} (h : Quiet w w') (hw : Counted w) : Counted w' :=
  ⟨h.view ▸ hw.tally,h.emptied hw.emptied⟩

theorem counted_check (h : Counted w) {i : Fin 3} {price : UInt256} (amount : ℤ)
    (accepts : Purpose → Bool) (hfunds : w.balance < 2^256) (hnew : ∀ d ∈ deliveries w, d.index ≠ i)
    (hmatch : w.storage.oracles.Matched i price → payouts w = [] ∧
      (price < w.storage.STRIKE_PRICE →
        (w.storage.STRIKE_PRICE.toNat-price.toNat)*w.storage.units.toNat < 2^256)) :
    (checkAndPay accepts i price (w.emit (.pay price amount (.settle i)))).All Counted
      fun _ => True := by
  change (if _ then _ else if (delivered i price amount w).storage.oracles.Matched i price then
    Outcome.done () (payOut accepts price (delivered i price amount w))
      else .done () (setPrice i price (delivered i price amount w)) : Result).All _ _
  split_ifs with hflag hmatched
  · trivial
  · refine ⟨?_,emptied_payOut accepts price hfunds⟩
    rw [matched_delivered] at hmatched
    obtain ⟨hpaid,hfit⟩ := hmatch hmatched
    rw [view_payOut,view_delivered]
    refine h.tally.pay hnew hmatched hpaid ?_
    change Offered w.storage.STRIKE_PRICE price (if price < w.storage.STRIKE_PRICE then
      [⟨(w.storage.STRIKE_PRICE-price)*w.storage.units,price,w.storage.units⟩] else [])
    unfold Offered
    split_ifs with hlow
    · refine ⟨_,rfl,rfl,?_⟩
      rw [BitVec.toNat_mul,BitVec.toNat_sub_of_le (BitVec.le_of_lt hlow),
        Nat.mod_eq_of_lt (hfit hlow)]
    · rfl
  · rw [matched_delivered] at hmatched
    have hview : view (setPrice i price (delivered i price amount w)) =
      {view w with
        oracles := {(view w).oracles with
          delivered := Function.update (view w).oracles.delivered i true
          prices := Function.update (view w).oracles.prices i price}
        deliveries := (view w).deliveries++[⟨i,price,true⟩]} := by
      simp [view,delivered,setDelivered,setPrice,deliveries,payouts,offers,Event.delivery]
    refine ⟨?_,fun hpaid hnever => ?_⟩
    · rw [hview]
      exact h.tally.store hnew hmatched
    · have hpayouts : payouts (setPrice i price (delivered i price amount w)) = payouts w :=
        congrArg View.payouts hview
      have hsince : since (setPrice i price (delivered i price amount w)) = since w :=
        since_emit w _
      rw [hsince]
      exact h.emptied (hpayouts ▸ hpaid) hnever

/-- A match after the pay-out is one of the two that the third oracle is kept from. -/
theorem Counted.first_match (h : Counted w) {i : Fin 3} {value price : UInt256}
    (hnew : ∀ d ∈ deliveries w, d.index ≠ i)
    (hbalance : thisBalance (w.credit value) ≠ 0)
    (hlate : Refused w ∨ since w+value.toNat ≠ 0 → ∀ q ∈ payouts w, price ≠ q ∧ price ≠ 0)
    (hmatch : w.storage.oracles.Matched i price) : payouts w = [] := by
  by_contra hpaid
  obtain ⟨d₁,d₂,hdecision⟩ := h.tally.decided hpaid
  have hpayouts : payouts w = [d₁.price] := hdecision.payouts
  have hlow : ¬(Refused w ∨ since w+value.toNat ≠ 0) := by
    intro hin
    have hother := hlate hin d₁.price (by rw [hpayouts]; exact List.mem_singleton_self _)
    exact (hdecision.matched hnew hmatch).elim hother.1 hother.2
  obtain ⟨hnever,hnone⟩ := not_or.mp hlow
  have hempty := h.emptied hpaid hnever
  refine hbalance ?_
  have hzero : w.balance+value.toNat = 0 := by omega
  rw [thisBalance,Account.balance_credit,hzero]
  rfl

theorem counted_settle (h : Counted w) (accepts : Purpose → Bool) (m : Msg) (id : UInt64)
    (price : Bytes32) (honce : Once w (.message m (.settle id price) accepts))
    (hsound : Sound w (.message m (.settle id price) accepts))
    (hfunds : w.balance+m.value.toNat < 2^256) :
    (settle accepts m id price (receive m.value w)).All Counted fun _ => True := by
  have hreceived : Counted (receive m.value w) := (quiet_receive m.value).counted h
  have hview : view (receive m.value w) = view w := (quiet_receive m.value).view
  have hdeliveries : deliveries (receive m.value w) = deliveries w := congrArg View.deliveries hview
  have hpayouts : payouts (receive m.value w) = payouts w := congrArg View.payouts hview
  have hpay : ∀ i amount, w.storage.oracles.index m.sender = some i →
      thisBalance (w.credit m.value) ≠ 0 →
      (checkAndPay accepts i price ((receive m.value w).emit (.pay price amount (.settle i)))).All
        Counted fun _ => True := by
    intro i amount hi hbalance
    obtain ⟨hfit,hlate⟩ := (hsound i hi).2 hbalance
    refine counted_check hreceived amount accepts hfunds (hdeliveries ▸ honce i hi) fun hmatch => ?_
    exact ⟨hpayouts.trans (h.first_match (honce i hi) hbalance hlate hmatch),hfit hmatch⟩
  unfold settle
  dsimp only
  split_ifs with hempty h0 h1 h2
  · change Counted ((receive m.value w).emit (.ignored (w.storage.oracles.index m.sender) price))
    rcases hindex : w.storage.oracles.index m.sender with _ | i
    · exact (quiet_emit rfl fun _ => rfl).counted hreceived
    · have hignored : view ((receive m.value w).emit (.ignored (some i) price)) =
          {view w with deliveries := (view w).deliveries++[⟨i,price,false⟩]} := by
        rw [← hview]
        simp [view,deliveries,payouts,offers,Event.delivery]
      refine ⟨?_,fun hpaid hnever => ?_⟩
      · rw [hignored]
        exact h.tally.ignore (honce i hindex) ((hsound i hindex).1 hempty)
      · rw [since_emit]
        exact hreceived.emptied hpaid hnever
  · exact hpay 0 _ (if_pos h0) hempty
  · exact hpay 1 _ ((if_neg h0).trans (if_pos h1)) hempty
  · exact hpay 2 _ (((if_neg h0).trans (if_neg h1)).trans (if_pos h2)) hempty
  · trivial

theorem kept_counted (base : List (Frame World Kont)) :
    Kept (code.restrict fun c w => Once w c ∧ Sound w c ∧ Funded w c) Counted (fun _ => True)
      base where
  start c w _ hw := by
    simp only [Code.restrict]
    split_ifs with hc
    case neg => trivial
    cases c with
    | forced value => exact (quiet_receive value).counted hw
    | message m f accepts =>
        have hreceived : Counted (receive m.value w) := (quiet_receive m.value).counted hw
        have hquiet : ∀ o : Result, o.All (Quiet (receive m.value w)) (fun _ => True) →
            o.All Counted fun _ => True := fun o ho =>
          ho.mono (fun w' h => h.counted hreceived) fun _ h => h
        cases f with
        | view => exact hreceived
        | buy n => exact hquiet _ (quiet_buy accepts m n)
        | put => exact hquiet _ (quiet_put m)
        | settle id price => exact counted_settle hw accepts m id price hc.1 hc.2.1 hc.2.2
        | recover => exact hquiet _ (quiet_recover accepts m)
  resume k answer w _ hw := (quiet_resume k answer).mono (fun w' h => h.counted hw) fun _ h => h

theorem counted_constructor {m : Msg} {tc0 tc1 tc2 : Address} {t : Terms} {balance : ℕ}
    (h : constructor m tc0 tc1 tc2 t balance = some w) : Counted w := by
  unfold constructor PutOptions.constructor at h
  split_ifs at h
  cases h
  refine ⟨?_,fun hpaid => absurd rfl hpaid⟩
  constructor <;> simp [view,deliveries,payouts,offers]
  constructor <;> simp

end Code

section Runs
variable {m : Msg} {tc0 tc1 tc2 : Address} {t : Terms} {balance : ℕ} {w₀ : World}

/-- The calls of the oracles are sound, and each settles at most once. -/
def Settles (s : Config World Kont) (a : Action Call Unit) (_ : Config World Kont) : Prop :=
  ∀ c, a = .call c → Once s.world c ∧ Sound s.world c ∧ Funded s.world c

/-- In every run whose calls are sound, at most one price is paid out, two oracles
gave it, and a price that two of them gave is offered to the buyer. -/
theorem oracles_agree (hnew : constructor m tc0 tc1 tc2 t balance = some w₀)
    {s : Config World Kont} (h : Reach code Settles w₀ s) : (view s.world).Agreed := by
  have hcounted : Above Counted (fun _ => True) [] s :=
    (kept_counted []).reach (counted_constructor hnew) (h.restrict fun _ c _ ha => ha c rfl)
  exact hcounted.1.tally.agreed

end Runs

/-- Ten units at four wei each, for ten wei in the end, with the oracles 1, 2 and 3. -/
def sampleTerms : Terms := ⟨0,4,10,10,5⟩

def sampleCreation : Msg := ⟨9,TC_FEE*3+60,1,0,1⟩

def saleCall : Call := .message ⟨7,8,1,0,2⟩ (.buy 2) fun _ => true

def putCall : Call := .message ⟨7,0,1,0,3⟩ .put fun _ => true

/-- The issuer takes the ether or not. -/
def settleCall (sender : Address) (price : UInt256) (issuer : Bool) : Call :=
  .message ⟨sender,0,1,0,4⟩ (.settle 1 price) fun x => x.payout.isNone || issuer

theorem settles_other {s s' : Config World Kont} {m : Msg} {f : Function} {accepts : Purpose → Bool}
    (hf : ∀ id p, f ≠ .settle id p) (hfunds : s.world.balance+m.value.toNat < 2^256) :
    Settles s (.call (.message m f accepts)) s' := by
  rintro c ⟨⟩
  cases f with
  | settle id p => exact absurd rfl (hf id p)
  | _ => exact ⟨trivial,trivial,hfunds⟩

/-- A delivery before the pay-out, or to a contract which that has emptied. -/
theorem settles_settle {s s' : Config World Kont} {sender : Address} {price : UInt256}
    {issuer : Bool} (i : Fin 3) (hi : s.world.storage.oracles.index sender = some i)
    (honce : ∀ d ∈ deliveries s.world, d.index ≠ i) (hfunds : s.world.balance < 2^256)
    (hbalance : thisBalance s.world = 0 ↔ payouts s.world ≠ [])
    (hfit : (s.world.storage.STRIKE_PRICE.toNat-price.toNat)*s.world.storage.units.toNat < 2^256) :
    Settles s (.call (settleCall sender price issuer)) s' := by
  rintro c ⟨⟩
  refine ⟨fun j hj => ?_,fun j hj => ⟨fun hzero hpaid => absurd hpaid (hbalance.mp hzero),
    fun hfound => ⟨fun _ _ => hfit,fun _ q hq => ?_⟩⟩,hfunds⟩
  · cases hi.symm.trans hj
    exact honce
  · have hnone : payouts s.world = [] := by
      by_contra hpaid
      exact hfound (hbalance.mpr hpaid)
    rw [hnone] at hq
    cases hq

/-- The option before anyone has called it. -/
def sampleOption : World := (constructor sampleCreation 1 2 3 sampleTerms 0).get (by decide)

theorem sampleOption_new : constructor sampleCreation 1 2 3 sampleTerms 0 = some sampleOption :=
  (Option.some_get _).symm

/-- Two oracles agree, the issuer takes what is left, and the third comes too late. -/
theorem oracles_agree_pair : ∃ s : Config World Kont,
    (deliveries s.world).map (fun d => (d.index,d.price)) = [(0,6),(1,6),(2,0)] ∧
      payouts s.world = [6] ∧ (view s.world).Agreed := by
  have h₁ : Reach code Settles sampleOption _ :=
    .step (.call saleCall) .start rfl (settles_other nofun (by decide))
  have h₂ : Reach code Settles sampleOption _ :=
    .step (.call putCall) h₁ rfl (settles_other nofun (by decide))
  have h₃ : Reach code Settles sampleOption _ := .step (.ret (some ())) h₂ rfl nofun
  have h₄ : Reach code Settles sampleOption _ := .step (.ret (some ())) h₃ rfl nofun
  have h₅ : Reach code Settles sampleOption _ := .step (.ret (some ())) h₄ rfl nofun
  have h₆ : Reach code Settles sampleOption _ :=
    .step (.call (settleCall 1 6 true)) h₅ rfl (settles_settle 0 rfl (by decide) (by decide)
      (by decide) (by decide))
  have h₇ : Reach code Settles sampleOption _ :=
    .step (.call (settleCall 2 6 true)) h₆ rfl (settles_settle 1 rfl (by decide) (by decide)
      (by decide) (by decide))
  have h₈ : Reach code Settles sampleOption _ :=
    .step (.call (settleCall 3 0 true)) h₇ rfl (settles_settle 2 rfl (by decide) (by decide)
      (by decide) (by decide))
  exact ⟨_,by decide,by decide,oracles_agree sampleOption_new h₈⟩

/-- The issuer refuses what is left, and the third oracle gives the price zero: it
matches the empty slot of the second, and the option is paid out again. -/
theorem refused_remainder_settles_twice : ∃ s, Reach code (fun _ _ _ => True) sampleOption s ∧
    (deliveries s.world).map (fun d => (d.index,d.price)) = [(0,6),(1,6),(2,0)] ∧
      payouts s.world = [6,0] ∧ ¬(view s.world).Agreed := by
  have h₁ : Reach code (fun _ _ _ => True) sampleOption _ := .step (.call saleCall) .start rfl trivial
  have h₂ : Reach code (fun _ _ _ => True) sampleOption _ := .step (.call putCall) h₁ rfl trivial
  have h₃ : Reach code (fun _ _ _ => True) sampleOption _ := .step (.ret (some ())) h₂ rfl trivial
  have h₄ : Reach code (fun _ _ _ => True) sampleOption _ := .step (.ret (some ())) h₃ rfl trivial
  have h₅ : Reach code (fun _ _ _ => True) sampleOption _ := .step (.ret (some ())) h₄ rfl trivial
  have h₆ : Reach code (fun _ _ _ => True) sampleOption _ :=
    .step (.call (settleCall 1 6 true)) h₅ rfl trivial
  have h₇ : Reach code (fun _ _ _ => True) sampleOption _ :=
    .step (.call (settleCall 2 6 false)) h₆ rfl trivial
  have h₈ : Reach code (fun _ _ _ => True) sampleOption _ :=
    .step (.call (settleCall 3 0 true)) h₇ rfl trivial
  exact ⟨_,h₈,by decide,by decide,fun h => absurd h.once (by decide)⟩

end TownCrier.PutOptionVote
