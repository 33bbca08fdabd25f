import TownCrier.Insurer

/-!
# Whether a policy is settled at most once

The status of a policy is spread over its fee, the number of its request and the
map from requests to policies. An open policy has a fee and no settlement, and
it keeps both until TownCrier has closed the request that is mapped to it. The
callback which follows finds it open, since nobody else can settle it before.
-/
namespace TownCrier.Insurance
open BigEndian CallMachine Evm FlightInsurance Linked

/-- The policy which a transfer of this kind settles. -/
def settles : Purpose → Option UInt64
  | .requestRefund policyId | .payout policyId | .premium policyId | .premiumRefund policyId
  | .fullRefund policyId | .cancelRefund policyId => some policyId
  | .insureRefund | .tcRequest _ => none

def settlements (a : World) (policyId : UInt64) : List (Transfer Purpose) :=
  a.sent.filter fun t => settles t.purpose = some policyId

/-- The number has been given to a policy. -/
def Sold (s : Storage) (policyId : UInt64) : Prop :=
  policyId ≠ 0 ∧ (s.policyCnt = 0 ∨ policyId < s.policyCnt)

structure Orderly (A : Addresses) (w : Joint) : Prop where
  tcContract : w.2.storage.tcContract = A.townCrier
  numbered : Contract.Numbered w.1
  versioned : Contract.Versioned w.1
  /-- The policy zero, to which foreign requests are mapped. -/
  blank : (w.2.storage.policies 0).fee = 0 ∧ (w.2.storage.policies 0).premium = 0
  unsold : ∀ p, p ≠ 0 → ¬Sold w.2.storage p →
    (w.2.storage.policies p).fee = 0 ∧ settlements w.2 p = [] ∧ ∀ j, w.2.storage.idMap j ≠ p
  mapped : ∀ j p, p ≠ 0 → w.2.storage.idMap j = p → Contract.Used w.1 j ∧
    (w.1.storage.requests j).requester = A.client ∧ (w.2.storage.policies p).tcId = j.toNat ∧
    ((w.1.storage.requests j).fee ≠ Contract.DELIVERED_FEE_FLAG →
      (w.2.storage.policies p).fee ≠ 0)
  settled : ∀ p, p ≠ 0 → (settlements w.2 p).length ≤ 1 ∧
    (settlements w.2 p ≠ [] → (w.2.storage.policies p).fee = 0)

/-- A policy without a fee stays as it is. -/
def Final (a a' : World) : Prop :=
  ∀ p, Sold a.storage p → (a.storage.policies p).fee = 0 →
    Sold a'.storage p ∧ (a'.storage.policies p).fee = 0 ∧ settlements a' p = settlements a p

structure Onward (w w' : Joint) : Prop where
  assigned : Contract.Assigned w.1 w'.1
  final : Final w.2 w'.2

/-- The request is closed, and the policy that waits for it is not. -/
def Awaiting (j : UInt64) (w : Joint) : Prop :=
  ∀ p, p ≠ 0 → w.2.storage.idMap j = p → (w.2.storage.policies p).fee ≠ 0 ∧
    (w.1.storage.requests j).fee = Contract.DELIVERED_FEE_FLAG

section Simp
variable (a : World) (policyId : UInt64)

@[simp] theorem settlements_set (s : Storage) :
    settlements (a.set s) policyId = settlements a policyId := rfl
@[simp] theorem settlements_emit (e : Event) :
    settlements (a.emit e) policyId = settlements a policyId := rfl
@[simp] theorem settlements_credit (v : UInt256) :
    settlements (a.credit v) policyId = settlements a policyId := rfl

@[simp] theorem settlements_pay (r : Address) (v : UInt256) (p : Purpose) :
    settlements (a.pay r v p) policyId =
      settlements a policyId++if settles p = some policyId then [⟨r,v,p,true⟩] else [] := by
  rw [settlements,settlements,Account.sent_pay,List.filter_append]
  by_cases h : settles p = some policyId <;> simp [h]

@[simp] theorem settlements_keep (r : Address) (v : UInt256) (p : Purpose) :
    settlements (a.keep r v p) policyId =
      settlements a policyId++if settles p = some policyId then [⟨r,v,p,false⟩] else [] := by
  rw [settlements,settlements,Account.sent_keep,List.filter_append]
  by_cases h : settles p = some policyId <;> simp [h]

end Simp

theorem Final.refl (a : World) : Final a a := fun _ hsold hfee => ⟨hsold,hfee,rfl⟩

theorem Final.trans {a₁ a₂ a₃ : World} (h : Final a₁ a₂) (h' : Final a₂ a₃) : Final a₁ a₃ := by
  intro p hsold hfee
  obtain ⟨hsold₂,hfee₂,hsame⟩ := h p hsold hfee
  obtain ⟨hsold₃,hfee₃,hsame'⟩ := h' p hsold₂ hfee₂
  exact ⟨hsold₃,hfee₃,hsame'.trans hsame⟩

theorem Onward.refl (w : Joint) : Onward w w := ⟨.refl w.1,.refl w.2⟩

theorem Onward.trans {w₁ w₂ w₃ : Joint} (h : Onward w₁ w₂) (h' : Onward w₂ w₃) : Onward w₁ w₃ :=
  ⟨h.assigned.trans h'.assigned,h.final.trans h'.final⟩

section Frames
variable {A : Addresses} {w w' : Contract.World} {a b : World} {p : UInt64}

/-- TownCrier has moved on, and with the client's records at most to delivered. -/
theorem Orderly.town (h : Orderly A (w,a)) (hnumbered : Contract.Numbered w')
    (hversioned : Contract.Versioned w') (hassigned : Contract.Assigned w w')
    (hfee : ∀ j, Contract.Used w j → (w.storage.requests j).requester = A.client →
      (w'.storage.requests j).fee = (w.storage.requests j).fee ∨
        (w'.storage.requests j).fee = Contract.DELIVERED_FEE_FLAG) :
    Orderly A (w',a) ∧ Onward (w,a) (w',a) := by
  refine ⟨⟨h.tcContract,hnumbered,hversioned,h.blank,h.unsold,fun j p hp hj => ?_,h.settled⟩,
    ⟨hassigned,.refl a⟩⟩
  obtain ⟨hused,hrequester,htc,hopen⟩ := h.mapped j p hp hj
  obtain ⟨hused',hrequester'⟩ := hassigned j hused
  refine ⟨hused',hrequester'.trans hrequester,htc,fun hne => ?_⟩
  rcases hfee j hused hrequester with heq | heq
  · exact hopen (heq ▸ hne)
  · exact absurd heq hne

/-- The insurance has moved money and logged, and nothing else. -/
theorem Orderly.quiet (h : Orderly A (w,a)) (hs : b.storage = a.storage)
    (ht : ∀ p, p ≠ 0 → settlements b p = settlements a p) :
    Orderly A (w,b) ∧ Onward (w,a) (w,b) := by
  refine ⟨⟨hs ▸ h.tcContract,h.numbered,h.versioned,?_,fun p hp hsold => ?_,fun j p hp hj => ?_,
    fun p hp => ?_⟩,⟨.refl w,fun p hsold hfee => ?_⟩⟩
  · rw [hs]
    exact h.blank
  · rw [hs] at hsold ⊢
    rw [ht p hp]
    exact h.unsold p hp hsold
  · rw [hs] at hj ⊢
    exact h.mapped j p hp hj
  · rw [hs,ht p hp]
    exact h.settled p hp
  · rw [hs,ht p hsold.1]
    exact ⟨hsold,hfee,rfl⟩

theorem Orderly.sold (h : Orderly A (w,a)) (hp : p ≠ 0) (hfee : (a.storage.policies p).fee ≠ 0) :
    Sold a.storage p := by
  by_contra hsold
  exact hfee (h.unsold p hp hsold).1

theorem Orderly.unsettled (h : Orderly A (w,a)) (hp : p ≠ 0)
    (hfee : (a.storage.policies p).fee ≠ 0) : settlements a p = [] := by
  by_contra hne
  exact hfee ((h.settled p hp).2 hne)

/-- An open policy is closed, with at most one settlement. -/
theorem Orderly.close (h : Orderly A (w,a)) (hp : p ≠ 0)
    (hfee : (a.storage.policies p).fee ≠ 0) {q : Policy} (hq : q.fee = 0)
    (hs : b.storage = a.storage.setPolicy p q)
    (hmapped : ∀ j, a.storage.idMap j = p → q.tcId = j.toNat ∧
      (w.storage.requests j).fee = Contract.DELIVERED_FEE_FLAG)
    (hself : (settlements b p).length ≤ (settlements a p).length+1)
    (hother : ∀ p', p' ≠ 0 → p' ≠ p → settlements b p' = settlements a p') :
    Orderly A (w,b) ∧ Onward (w,a) (w,b) := by
  have hsold := h.sold hp hfee
  rw [h.unsettled hp hfee] at hself
  have hpolicy : b.storage.policies p = q := by
    rw [hs]
    exact Function.update_self _ _ _
  have hpolicies : ∀ p', p' ≠ p → b.storage.policies p' = a.storage.policies p' := by
    intro p' hne
    rw [hs]
    exact Function.update_of_ne hne _ _
  have hsold' : ∀ p', Sold b.storage p' ↔ Sold a.storage p' := fun p' => by rw [hs]; rfl
  have hidMap : b.storage.idMap = a.storage.idMap := by rw [hs]; rfl
  refine ⟨⟨?_,h.numbered,h.versioned,?_,fun p' hp' hunsold => ?_,fun j p' hp' hj => ?_,
    fun p' hp' => ?_⟩,⟨.refl w,fun p' hsold₁ hfee₁ => ?_⟩⟩
  · rw [hs]
    exact h.tcContract
  · rw [hpolicies 0 (Ne.symm hp)]
    exact h.blank
  · have hne : p' ≠ p := by
      rintro rfl
      exact hunsold ((hsold' p').mpr hsold)
    rw [hpolicies p' hne,hother p' hp' hne,hidMap]
    exact h.unsold p' hp' (mt (hsold' p').mpr hunsold)
  · rw [hidMap] at hj
    obtain ⟨hused,hrequester,htc,hopen⟩ := h.mapped j p' hp' hj
    by_cases hne : p' = p
    · subst hne
      obtain ⟨htc',hdelivered⟩ := hmapped j hj
      rw [hpolicy]
      exact ⟨hused,hrequester,htc',fun hfee => absurd hdelivered hfee⟩
    · rw [hpolicies p' hne]
      exact ⟨hused,hrequester,htc,hopen⟩
  · by_cases hne : p' = p
    · subst hne
      rw [hpolicy]
      exact ⟨hself,fun _ => hq⟩
    · rw [hpolicies p' hne,hother p' hp' hne]
      exact h.settled p' hp'
  · have hne : p' ≠ p := by
      rintro rfl
      exact hfee hfee₁
    rw [hpolicies p' hne,hother p' hsold₁.1 hne,hsold']
    exact ⟨hsold₁,hfee₁,rfl⟩

/-- Nothing is mapped to a policy that is not requested. -/
theorem Orderly.unmapped (h : Orderly A (w,a)) (hp : p ≠ 0)
    (htc : (a.storage.policies p).tcId = 0) (j : UInt64) : a.storage.idMap j ≠ p := by
  intro hj
  obtain ⟨hused,-,htc',-⟩ := h.mapped j p hp hj
  rw [htc] at htc'
  apply hused.1
  apply UInt64.toNat_inj.mp
  exact_mod_cast htc'.symm

/-- An open policy is closed with one transfer, which may fail. -/
theorem Orderly.settle (h : Orderly A (w,a)) (hp : p ≠ 0) (hfee : (a.storage.policies p).fee ≠ 0)
    {q : Policy} (hq : q.fee = 0) (hs : b.storage = a.storage.setPolicy p q)
    (hsent : b.sent = a.sent)
    (hmapped : ∀ j, a.storage.idMap j = p → q.tcId = j.toNat ∧
      (w.storage.requests j).fee = Contract.DELIVERED_FEE_FLAG)
    {r : Address} {v : UInt256} {u : Purpose} (hu : settles u = some p) :
    (Orderly A (w,b.keep r v u) ∧ Onward (w,a) (w,b.keep r v u)) ∧
      Orderly A (w,b.pay r v u) ∧ Onward (w,a) (w,b.pay r v u) := by
  have hsame : ∀ p, settlements b p = settlements a p := fun p => by rw [settlements,hsent]; rfl
  constructor
  · refine h.close hp hfee hq hs hmapped ?_ fun p' _ hne => ?_
    · simp [hsame,hu]
    · simp [hsame,hu,Ne.symm hne]
  · refine h.close hp hfee hq hs hmapped ?_ fun p' _ hne => ?_
    · simp [hsame,hu]
    · simp [hsame,hu,Ne.symm hne]

/-- A transfer that settles no policy which was sold. -/
theorem Orderly.transfer (h : Orderly A (w,a)) (hs : b.storage = a.storage)
    (hsent : b.sent = a.sent) {r : Address} {v : UInt256} {u : Purpose}
    (hu : ∀ p, p ≠ 0 → settles u ≠ some p) :
    (Orderly A (w,b.keep r v u) ∧ Onward (w,a) (w,b.keep r v u)) ∧
      Orderly A (w,b.pay r v u) ∧ Onward (w,a) (w,b.pay r v u) := by
  have hsame : ∀ p, settlements b p = settlements a p := fun p => by rw [settlements,hsent]; rfl
  constructor
  · refine h.quiet hs fun p hp => ?_
    simp [hsame,hu p hp]
  · refine h.quiet hs fun p hp => ?_
    simp [hsame,hu p hp]

/-- A policy is recorded under a number that was not used before. -/
theorem Orderly.record (h : Orderly A (w,a)) (hcnt : a.storage.policyCnt ≠ 0) {m : Msg}
    {flightInfo : List Bytes32} {payment : UInt256} :
    Orderly A (w,record m flightInfo payment (a.credit m.value)) ∧
      Onward (w,a) (w,FlightInsurance.record m flightInfo payment (a.credit m.value)) := by
  set b := FlightInsurance.record m flightInfo payment (a.credit m.value)
  have hnext : b.storage.policyCnt = a.storage.policyCnt+1 := rfl
  have hidMap : b.storage.idMap = a.storage.idMap := rfl
  have hsent : ∀ p, settlements b p = settlements a p := fun p => rfl
  have hpolicies : ∀ p, p ≠ a.storage.policyCnt → b.storage.policies p = a.storage.policies p :=
    fun p hne => Function.update_of_ne hne _ _
  have hfresh : ¬Sold a.storage a.storage.policyCnt := by
    rintro ⟨-,hzero | hlt⟩
    · exact hcnt hzero
    · exact UInt64.lt_irrefl _ hlt
  have hkept : ∀ p, Sold a.storage p → Sold b.storage p := by
    rintro p ⟨hp,hlt⟩
    refine ⟨hp,?_⟩
    rw [hnext]
    exact Contract.lt_next (UInt64.le_of_lt (hlt.resolve_left hcnt))
  have hself : Sold b.storage a.storage.policyCnt := by
    refine ⟨hcnt,?_⟩
    rw [hnext]
    exact Contract.lt_next UInt64.le_rfl
  have hblank := h.unsold _ hcnt hfresh
  refine ⟨⟨h.tcContract,h.numbered,h.versioned,?_,fun p hp hunsold => ?_,fun j p hp hj => ?_,
    fun p hp => ?_⟩,⟨.refl w,fun p hsold hfee => ?_⟩⟩
  · rw [hpolicies 0 (Ne.symm hcnt)]
    exact h.blank
  · have hne : p ≠ a.storage.policyCnt := by
      rintro rfl
      exact hunsold hself
    rw [hpolicies p hne]
    exact h.unsold p hp (mt (hkept p) hunsold)
  · have hne : p ≠ a.storage.policyCnt := by
      rintro rfl
      exact hblank.2.2 j hj
    rw [hpolicies p hne]
    exact h.mapped j p hp hj
  · by_cases hne : p = a.storage.policyCnt
    · subst hne
      rw [hsent,hblank.2.1]
      exact ⟨Nat.zero_le _,fun hne => absurd rfl hne⟩
    · rw [hpolicies p hne]
      exact h.settled p hp
  · have hne : p ≠ a.storage.policyCnt := by
      rintro rfl
      exact hfresh hsold
    rw [hpolicies p hne]
    exact ⟨hkept p hsold,hfee,rfl⟩

/-- TownCrier has accepted the request for an open policy. -/
theorem Orderly.map (h : Orderly A (w,a)) (hp : p ≠ 0) (hfee : (a.storage.policies p).fee ≠ 0)
    (htc : (a.storage.policies p).tcId = 0) {j : UInt64} (hused : Contract.Used w j)
    (hrequester : (w.storage.requests j).requester = A.client)
    (hs : b.storage = {a.storage.setPolicy p (answered a p j.toNat) with
      idMap := Function.update a.storage.idMap j p})
    (ht : b.sent = a.sent) : Orderly A (w,b) ∧ Onward (w,a) (w,b) := by
  have hsold := h.sold hp hfee
  have hsent : ∀ p, settlements b p = settlements a p := fun p => by rw [settlements,ht]; rfl
  have hpolicy : b.storage.policies p = answered a p j.toNat := by
    rw [hs]
    exact Function.update_self _ _ _
  have hpolicies : ∀ p', p' ≠ p → b.storage.policies p' = a.storage.policies p' := by
    intro p' hne
    rw [hs]
    exact Function.update_of_ne hne _ _
  have hfees : ∀ p', (b.storage.policies p').fee = (a.storage.policies p').fee := by
    intro p'
    by_cases hne : p' = p
    · rw [hne,hpolicy]
      rfl
    · rw [hpolicies p' hne]
  have hsold' : ∀ p', Sold b.storage p' ↔ Sold a.storage p' := fun p' => by rw [hs]; rfl
  have hself : b.storage.idMap j = p := by
    rw [hs]
    exact Function.update_self _ _ _
  have hidMap : ∀ j', j' ≠ j → b.storage.idMap j' = a.storage.idMap j' := by
    intro j' hne
    rw [hs]
    exact Function.update_of_ne hne _ _
  refine ⟨⟨?_,h.numbered,h.versioned,?_,fun p' hp' hunsold => ?_,fun j' p' hp' hj => ?_,
    fun p' hp' => ?_⟩,⟨.refl w,fun p' hsold₁ hfee₁ => ?_⟩⟩
  · rw [hs]
    exact h.tcContract
  · rw [hpolicies 0 (Ne.symm hp)]
    exact h.blank
  · have hunsold' := mt (hsold' p').mpr hunsold
    obtain ⟨hfee',hsettled,hnone⟩ := h.unsold p' hp' hunsold'
    rw [hfees,hsent]
    refine ⟨hfee',hsettled,fun j' hj => ?_⟩
    by_cases hne : j' = j
    · rw [hne,hself] at hj
      exact hunsold' (hj ▸ hsold)
    · rw [hidMap j' hne] at hj
      exact hnone j' hj
  · rw [hfees]
    by_cases hne : j' = j
    · rw [hne,hself] at hj
      subst hj
      rw [hne,hpolicy]
      exact ⟨hused,hrequester,rfl,fun _ => hfee⟩
    · rw [hidMap j' hne] at hj
      obtain ⟨hused',hrequester',htc',hopen⟩ := h.mapped j' p' hp' hj
      have hpne : p' ≠ p := by
        rintro rfl
        rw [htc] at htc'
        apply hused'.1
        apply UInt64.toNat_inj.mp
        exact_mod_cast htc'.symm
      rw [hpolicies p' hpne]
      exact ⟨hused',hrequester',htc',hopen⟩
  · rw [hfees,hsent]
    exact h.settled p' hp'
  · rw [hsold',hfees,hsent]
    exact ⟨hsold₁,hfee₁,rfl⟩

end Frames

/-- No number is given away twice, to a request or to a policy. -/
def Fresh : JointCall → Joint → Prop
  | .inl c, w => Contract.Counted w.1 c
  | .inr (.message m (.insure flightInfo payment)), w =>
      (∃ a, insure m flightInfo payment w.2 = .done () a) → w.2.storage.policyCnt ≠ 0
  | _, _ => True

def settlement_once (A : Addresses) : Promise Storage Event Purpose Kont Function where
  inv := Orderly A
  rel := Onward
  ready d w := Awaiting d.requestId w
  pre m f w := Orderly A w ∧ ∀ j error respData, f = .response j error respData →
    m.sender = A.townCrier → Awaiting j w
  held := held A (Orderly A) Onward fun e _ h => Orderly A h ∧ Onward e h

section Pieces
variable {keccak : Bytes → Bytes32} {A : Addresses} {m : Msg} {w : Joint} {f : Function}

/-- TownCrier runs for others. -/
theorem orderly_advance {c : Contract.Call} {w w' : Contract.World} {a : World}
    (hc : sender? (.inl c : JointCall) ≠ some A.client) (hok : Contract.Counted w c)
    (hadvance : Contract.Advance keccak w c w') (h : Orderly A (w,a)) :
    Orderly A (w',a) ∧ Onward (w,a) (w',a) := by
  obtain ⟨hnumbered,hassigned⟩ := hadvance.effect.numbered hok h.numbered
  refine h.town hnumbered (hadvance.newVersion h.versioned) hassigned fun j hj hr => ?_
  refine hadvance.effect.fee hok hj fun m f hm hsender => hc ?_
  rw [hm]
  exact congrArg some (hsender.trans hr)

theorem orderly_same {w w' : Contract.World} {a : World} (hsame : Contract.Same w w')
    (hversion : Contract.Versioned w → Contract.Versioned w') (h : Orderly A (w,a)) :
    Orderly A (w',a) ∧ Onward (w,a) (w',a) :=
  h.town (hsame.numbered h.numbered) (hversion h.versioned) hsame.assigned
    fun j _ _ => .inl (by rw [hsame.requests])

/-- A delivery that closes a request finds its policy open. -/
theorem awaiting_closed {w w' : Contract.World} {a a' : World} {d : Contract.Delivery}
    (h : Orderly A (w,a)) (hd : Contract.Answering w d)
    (hclosed : (w'.storage.requests d.requestId).fee = Contract.DELIVERED_FEE_FLAG)
    (hs : a'.storage = a.storage) : Awaiting d.requestId (w',a') := by
  intro p hp hj
  rw [hs] at hj ⊢
  obtain ⟨-,-,-,hopen⟩ := h.mapped d.requestId p hp hj
  exact ⟨hopen hd.delivered,hclosed⟩

theorem once_call {e : Joint} {t : Contract.World} {k : Kont} {b : World} {r : Address}
    {v : UInt256} {p : Purpose} (hk : ∀ m policyId, k ≠ .tcRequest m policyId)
    (hp : ∀ policyId, p ≠ .tcRequest policyId)
    (hsaved : Orderly A (t,b.keep r v p) ∧ Onward e (t,b.keep r v p))
    (hhandover : Orderly A (t,b.pay r v p) ∧ Onward e (t,b.pay r v p)) :
    (settlement_once A).Piece m f e t (.call (b.keep r v p) (b.pay r v p) k) := by
  have hlast : ∀ t, (b.pay r v p).sent.getLast? = some t → ∀ policyId,
      t.purpose ≠ .tcRequest policyId := by
    intro t ht policyId
    obtain rfl := Account.eq_of_last_pay ht
    exact hp policyId
  cases k with
  | tcRequest m policyId => exact absurd rfl (hk m policyId)
  | insureRefund | requestRefund | settle | cancelRefund => exact ⟨hsaved,hhandover,hlast⟩

/-- Only the number of an accepted request is positive and fits into 64 bits. -/
theorem refused_answer {w : Contract.World} {r : Option ℤ} (hversioned : Contract.Versioned w)
    (hr : r = some w.storage.newVersion ∨ r = some Contract.FAIL_FLAG) :
    r.getD 0 ≤ 0 ∨ ¬r.getD 0 < 2^64 := by
  rcases hr with rfl | rfl
  · exact .inl hversioned
  · exact .inr (by decide)

/-- The request of an open policy, taken or refused by TownCrier. -/
theorem once_requested {e h : Joint} {m₀ m' : Msg} {policyId : UInt64} {data : List Bytes32}
    {r : Option ℤ} {v : UInt256} {w' : Contract.World} (hask : Asking A h.2 policyId)
    (horderly : Orderly A h) (hrel : Onward e h) (hsender : m'.sender = A.client)
    (hok : Contract.Counted h.1 (.message m' (.request 1 A.client (TC_CALLBACK_FID keccak) 0 data)))
    (hserved : Served keccak (.message m' (.request 1 A.client (TC_CALLBACK_FID keccak) 0 data))
      h.1 r v w') :
    (settlement_once A).Piece m f e w'
      (afterTcRequest m₀ policyId (some (r.getD 0)) (h.2.credit v)) := by
  obtain ⟨t,a⟩ := h
  obtain ⟨hid,htc,hfee,-⟩ := hask
  have hcases := afterTcRequest_cases m₀ policyId (r.getD 0) (a.credit v)
  rcases served_request hserved with ⟨hsame,-,hnew,-,hr⟩ | ⟨hflag,hkill,hmin,rfl,rfl,rfl⟩
  · obtain ⟨horderly₁,hrel₁⟩ := orderly_same hsame (fun h => h.of_eq hnew) horderly
    obtain ⟨horderly₂,hrel₂⟩ := horderly₁.quiet (b := a.credit v) rfl fun _ _ => rfl
    have hrel₂ := hrel.trans (hrel₁.trans hrel₂)
    rcases hcases with heq | ⟨-,b,hs,-,hsent,-,heq⟩ | ⟨hpos,hlt,-⟩
    · rw [heq]
      trivial
    · rw [heq]
      obtain ⟨⟨hsaved,hrel₃⟩,hhandover,hrel₄⟩ := horderly₂.settle (r := m₀.sender)
        (v := (a.storage.policies policyId).premium) (u := .requestRefund policyId) hid hfee
        (q := {answered (a.credit v) policyId (r.getD 0) with fee := 0}) rfl hs hsent
        (fun j hj => absurd hj (horderly₂.unmapped hid htc j)) rfl
      exact once_call nofun nofun ⟨hsaved,hrel₂.trans hrel₃⟩ ⟨hhandover,hrel₂.trans hrel₄⟩
    · rcases refused_answer horderly.versioned hr with hle | hge
      · exact absurd hpos (not_lt.mpr hle)
      · exact absurd hlt hge
  · have hcnt := hok hflag hkill hmin
    set j := t.storage.requestCnt
    set t' := (Contract.record keccak m' 1 A.client (TC_CALLBACK_FID keccak) 0 data
      (t.credit m'.value)).2
    have hnext : Contract.Numbered t' ∧ Contract.Used t' j ∧ Contract.Assigned t t' :=
      Contract.numbered_record horderly.numbered hcnt
    obtain ⟨hnumbered,hused,hassigned⟩ := hnext
    have hself : (t'.storage.requests j).requester = A.client := by
      have hrecord : t'.storage.requests j = _ := Function.update_self _ _ _
      rw [hrecord]
      exact hsender
    have hfees : ∀ i, Contract.Used t i → (t.storage.requests i).requester = A.client →
        (t'.storage.requests i).fee = (t.storage.requests i).fee ∨
          (t'.storage.requests i).fee = Contract.DELIVERED_FEE_FLAG := by
      intro i hi _
      have hne : i ≠ j := by
        rintro rfl
        exact Contract.fresh_unused hcnt hi
      have hrecord : t'.storage.requests i = t.storage.requests i :=
        Function.update_of_ne hne _ _
      exact .inl (by rw [hrecord])
    obtain ⟨horderly₁,hrel₁⟩ := horderly.town hnumbered (horderly.versioned.of_eq rfl) hassigned
      hfees
    rw [Option.getD_some,Account.credit_zero] at hcases ⊢
    rcases hcases with heq | ⟨hle,-⟩ | ⟨-,-,b,hs,-,hsent,heq⟩
    · rw [heq]
      trivial
    · have hzero : j.toNat = 0 := by omega
      exact absurd (UInt64.toNat_inj.mp hzero) hcnt
    · rw [heq]
      rw [ofInt_toNat] at hs
      obtain ⟨horderly₂,hrel₂⟩ := horderly₁.map hid hfee htc hused hself hs hsent
      exact ⟨horderly₂,hrel.trans (hrel₁.trans hrel₂)⟩

theorem once_handled :
    Handled (settlement_once A) keccak A Fresh fun e _ h => Orderly A h ∧ Onward e h where
  held := rfl
  trans := .trans
  emit := fun _ _ _ h => h.quiet rfl fun _ _ => rfl
  requested := fun _ _ _ _ _ _ _ _ _ _ hask hwait hsender _ hok hserved =>
    once_requested hask hwait.1 hwait.2 hsender hok hserved

theorem once_insure {t : Contract.World} {a : World} {flightInfo : List Bytes32}
    {payment : UInt256} {o : Result} (h : Orderly A (t,a))
    (hok : Fresh (.inr (.message m (.insure flightInfo payment))) (t,a))
    (ho : insure m flightInfo payment a = o) :
    (settlement_once A).Piece m f (t,a) t o := by
  have hcases := insure_cases m flightInfo payment a
  rw [ho] at hcases
  rcases hcases with heq | heq | heq
  · rw [heq]
    trivial
  · have hcnt := hok ⟨_,ho.trans heq⟩
    rw [heq]
    exact h.record hcnt
  · rw [heq]
    obtain ⟨hsaved,hhandover⟩ := h.transfer (b := a.credit m.value) (r := m.sender)
      (v := m.value) (u := .insureRefund) rfl rfl nofun
    exact once_call nofun nofun hsaved hhandover

theorem once_request {t : Contract.World} {a : World} {policyId : UInt64} {o : Result}
    (h : Orderly A (t,a)) (ho : request m policyId a = o) :
    (settlement_once A).Piece m f (t,a) t o := by
  have hcases := request_cases m policyId a
  rw [ho] at hcases
  rcases hcases with heq | ⟨e,heq⟩ | ⟨hid,htc,hfee,-,heq⟩
  · rw [heq]
    trivial
  · rw [heq]
    exact h.quiet rfl fun _ _ => rfl
  · rw [heq]
    have hlast : (a.pay a.storage.tcContract (a.storage.policies policyId).fee
        (.tcRequest policyId)).sent.getLast? =
          some ⟨A.townCrier,(a.storage.policies policyId).fee,.tcRequest policyId,true⟩ := by
      rw [Account.getLast?_sent_pay,h.tcContract]
    exact ⟨⟨hid,htc,hfee,hlast⟩,(h.transfer (u := .tcRequest policyId) rfl rfl nofun).2⟩

theorem once_cancel {t : Contract.World} {a : World} {policyId : UInt64} {o : Result}
    (h : Orderly A (t,a)) (ho : cancel m policyId a = o) :
    (settlement_once A).Piece m f (t,a) t o := by
  have hcases := cancel_cases m policyId a
  rw [ho] at hcases
  rcases hcases with ⟨heq,-⟩ | ⟨e,heq⟩ | ⟨hid,htc,hfee,-,heq⟩
  · rw [heq]
    trivial
  · rw [heq]
    exact h.quiet rfl fun _ _ => rfl
  · rw [heq]
    obtain ⟨hsaved,hhandover⟩ := h.settle (b := clearFee a policyId) (r := m.sender)
      (v := (a.storage.policies policyId).premium) (u := .cancelRefund policyId) hid hfee rfl rfl
      rfl (fun j hj => absurd hj (h.unmapped hid htc j)) rfl
    exact once_call nofun nofun hsaved hhandover

theorem settlement_settles (s : Storage) (policyId error : UInt64) (delay : UInt256) :
    settles (settlement s policyId error delay).2.2 = some policyId := by
  unfold settlement
  dsimp only
  split_ifs <;> rfl

/-- The callback finds its policy open, or none. -/
theorem once_response {t : Contract.World} {a : World} {requestId error : UInt64}
    {respData : Bytes32} {o : Result} (h : Orderly A (t,a))
    (hready : m.sender = A.townCrier → Awaiting requestId (t,a))
    (ho : response m requestId error respData a = o) :
    (settlement_once A).Piece m f (t,a) t o := by
  have hcases := response_cases m requestId error respData a
  rw [ho] at hcases
  rcases hcases with ⟨-,e,heq⟩ | ⟨hsender,r,v,u,hs,hcases⟩
  · rw [heq]
    exact h.quiet rfl fun _ _ => rfl
  · set policyId := a.storage.idMap requestId with hpolicyId
    have hu : settles u = some policyId := by
      have hsettles := settlement_settles (clearFee a policyId).storage policyId error respData
      rw [hs] at hsettles
      exact hsettles
    have hnext : (Orderly A (t,(clearFee a policyId).keep r v u) ∧
        Onward (t,a) (t,(clearFee a policyId).keep r v u)) ∧
        Orderly A (t,(clearFee a policyId).pay r v u) ∧
          Onward (t,a) (t,(clearFee a policyId).pay r v u) := by
      by_cases hp : policyId = 0
      · refine h.transfer (b := clearFee a policyId) ?_ rfl fun p hp' hup => hp' ?_
        · have hsame : {a.storage.policies policyId with fee := 0} =
              a.storage.policies policyId := by
            rw [hp,← h.blank.1]
          change a.storage.setPolicy policyId _ = _
          rw [hsame,Storage.setPolicy,Function.update_eq_self]
        · rw [hu,hp] at hup
          exact (Option.some.inj hup).symm
      · obtain ⟨hfee,hdelivered⟩ := hready (hsender.trans h.tcContract) policyId hp rfl
        refine h.settle (b := clearFee a policyId) hp hfee rfl rfl rfl (fun j hj => ?_) hu
        obtain ⟨-,-,htc,-⟩ := h.mapped requestId policyId hp rfl
        obtain ⟨-,-,htc',-⟩ := h.mapped j policyId hp hj
        have hself : j = requestId := by
          apply UInt64.toNat_inj.mp
          exact_mod_cast htc'.symm.trans htc
        subst hself
        exact ⟨htc,hdelivered⟩
    rcases hcases with ⟨-,heq⟩ | ⟨-,e,heq⟩
    · rw [heq]
      refine once_call (by simp) (fun p hp => ?_) hnext.1 hnext.2
      rw [hp] at hu
      cases hu
    · rw [heq]
      obtain ⟨horderly,hrel⟩ := hnext.1
      obtain ⟨horderly',hrel'⟩ := horderly.quiet (b := ((clearFee a policyId).keep r v u).emit e)
        rfl fun _ _ => rfl
      exact ⟨horderly',hrel.trans hrel'⟩

theorem once_sound : (settlement_once A).Sound keccak A (client keccak A.client) Fresh where
  fallback := fun _ _ => rfl
  refl := .refl
  trans := .trans
  credit := fun _ _ _ h => h.quiet rfl fun _ _ => rfl
  same := fun _ _ _ hsame _ hversion h => orderly_same hsame hversion h
  advance := fun _ _ _ _ hc hok hadvance h => orderly_advance hc hok hadvance h
  answered := fun _ _ _ _ _ hd _ h _ _ hclosed => awaiting_closed h hd hclosed rfl
  refunded := fun _ _ _ _ _ _ hd _ _ h _ _ hclosed _ _ => awaiting_closed h hd hclosed rfl
  foreign := by
    intro d w w' hid hrequester hother h h' hrel p hp hj
    obtain ⟨-,hclient,-,-⟩ := h'.mapped d.requestId p hp hj
    have hsame := (hrel.assigned d.requestId (h.numbered d.requestId hid hrequester)).2
    exact absurd (hsame.symm.trans hclient) hother
  ready_same := by
    intro d w a w' hsame _ hready p hp hj
    obtain ⟨hfee,hdelivered⟩ := hready p hp hj
    refine ⟨hfee,?_⟩
    rw [hsame.requests]
    exact hdelivered
  entry := fun _ _ _ _ hforeign h _ =>
    ⟨h,fun _ _ _ _ hsender => absurd hsender (hforeign _ rfl).1⟩
  callback := by
    rintro m fid d f w - hdispatch - - h hready
    refine ⟨h,fun j error respData hf _ => ?_⟩
    change if _ then _ else _ at hdispatch
    split_ifs at hdispatch
    · rw [hdispatch] at hf
      cases hf
      exact hready
    · exact absurd hf (hdispatch j error respData)
  start := by
    rintro m f ⟨t,a⟩ hf ⟨h,hready⟩ hok
    cases f with
    | fallback => exact absurd rfl hf
    | insure flightInfo payment =>
        rw [client_start,FlightInsurance.start]
        generalize ho : insure m flightInfo payment a = o
        exact once_insure h hok ho
    | request policyId => exact Promise.piece_nonPayable (once_request h rfl)
    | response requestId error respData =>
        exact Promise.piece_nonPayable (once_response h (hready requestId error respData rfl) rfl)
    | cancel policyId => exact Promise.piece_nonPayable (once_cancel h rfl)
  failed := failed_piece once_handled
  asked := asked_piece once_handled
  other := other_piece once_handled

theorem orderly_initial (A : Addresses) (owner : Address) (balance : ℕ) (insurer : Address)
    (capital : ℕ) : Orderly A (initial A owner balance insurer capital) where
  tcContract := rfl
  numbered := Contract.numbered_constructor owner balance
  versioned := le_rfl
  blank := ⟨rfl,rfl⟩
  unsold := fun _ hp _ => ⟨rfl,rfl,fun _ hj => hp hj.symm⟩
  mapped := fun _ _ hp hj => absurd hj.symm hp
  settled := fun _ _ => ⟨Nat.zero_le _,fun h => absurd rfl h⟩

/-- A callback for a foreign request moves nothing. -/
theorem response_foreign {t : Contract.World} {a : World} {requestId : UInt64} (error : UInt64)
    (respData : Bytes32) (h : Orderly A (t,a)) (hsender : m.sender = A.townCrier)
    (hforeign : (t.storage.requests requestId).requester ≠ A.client) :
    ∃ r u, response m requestId error respData a =
      .call (a.keep r 0 u) (a.pay r 0 u) (.settle m 0 requestId error respData) := by
  have hzero : a.storage.idMap requestId = 0 := by
    by_contra hp
    exact hforeign (h.mapped requestId _ hp rfl).2.1
  have hsame : clearFee a 0 = a := by
    have hpolicy : {a.storage.policies 0 with fee := 0} = a.storage.policies 0 := by
      rw [← h.blank.1]
    rw [clearFee,hpolicy,Storage.setPolicy,Function.update_eq_self]
    rfl
  have hvalue : (settlement a.storage 0 error respData).2.1 = 0 := by
    unfold settlement
    dsimp only
    rw [h.blank.1,h.blank.2]
    split_ifs <;> rfl
  rcases response_cases m requestId error respData a with ⟨hne,-⟩ | ⟨-,r,v,u,hs,hcases⟩
  · exact absurd (hsender.trans h.tcContract.symm) hne
  · rw [hzero,hsame] at hs hcases
    rw [hs] at hvalue
    obtain rfl : v = 0 := hvalue
    rcases hcases with ⟨-,heq⟩ | ⟨hfunds,-⟩
    · exact ⟨r,u,heq⟩
    · exact absurd (Nat.zero_le _) hfunds

/-- No policy is settled twice, none is touched after its fee is gone, and a
callback for the request of somebody else moves nothing, as long as neither
contract has used up its numbers. -/
theorem policy_settled_once (keccak : Bytes → Bytes32) (A : Addresses) (owner : Address)
    (balance : ℕ) (insurer : Address) (capital : ℕ) :
    (∀ w p, (system keccak A (client keccak A.client)).Seen Fresh
        (initial A owner balance insurer capital) (.other w) → p ≠ 0 →
      (settlements w.2 p).length ≤ 1) ∧
    (∀ c w answer w', (system keccak A (client keccak A.client)).Seen Fresh
        (initial A owner balance insurer capital) (.call c w) →
      (system keccak A (client keccak A.client)).Exec Fresh
        (.code w ((system keccak A (client keccak A.client)).start c w)) answer w' →
      Final w.2 w'.2) ∧
    ∀ m requestId error respData w, (system keccak A (client keccak A.client)).Seen Fresh
        (initial A owner balance insurer capital)
        (.call (.inr (.message m (.response requestId error respData))) w) →
      m.sender = A.townCrier → (w.1.storage.requests requestId).requester ≠ A.client →
      ∃ r u, response m requestId error respData w.2 =
          .call (w.2.keep r 0 u) (w.2.pay r 0 u) (.settle m 0 requestId error respData) ∧
        ∀ answer a, ∃ e,
          resume (.settle m 0 requestId error respData) answer a = .done () (a.emit e) := by
  have hsound : ((settlement_once A).spec keccak A (client keccak A.client)).Sound _ Fresh :=
    Promise.sound once_sound
  have h₀ := orderly_initial A owner balance insurer capital
  refine ⟨fun w p h hp => ((hsound.seen h₀ h).settled p hp).1,fun c w answer w' h hcall => ?_,
    fun m requestId error respData w h hsender hforeign => ?_⟩
  · rcases Promise.called once_sound h₀ h hcall with hrel | ⟨v,heq⟩
    · exact hrel.final
    · rw [heq]
      exact fun p hsold hfee => ⟨hsold,hfee,rfl⟩
  · have hw : Orderly A w := (hsound.seen h₀ h (by nofun)).1
    obtain ⟨r,u,heq⟩ := response_foreign error respData hw hsender hforeign
    exact ⟨r,u,heq,fun _ _ => ⟨_,rfl⟩⟩

end Pieces
section Wrap

/-- After a purchase for one ether. -/
def sale (a : World) : World :=
  record purchase [0,1500090000] (1*ETHER_TO_WEI) (a.credit purchase.value)

def canceller : Msg := ⟨7,0,1,0,1500000000⟩

/-- After a purchase of policy 1 and its cancellation. -/
def cancelledSale (a : World) : World :=
  ((clearFee (sale a) 1).pay 7 (1*ETHER_TO_WEI) (.cancelRefund 1)).emit
    (.cancel 1 7 true 1500000000)

variable {ok : JointCall → Joint → Prop} {w₀ : Joint} {t : Contract.World} {a : World}

theorem run_sale (hok : ok (.inr (.message purchase (.insure [0,1500090000] 1))) (t,a))
    (h : (pair client).Run ok w₀ (t,a)) : (pair client).Run ok w₀ (t,sale a) := by
  have hforeign : (pair client).transaction (.inr (.message purchase (.insure [0,1500090000] 1))) := by
    rintro sender ⟨⟩
    decide
  exact h.step hforeign hok (exec_insure _ _ (by decide) rfl (by decide))

theorem run_sales (hok : ∀ a, ok (.inr (.message purchase (.insure [0,1500090000] 1))) (t,a))
    (h : (pair client).Run ok w₀ (t,a)) (n : ℕ) : (pair client).Run ok w₀ (t,sale^[n] a) := by
  induction n with
  | zero => exact h
  | succ n ih =>
      rw [Function.iterate_succ_apply']
      exact run_sale (hok _) ih

theorem policyCnt_sales (a : World) (n : ℕ) :
    (sale^[n] a).storage.policyCnt = a.storage.policyCnt+UInt64.ofNat n := by
  induction n with
  | zero => simp
  | succ n ih =>
      rw [Function.iterate_succ_apply']
      change (sale^[n] a).storage.policyCnt+1 = _
      rw [ih,UInt64.ofNat_add,UInt64.add_assoc]
      rfl

theorem sent_sales (a : World) (n : ℕ) : (sale^[n] a).sent = a.sent := by
  induction n with
  | zero => rfl
  | succ n ih =>
      rw [Function.iterate_succ_apply']
      exact ih

/-- The policy just sold can be cancelled, whatever was there before. -/
theorem run_cancelledSale (hcnt : a.storage.policyCnt = 1)
    (hbuy : ok (.inr (.message purchase (.insure [0,1500090000] 1))) (t,a))
    (hcancel : ok (.inr (.message canceller (.cancel 1))) (t,sale a))
    (h : (pair client).Run ok w₀ (t,a)) : (pair client).Run ok w₀ (t,cancelledSale a) := by
  have hpolicy : (sale a).storage.policies 1 =
      ⟨7,0,[0,1500090000],TC_FEE,1*ETHER_TO_WEI⟩ := by
    have hself : (sale a).storage.policies a.storage.policyCnt =
        ⟨7,0,[0,1500090000],TC_FEE,1*ETHER_TO_WEI⟩ := Function.update_self _ _ _
    rwa [hcnt] at hself
  have hfunds : (1*ETHER_TO_WEI).toNat ≤ (sale a).balance := by
    have hvalue : (1*ETHER_TO_WEI).toNat ≤ purchase.value.toNat := by decide
    exact hvalue.trans (Nat.le_add_left _ _)
  have hcall : cancel canceller 1 (sale a) = .call
      ((clearFee (sale a) 1).keep 7 (1*ETHER_TO_WEI) (.cancelRefund 1))
      ((clearFee (sale a) 1).pay 7 (1*ETHER_TO_WEI) (.cancelRefund 1))
      (.cancelRefund canceller 1) := by
    have heq := cancel_eq canceller 1 (sale a) (d := 1500090000) (by decide) (by rw [hpolicy]; rfl) (by rw [hpolicy]; rfl)
      (by rw [hpolicy]; decide) (by rw [hpolicy]) (by decide) (by rw [hpolicy]; exact hfunds)
    rw [hpolicy] at heq
    exact heq
  have hstart : (pair client).start (.inr (.message canceller (.cancel 1))) (t,sale a) = .call
      (t,(clearFee (sale a) 1).keep 7 (1*ETHER_TO_WEI) (.cancelRefund 1))
      (t,(clearFee (sale a) 1).pay 7 (1*ETHER_TO_WEI) (.cancelRefund 1))
      (.inr (.cancelRefund canceller 1)) := by
    rw [pair_start,FlightInsurance.start,hcall]
    rfl
  have hout : (pair client).outside (.inr (.cancelRefund canceller 1))
      (t,(clearFee (sale a) 1).pay 7 (1*ETHER_TO_WEI) (.cancelRefund 1)) := by
    refine ⟨⟨7,1*ETHER_TO_WEI,.cancelRefund 1,true⟩,?_,by decide,by decide⟩
    rw [Account.getLast?_sent_pay]
  have hexec : (pair client).Exec ok (.code (t,sale a)
      ((pair client).start (.inr (.message canceller (.cancel 1))) (t,sale a))) (some none)
        (t,cancelledSale a) := by
    rw [hstart]
    exact .resumed (.outer hout (.idle (a := some none))) .done
  have hforeign : (pair client).transaction (.inr (.message canceller (.cancel 1))) := by
    rintro sender ⟨⟩
    decide
  exact (run_sale hbuy h).step hforeign hcancel hexec

theorem settlements_cancelledSale (a : World) :
    settlements (cancelledSale a) 1 =
      settlements a 1++[⟨7,1*ETHER_TO_WEI,.cancelRefund 1,true⟩] := by
  have hsettles : settles (.cancelRefund 1) = some 1 := rfl
  rw [cancelledSale,settlements_emit,settlements_pay,if_pos hsettles]
  rfl

theorem policy_settled_once_cancel :
    (settlements (cancelledSale (constructor 1 2 0)) 1).length ≤ 1 := by
  have hbuy : Fresh (.inr (.message purchase (.insure [0,1500090000] 1)))
      (initial places 5 0 1 0) := fun _ => by decide
  have hrun : (pair client).Run Fresh (initial places 5 0 1 0)
      (Contract.constructor 5 0,cancelledSale (constructor 1 2 0)) :=
    run_cancelledSale rfl hbuy trivial .start
  have honce := (policy_settled_once constantHash places 5 0 1 0).1 _ 1 (.between hrun) (by decide)
  exact honce

/-- After 2^64 policies the number of the first one is used again, and its second
owner is refunded as well. -/
theorem settled_twice : ∃ w, (pair client).Seen (fun c w => ∀ c', c = .inl c' → Contract.Counted w.1 c')
    (initial places 5 0 1 0) (.other w) ∧ (settlements w.2 1).length = 2 := by
  obtain ⟨n,hn⟩ : ∃ n : ℕ, (2 : UInt64)+UInt64.ofNat n = 1 := ⟨2^64-1,by decide⟩
  have h₁ : (pair client).Run (fun c w => ∀ c', c = .inl c' → Contract.Counted w.1 c')
      (initial places 5 0 1 0) (Contract.constructor 5 0,cancelledSale (constructor 1 2 0)) :=
    run_cancelledSale rfl nofun nofun .start
  have h₂ := run_sales (fun _ => nofun) h₁ n
  have hcnt : (sale^[n] (cancelledSale (constructor 1 2 0))).storage.policyCnt = 1 := by
    rw [policyCnt_sales]
    exact hn
  have h₃ := run_cancelledSale hcnt nofun nofun h₂
  refine ⟨_,.between h₃,?_⟩
  have hsales : settlements (sale^[n] (cancelledSale (constructor 1 2 0))) 1 =
      settlements (cancelledSale (constructor 1 2 0)) 1 := by
    rw [settlements,sent_sales]
    rfl
  rw [settlements_cancelledSale,hsales,settlements_cancelledSale]
  rfl

end Wrap
end TownCrier.Insurance
