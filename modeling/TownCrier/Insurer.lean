import TownCrier.Insurance
import TownCrier.Linked

/-!
# The insurance as a client of TownCrier

What each piece of the insurance does, by cases: it reverts, it only logs, it
writes one policy, or it calls out. While it waits for TownCrier to take a
request nobody else can act, and every other continuation only logs.
-/
namespace TownCrier.Insurance
open BigEndian CallMachine Evm FlightInsurance Linked

/-- A callback names `response`, or runs another function on whatever it decodes. -/
def client (keccak : Bytes → Bytes32) (self : Address) :
    Client Storage Event Purpose Kont Function where
  start m f := FlightInsurance.start (.message m f)
  resume := resume
  fallback := .fallback
  dispatch fid d f :=
    if fid = TC_CALLBACK_FID keccak then f = .response d.requestId d.error d.respData
    else ∀ requestId error respData, f ≠ .response requestId error respData
  asks
    | a, .tcRequest policyId =>
        .request 1 self (TC_CALLBACK_FID keccak) 0 (a.storage.policies policyId).data
    | _, _ => .fallback

theorem client_start (keccak : Bytes → Bytes32) (self : Address) (m : Msg) (f : Function)
    (a : World) : (client keccak self).start m f a = FlightInsurance.start (.message m f) a := rfl

theorem dispatch_response (keccak : Bytes → Bytes32) (self : Address) (d : Contract.Delivery) :
    (client keccak self).dispatch (TC_CALLBACK_FID keccak) d
      (.response d.requestId d.error d.respData) := by
  change if _ then _ else _
  rw [if_pos rfl]

abbrev Joint := Linked.World Storage Event Purpose
abbrev JointCall := Contract.Call ⊕ Linked.Call Function

/-- Both contracts, before anyone has called them. -/
def initial (A : Addresses) (owner : Address) (balance : ℕ) (insurer : Address) (capital : ℕ) :
    Joint :=
  (Contract.constructor owner balance,constructor insurer A.townCrier capital)

variable {m : Msg} {a : World}

theorem insure_cases (m : Msg) (flightInfo : List Bytes32) (payment : UInt256) (a : World) :
    insure m flightInfo payment a = .revert ∨
    insure m flightInfo payment a =
      .done () (record m flightInfo (payment*ETHER_TO_WEI) (a.credit m.value)) ∨
    insure m flightInfo payment a = .call
      ((a.credit m.value).keep m.sender m.value .insureRefund)
      ((a.credit m.value).pay m.sender m.value .insureRefund)
      (.insureRefund m flightInfo (payment*ETHER_TO_WEI)) := by
  have hrefund : ∀ o, (a.credit m.value).callOut m.sender m.value .insureRefund
      (.insureRefund m flightInfo (payment*ETHER_TO_WEI))
      (afterInsureRefund m flightInfo (payment*ETHER_TO_WEI) none) = o →
        o = .revert ∨ o = .call ((a.credit m.value).keep m.sender m.value .insureRefund)
          ((a.credit m.value).pay m.sender m.value .insureRefund)
          (.insureRefund m flightInfo (payment*ETHER_TO_WEI)) := by
    rintro o rfl
    unfold Account.callOut
    split_ifs
    · exact .inr rfl
    · exact .inl rfl
  unfold insure
  dsimp only
  split_ifs
  · exact (hrefund _ rfl).imp_right .inr
  · cases flightInfo[1]? with
    | none => exact .inl rfl
    | some departure =>
        dsimp only
        split_ifs
        · exact (hrefund _ rfl).imp_right .inr
        · exact .inr (.inl rfl)

/-- The policy can be requested, and TownCrier has been called with its fee. -/
structure Asking (A : Addresses) (a : World) (policyId : UInt64) : Prop where
  known : policyId ≠ 0
  tcId : (a.storage.policies policyId).tcId = 0
  fee : (a.storage.policies policyId).fee ≠ 0
  last : a.sent.getLast? =
    some ⟨A.townCrier,(a.storage.policies policyId).fee,.tcRequest policyId,true⟩

theorem request_cases (m : Msg) (policyId : UInt64) (a : World) :
    request m policyId a = .revert ∨ (∃ e, request m policyId a = .done () (a.emit e)) ∨
    policyId ≠ 0 ∧ (a.storage.policies policyId).tcId = 0 ∧
      (a.storage.policies policyId).fee ≠ 0 ∧
      (a.storage.policies policyId).fee.toNat ≤ a.balance ∧
      request m policyId a = .call
        (a.keep a.storage.tcContract (a.storage.policies policyId).fee (.tcRequest policyId))
        (a.pay a.storage.tcContract (a.storage.policies policyId).fee (.tcRequest policyId))
        (.tcRequest m policyId) := by
  unfold request Account.callOut
  dsimp only
  split_ifs with hguard hfunds
  · exact .inr (.inl ⟨_,rfl⟩)
  · simp only [not_or,not_not] at hguard
    exact .inr (.inr ⟨hguard.1,hguard.2.2.1,hguard.2.2.2,hfunds,rfl⟩)
  · exact .inl rfl

/-- The policy after an attempt to request it which got the answer `tcId`. -/
def answered (a : World) (policyId : UInt64) (tcId : ℤ) : Policy :=
  {a.storage.policies policyId with tcId := tcId}

theorem afterTcRequest_cases (m : Msg) (policyId : UInt64) (tcId : ℤ) (a : World) :
    afterTcRequest m policyId (some tcId) a = .revert ∨
    (tcId ≤ 0 ∧ ∃ b : World,
      b.storage = a.storage.setPolicy policyId {answered a policyId tcId with fee := 0} ∧
      b.balance = a.balance ∧ b.sent = a.sent ∧
      (a.storage.policies policyId).premium.toNat ≤ a.balance ∧
      afterTcRequest m policyId (some tcId) a = .call
        (b.keep m.sender (a.storage.policies policyId).premium (.requestRefund policyId))
        (b.pay m.sender (a.storage.policies policyId).premium (.requestRefund policyId))
        (.requestRefund m policyId)) ∨
    0 < tcId ∧ tcId < 2^64 ∧ ∃ b : World,
      b.storage = {a.storage.setPolicy policyId (answered a policyId tcId) with
        idMap := Function.update a.storage.idMap (UInt64.ofInt tcId) policyId} ∧
      b.balance = a.balance ∧ b.sent = a.sent ∧
      afterTcRequest m policyId (some tcId) a = .done () b := by
  unfold afterTcRequest Account.callOut
  dsimp only
  split_ifs with hpos hfunds hwide
  · right; left
    have hpolicy : (clearFee (a.set (a.storage.setPolicy policyId
        {a.storage.policies policyId with tcId := tcId})) policyId).storage =
          a.storage.setPolicy policyId {answered a policyId tcId with fee := 0} := by
      simp [clearFee,Storage.setPolicy,answered]
    have hpremium : ∀ q : Policy, q = {answered a policyId tcId with fee := 0} →
        q.premium+q.fee = (a.storage.policies policyId).premium := by
      rintro q rfl
      simp [answered]
    have hself : (clearFee (a.set (a.storage.setPolicy policyId
        {a.storage.policies policyId with tcId := tcId})) policyId).storage.policies policyId =
          {answered a policyId tcId with fee := 0} := by
      rw [hpolicy]
      simp [Storage.setPolicy]
    rw [hpremium _ hself] at hfunds ⊢
    exact ⟨hpos,_,hpolicy,rfl,rfl,hfunds,rfl⟩
  · exact .inl rfl
  · exact .inl rfl
  · refine .inr (.inr ⟨not_le.mp hpos,not_le.mp hwide,_,?_,?_,?_,rfl⟩)
    all_goals rfl

theorem response_cases (m : Msg) (requestId error : UInt64) (respData : Bytes32) (a : World) :
    (m.sender ≠ a.storage.tcContract ∧
      ∃ e, response m requestId error respData a = .done () (a.emit e)) ∨
    m.sender = a.storage.tcContract ∧ ∃ r v p,
      settlement (clearFee a (a.storage.idMap requestId)).storage (a.storage.idMap requestId) error
        respData = (r,v,p) ∧
      ((v.toNat ≤ a.balance ∧ response m requestId error respData a = .call
        ((clearFee a (a.storage.idMap requestId)).keep r v p)
        ((clearFee a (a.storage.idMap requestId)).pay r v p)
        (.settle m (a.storage.idMap requestId) requestId error respData)) ∨
      ¬v.toNat ≤ a.balance ∧ ∃ e, response m requestId error respData a =
        .done () (((clearFee a (a.storage.idMap requestId)).keep r v p).emit e)) := by
  unfold response
  dsimp only
  split_ifs with hsender
  · exact .inl ⟨hsender,_,rfl⟩
  · generalize settlement (clearFee a (a.storage.idMap requestId)).storage
      (a.storage.idMap requestId) error respData = s
    obtain ⟨r,v,p⟩ := s
    refine .inr ⟨not_not.mp hsender,r,v,p,rfl,?_⟩
    unfold Account.callOut
    by_cases hfunds : v.toNat ≤ a.balance
    · exact .inl ⟨hfunds,if_pos hfunds⟩
    · exact .inr ⟨hfunds,_,if_neg hfunds⟩

/-- What `cancel` adds up after it has cleared the fee. -/
theorem clearFee_premium (a : World) (policyId : UInt64) :
    ((clearFee a policyId).storage.policies policyId).fee+
      ((clearFee a policyId).storage.policies policyId).premium =
        (a.storage.policies policyId).premium := by
  simp [clearFee,Storage.setPolicy]

theorem cancel_cases (m : Msg) (policyId : UInt64) (a : World) :
    (cancel m policyId a = .revert ∧ ((a.storage.policies policyId).data[1]? = none ∨
      (a.storage.policies policyId).fee ≠ 0 ∧ (a.storage.policies policyId).tcId = 0 ∧
        ¬(a.storage.policies policyId).premium.toNat ≤ a.balance)) ∨
    (∃ e, cancel m policyId a = .done () (a.emit e)) ∨
    policyId ≠ 0 ∧ (a.storage.policies policyId).tcId = 0 ∧
      (a.storage.policies policyId).fee ≠ 0 ∧
      (a.storage.policies policyId).premium.toNat ≤ a.balance ∧
      cancel m policyId a = .call
        ((clearFee a policyId).keep m.sender (a.storage.policies policyId).premium
          (.cancelRefund policyId))
        ((clearFee a policyId).pay m.sender (a.storage.policies policyId).premium
          (.cancelRefund policyId)) (.cancelRefund m policyId) := by
  have hpremium := clearFee_premium a policyId
  unfold cancel
  dsimp only
  cases (a.storage.policies policyId).data[1]? with
  | none => exact .inl ⟨rfl,.inl rfl⟩
  | some departure =>
      dsimp only
      split_ifs with hguard
      · exact .inr (.inl ⟨_,rfl⟩)
      · simp only [not_or,not_not] at hguard
        rw [hpremium]
        unfold Account.callOut
        split_ifs with hfunds
        · exact .inr (.inr ⟨hguard.1,hguard.2.2.2.1,hguard.2.2.1,hfunds,rfl⟩)
        · exact .inl ⟨rfl,.inr ⟨hguard.2.2.1,hguard.2.2.2.1,hfunds⟩⟩

/-- All continuations but one only log. -/
theorem resume_quiet {k : Kont} (hk : ∀ m policyId, k ≠ .tcRequest m policyId)
    (answer : Option ℤ) (a : World) :
    resume k answer a = .revert ∨ ∃ e, resume k answer a = .done () (a.emit e) := by
  cases k with
  | tcRequest m policyId => exact absurd rfl (hk m policyId)
  | settle => exact .inr ⟨_,rfl⟩
  | requestRefund | cancelRefund =>
      cases answer with
      | none => exact .inl rfl
      | some n => exact .inr ⟨_,rfl⟩
  | insureRefund m flightInfo payment =>
      cases answer with
      | none => exact .inl rfl
      | some n =>
          change afterInsureRefund m flightInfo payment (some n) a = _ ∨
            ∃ e, afterInsureRefund m flightInfo payment (some n) a = _
          unfold afterInsureRefund
          rw [if_neg (by simp)]
          cases flightInfo[1]? with
          | none => exact .inl rfl
          | some departure => exact .inr ⟨_,rfl⟩

theorem request_eq {m : Msg} {policyId : UInt64} {a : World} (hid : policyId ≠ 0)
    (hrequester : (a.storage.policies policyId).requester = m.sender)
    (htc : (a.storage.policies policyId).tcId = 0) (hfee : (a.storage.policies policyId).fee ≠ 0)
    (hfunds : (a.storage.policies policyId).fee.toNat ≤ a.balance) :
    request m policyId a = .call
      (a.keep a.storage.tcContract (a.storage.policies policyId).fee (.tcRequest policyId))
      (a.pay a.storage.tcContract (a.storage.policies policyId).fee (.tcRequest policyId))
      (.tcRequest m policyId) := by
  unfold request Account.callOut
  dsimp only
  rw [if_neg,if_pos hfunds]
  rintro (h | h | h | h)
  · exact hid h
  · exact h hrequester
  · exact h htc
  · exact hfee h

theorem cancel_eq (m : Msg) (policyId : UInt64) (a : World) {d : Bytes32}
    (hid : policyId ≠ 0) (hd : (a.storage.policies policyId).data[1]? = some d)
    (hrequester : (a.storage.policies policyId).requester = m.sender)
    (hfee : (a.storage.policies policyId).fee ≠ 0) (htc : (a.storage.policies policyId).tcId = 0)
    (hlate : ¬tooLate m d)
    (hfunds : (a.storage.policies policyId).premium.toNat ≤ a.balance) :
    cancel m policyId a = .call
      ((clearFee a policyId).keep m.sender (a.storage.policies policyId).premium
        (.cancelRefund policyId))
      ((clearFee a policyId).pay m.sender (a.storage.policies policyId).premium
        (.cancelRefund policyId)) (.cancelRefund m policyId) := by
  have hpremium := clearFee_premium a policyId
  unfold cancel
  simp only [hd]
  rw [if_neg,hpremium]
  · exact if_pos hfunds
  · rintro (h | h | h | h | h)
    · exact hid h
    · exact h hrequester
    · exact hfee h
    · exact h htc
    · exact hlate h

/-- While TownCrier is asked `waiting` holds, and at every other handover the
invariant does, in the state to which a failure returns as well. -/
def held (A : Addresses) (inv : Joint → Prop) (rel : Joint → Joint → Prop)
    (waiting : Joint → UInt64 → Joint → Prop) :
    Msg → Function → Joint → Kont → Joint → Joint → Prop
  | _, _, e, .tcRequest _ policyId, _, h => Asking A h.2 policyId ∧ waiting e policyId h
  | _, _, e, _, s, h => (inv s ∧ rel e s) ∧ (inv h ∧ rel e h) ∧
      ∀ t, h.2.sent.getLast? = some t → ∀ policyId, t.purpose ≠ .tcRequest policyId

/-- What is left to show about the continuations. -/
structure Handled (Q : Promise Storage Event Purpose Kont Function) (keccak : Bytes → Bytes32)
    (A : Addresses) (ok : JointCall → Joint → Prop) (waiting : Joint → UInt64 → Joint → Prop) :
    Prop where
  held : Q.held = held A Q.inv Q.rel waiting
  trans : ∀ {w₁ w₂ w₃}, Q.rel w₁ w₂ → Q.rel w₂ w₃ → Q.rel w₁ w₃
  emit : ∀ w a e, Q.inv (w,a) → Q.inv (w,a.emit e) ∧ Q.rel (w,a) (w,a.emit e)
  requested : ∀ m f e m₀ policyId h m' r v w', Asking A h.2 policyId → waiting e policyId h →
    m'.sender = A.client → m'.value = (h.2.storage.policies policyId).fee →
    ok (.inl (.message m' (.request 1 A.client (TC_CALLBACK_FID keccak) 0
      (h.2.storage.policies policyId).data))) h →
    Served keccak (.message m' (.request 1 A.client (TC_CALLBACK_FID keccak) 0
      (h.2.storage.policies policyId).data)) h.1 r v w' →
    Q.Piece m f e w' (afterTcRequest m₀ policyId (some (r.getD 0)) (h.2.credit v))

section Handled
variable {Q : Promise Storage Event Purpose Kont Function} {keccak : Bytes → Bytes32}
variable {A : Addresses} {ok : JointCall → Joint → Prop} {waiting : Joint → UInt64 → Joint → Prop}

/-- A handover for which nobody has to wait. -/
theorem held_cases {m : Msg} {f : Function} {e s h : Joint} {k : Kont}
    (hheld : held A Q.inv Q.rel waiting m f e k s h) :
    (∃ m₀ policyId, k = .tcRequest m₀ policyId ∧ Asking A h.2 policyId ∧ waiting e policyId h) ∨
    (∀ m policyId, k ≠ .tcRequest m policyId) ∧ (Q.inv s ∧ Q.rel e s) ∧ (Q.inv h ∧ Q.rel e h) ∧
      ∀ t, h.2.sent.getLast? = some t → ∀ policyId, t.purpose ≠ .tcRequest policyId := by
  cases k with
  | tcRequest m₀ policyId => exact .inl ⟨m₀,policyId,rfl,hheld⟩
  | insureRefund | requestRefund | settle | cancelRefund => exact .inr ⟨nofun,hheld⟩

theorem quiet_piece (hQ : Handled Q keccak A ok waiting) {m : Msg} {f : Function} {e : Joint}
    {w : Contract.World} {a : World} {k : Kont} (hk : ∀ m policyId, k ≠ .tcRequest m policyId)
    (answer : Option ℤ) (h : Q.inv (w,a) ∧ Q.rel e (w,a)) :
    Q.Piece m f e w (resume k answer a) := by
  rcases resume_quiet hk answer a with heq | ⟨ev,heq⟩
  · rw [heq]
    trivial
  · rw [heq]
    obtain ⟨hinv,hrel⟩ := hQ.emit w a ev h.1
    exact ⟨hinv,hQ.trans h.2 hrel⟩

theorem failed_piece (hQ : Handled Q keccak A ok waiting) (m : Msg) (f : Function) (e : Joint)
    (k : Kont) (s h : Joint) (hheld : Q.held m f e k s h) :
    Q.Piece m f e s.1 ((client keccak A.client).resume k none s.2) := by
  rw [hQ.held] at hheld
  rcases held_cases hheld with ⟨m₀,policyId,rfl,-⟩ | ⟨hk,hs,-⟩
  · trivial
  · exact quiet_piece hQ hk none hs

theorem asked_piece (hQ : Handled Q keccak A ok waiting) (m : Msg) (f : Function) (e : Joint)
    (k : Kont) (s h : Joint) (t : Transfer Purpose) (m' : Msg) (hheld : Q.held m f e k s h)
    (ht : h.2.sent.getLast? = some t) (harrives : Arrives t A.client A.townCrier m') :
    Service ((client keccak A.client).asks h.2 t.purpose) ∧
      ∀ r v w', ok (.inl (.message m' ((client keccak A.client).asks h.2 t.purpose))) h →
        Served keccak (.message m' ((client keccak A.client).asks h.2 t.purpose)) h.1 r v w' →
          Q.Piece m f e w'
            ((client keccak A.client).resume k (some (r.getD 0)) (h.2.credit v)) := by
  rw [hQ.held] at hheld
  rcases held_cases hheld with ⟨m₀,policyId,rfl,hask,hwait⟩ | ⟨hk,-,hh,hquiet⟩
  · cases hask.last.symm.trans ht
    exact ⟨trivial,fun r v w' hok hserved => hQ.requested m f e m₀ policyId h m' r v w' hask hwait
      harrives.sender harrives.value hok hserved⟩
  · have hasks : (client keccak A.client).asks h.2 t.purpose = .fallback := by
      cases hp : t.purpose with
      | tcRequest policyId => exact absurd hp (hquiet t ht policyId)
      | _ => rfl
    rw [hasks]
    refine ⟨trivial,fun r v w' _ hserved => ?_⟩
    obtain ⟨rfl,rfl⟩ := served_fallback hserved
    exact quiet_piece hQ hk _ hh

theorem other_piece (hQ : Handled Q keccak A ok waiting) (m : Msg) (f : Function) (e : Joint)
    (k : Kont) (s h : Joint) (t : Transfer Purpose) (hheld : Q.held m f e k s h)
    (ht : h.2.sent.getLast? = some t) (hr : t.recipient ≠ A.townCrier) :
    Q.inv h ∧ ∀ n w, Q.inv w → Q.rel h w →
      Q.Piece m f e w.1 ((client keccak A.client).resume k (some n) w.2) := by
  rw [hQ.held] at hheld
  rcases held_cases hheld with ⟨m₀,policyId,rfl,hask,-⟩ | ⟨hk,-,hh,-⟩
  · cases hask.last.symm.trans ht
    exact absurd rfl hr
  · exact ⟨hh.1,fun n w hinv hrel => quiet_piece hQ hk (some n) ⟨hinv,hQ.trans hh.2 hrel⟩⟩

end Handled

theorem pair_start (m : Msg) (f : Function) (w : Contract.World) (a : World) :
    (pair client).start (.inr (.message m f)) (w,a) =
      ofClient w (FlightInsurance.start (.message m f) a) := rfl

/-- A purchase in the joint world, from the one in the insurance alone. -/
theorem exec_insure {ok : JointCall → Joint → Prop} {m : Msg} {flightInfo : List Bytes32}
    {payment : UInt256} {departure : Bytes32} (w : Contract.World) (a : World)
    (hpaid : ¬m.value < payment*ETHER_TO_WEI+TC_FEE) (hd : flightInfo[1]? = some departure)
    (hlate : ¬tooLate m departure) :
    (pair client).Exec ok
      (.code (w,a) ((pair client).start (.inr (.message m (.insure flightInfo payment))) (w,a)))
      (some none) (w,record m flightInfo (payment*ETHER_TO_WEI) (a.credit m.value)) := by
  rw [pair_start,FlightInsurance.start,insure_eq a hpaid hd hlate]
  exact .done

end TownCrier.Insurance
