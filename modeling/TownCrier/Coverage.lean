import TownCrier.Insurer
import TownCrier.Premium

/-!
# Whether refunds stay covered

All policies share one balance, and a payout is five times the premium. The sum
of what open policies can claim back is below the balance as long as each answer
of TownCrier finds enough beyond that sum, and as long as no purchase wraps
around.
-/
namespace TownCrier.Insurance
open BigEndian CallMachine Evm FlightInsurance Ledger Linked

/-- What a policy can claim back that is neither requested, cancelled nor answered. -/
def refund (p : Policy) : ℕ := if p.fee ≠ 0 ∧ p.tcId = 0 then p.premium.toNat+p.fee.toNat else 0

/-- Over all policies, the one with the number zero included. -/
def refundable (s : Storage) : ℕ := refund (s.policies 0)+total refund s.policies (2^64)

/-- What an answer pays: five premiums for a delay, else one. -/
def price (p : Policy) (error : UInt64) (delay : UInt256) : UInt256 :=
  if error = 0 ∧ delay ≥ PAYOUT_DELAY then p.premium*PAYOUT_RATE else p.premium

/-- The comparison of a purchase does not wrap around, and an answer that can be
paid leaves enough for the other policies. -/
def Reserved : JointCall → Joint → Prop
  | .inr (.message m (.insure flightInfo payment)), w =>
      (∃ a, insure m flightInfo payment w.2 = .done () a) →
        (payment*ETHER_TO_WEI).toNat+TC_FEE.toNat < 2^256
  | .inr (.message m (.response requestId error respData)), w =>
      m.sender = w.2.storage.tcContract →
        let policyId := w.2.storage.idMap requestId
        let v := price (w.2.storage.policies policyId) error respData
        v.toNat ≤ w.2.balance → v.toNat+refundable (clearFee w.2 policyId).storage ≤ w.2.balance
  | _, _ => True

theorem refundable_write {s s' : Storage} {policyId : UInt64} {p : Policy}
    (h : s'.policies = Function.update s.policies policyId p) :
    refundable s'+refund (s.policies policyId) = refundable s+refund p := by
  unfold refundable
  rw [h]
  by_cases h0 : policyId = 0
  · subst h0
    have htotal : total refund (Function.update s.policies 0 p) (2^64) =
        total refund s.policies (2^64) := by
      apply total_congr _ le_rfl
      intro id hlow _
      rw [Function.update_of_ne]
      rintro rfl
      exact absurd hlow (by decide)
    rw [htotal,Function.update_self]
    omega
  · have hlow : 1 ≤ policyId.toNat := by
      rw [Nat.one_le_iff_ne_zero]
      exact fun h => h0 (UInt64.toNat_inj.mp h)
    have hwrite := total_write refund s.policies le_rfl p hlow policyId.toNat_lt
    rw [Function.update_of_ne (Ne.symm h0)]
    omega

theorem settlement_price (a : World) (policyId error : UInt64) (delay : UInt256) :
    (settlement (clearFee a policyId).storage policyId error delay).2.1 =
      price (a.storage.policies policyId) error delay := by
  have hself : (clearFee a policyId).storage.policies policyId =
      {a.storage.policies policyId with fee := 0} := by
    simp [clearFee,Storage.setPolicy]
  unfold settlement price
  rw [hself]
  dsimp only
  by_cases h₀ : error = 0
  · by_cases hd : delay ≥ PAYOUT_DELAY <;> simp [h₀,hd]
  · by_cases h₁ : error = 1 <;> simp [h₀,h₁]

section Pieces
variable {a a' : World} {policyId : UInt64}

/-- A policy that is closed has nothing left to claim. -/
theorem refundable_clear (a : World) (policyId : UInt64) :
    refundable (clearFee a policyId).storage+refund (a.storage.policies policyId) =
      refundable a.storage := by
  have hwrite : refundable (clearFee a policyId).storage+refund (a.storage.policies policyId) =
      refundable a.storage+refund {a.storage.policies policyId with fee := 0} :=
    refundable_write rfl
  rw [hwrite]
  simp [refund]

theorem refund_open {p : Policy} (hfee : p.fee ≠ 0) (htc : p.tcId = 0) :
    refund p = p.premium.toNat+p.fee.toNat := if_pos ⟨hfee,htc⟩

/-- The payment for a recorded policy covers what it can claim back. -/
theorem refund_recorded {m : Msg} {flightInfo : List Bytes32} {payment : UInt256}
    (h : insure m flightInfo payment a = .done () a')
    (hwrap : (payment*ETHER_TO_WEI).toNat+TC_FEE.toNat < 2^256) :
    refundable a'.storage ≤ refundable a.storage+m.value.toNat := by
  have hpaid := BitVec.not_lt.mp (insure_paid h)
  obtain ⟨departure,-,-,rfl⟩ := insure_done h
  have hle : (payment*ETHER_TO_WEI).toNat+TC_FEE.toNat ≤ m.value.toNat := by
    rw [← Nat.mod_eq_of_lt hwrap,← BitVec.toNat_add]
    exact BitVec.le_def.mp hpaid
  have hfee : (m.value-payment*ETHER_TO_WEI).toNat =
      m.value.toNat-(payment*ETHER_TO_WEI).toNat :=
    BitVec.toNat_sub_of_le (BitVec.le_def.mpr (by omega))
  have hwrite : refundable (record m flightInfo (payment*ETHER_TO_WEI) (a.credit m.value)).storage+
      refund (a.storage.policies a.storage.policyCnt) = refundable a.storage+
        refund ⟨m.sender,0,flightInfo,m.value-payment*ETHER_TO_WEI,payment*ETHER_TO_WEI⟩ :=
    refundable_write rfl
  have hclaim : refund ⟨m.sender,0,flightInfo,m.value-payment*ETHER_TO_WEI,payment*ETHER_TO_WEI⟩ ≤
      m.value.toNat := by
    unfold refund
    split_ifs
    · change (payment*ETHER_TO_WEI).toNat+(m.value-payment*ETHER_TO_WEI).toNat ≤ _
      omega
    · exact Nat.zero_le _
  omega

end Pieces

structure Covered (A : Addresses) (w : Joint) : Prop where
  covered : refundable w.2.storage ≤ w.2.balance
  tcContract : w.2.storage.tcContract = A.townCrier

/-- While TownCrier is asked, the fee is gone and the policy still counts. -/
def waitingFee (A : Addresses) (_ : Joint) (policyId : UInt64) (h : Joint) : Prop :=
  refundable h.2.storage ≤ h.2.balance+(h.2.storage.policies policyId).fee.toNat ∧
    h.2.storage.tcContract = A.townCrier

def coverage (A : Addresses) : Promise Storage Event Purpose Kont Function where
  inv := Covered A
  rel _ _ := True
  ready _ _ := True
  pre _ _ := Covered A
  held := held A (Covered A) (fun _ _ => True) (waitingFee A)

section Coverage
variable {keccak : Bytes → Bytes32} {A : Addresses} {m : Msg} {w : Joint}

theorem coverage_handled : Handled (coverage A) keccak A Reserved (waitingFee A) where
  held := rfl
  trans := fun _ _ => trivial
  emit := fun _ _ _ h => ⟨⟨h.covered,h.tcContract⟩,trivial⟩
  requested := by
    rintro m f e m₀ policyId h m' r v w' hask ⟨hcovered,htc⟩ - - - -
    have hopen := refund_open hask.fee hask.tcId
    rcases afterTcRequest_cases m₀ policyId (r.getD 0) (h.2.credit v) with
      heq | ⟨-,b,hs,hbal,hsent,hfunds,heq⟩ | ⟨hpos,-,b,hs,hbal,hsent,heq⟩
    · rw [heq]
      trivial
    · rw [heq]
      have hwrite := refundable_write (congrArg Storage.policies hs)
      have hclosed : refund {answered (h.2.credit v) policyId (r.getD 0) with fee := 0} = 0 := by
        simp [refund]
      rw [Account.storage_credit] at hwrite hfunds
      rw [Account.balance_credit] at hbal hfunds
      have htc' : b.storage.tcContract = A.townCrier := by
        rw [hs]
        exact htc
      refine ⟨⟨⟨?_,htc'⟩,trivial⟩,⟨⟨?_,htc'⟩,trivial⟩,fun t ht p => ?_⟩
      · simp only [Account.storage_keep,Account.balance_keep,Account.storage_credit]
        omega
      · simp only [Account.storage_pay,Account.balance_pay,Account.storage_credit]
        omega
      · obtain rfl := Account.eq_of_last_pay ht
        nofun
    · rw [heq]
      have hwrite : refundable b.storage+refund (h.2.storage.policies policyId) =
          refundable h.2.storage+refund (answered (h.2.credit v) policyId (r.getD 0)) :=
        refundable_write (congrArg Storage.policies hs)
      have hclosed : refund (answered (h.2.credit v) policyId (r.getD 0)) = 0 := by
        have hne : r.getD 0 ≠ 0 := by omega
        simp [refund,answered,hne]
      rw [Account.balance_credit] at hbal
      refine ⟨⟨?_,?_⟩,trivial⟩
      · dsimp only
        omega
      · dsimp only
        rw [hs]
        exact htc

/-- A handover to an account that is not asked for anything. -/
theorem covered_call {f : Function} {e : Joint} {k : Kont} {b : World} {r : Address} {v : UInt256}
    {p : Purpose} (hk : ∀ m policyId, k ≠ .tcRequest m policyId)
    (hp : ∀ policyId, p ≠ .tcRequest policyId)
    (hle : refundable b.storage+v.toNat ≤ b.balance)
    (htc : b.storage.tcContract = A.townCrier) :
    (coverage A).Piece m f e w.1 (.call (b.keep r v p) (b.pay r v p) k) := by
  have hsaved : Covered A (w.1,b.keep r v p) := ⟨(Nat.le_add_right _ _).trans hle,htc⟩
  have hhandover : Covered A (w.1,b.pay r v p) := ⟨Nat.le_sub_of_add_le hle,htc⟩
  have hlast : ∀ t, (b.pay r v p).sent.getLast? = some t → ∀ policyId,
      t.purpose ≠ .tcRequest policyId := by
    intro t ht policyId
    obtain rfl := Account.eq_of_last_pay ht
    exact hp policyId
  cases k with
  | tcRequest m policyId => exact absurd rfl (hk m policyId)
  | insureRefund | requestRefund | settle | cancelRefund =>
      exact ⟨⟨hsaved,trivial⟩,⟨hhandover,trivial⟩,hlast⟩

/-- `insure` and `cancel` move no more than what the invariant has set aside. -/
theorem covered_insure {flightInfo : List Bytes32} {payment : UInt256} {f : Function} {o : Result}
    (hw : Covered A w) (hok : Reserved (.inr (.message m (.insure flightInfo payment))) w)
    (ho : insure m flightInfo payment w.2 = o) : (coverage A).Piece m f w w.1 o := by
  have hcases := insure_cases m flightInfo payment w.2
  rw [ho] at hcases
  rcases hcases with heq | heq | heq
  · rw [heq]
    trivial
  · have hrecorded := ho.trans heq
    have hle := refund_recorded hrecorded (hok ⟨_,hrecorded⟩)
    rw [heq]
    refine ⟨⟨hle.trans ?_,hw.tcContract⟩,trivial⟩
    exact Nat.add_le_add_right hw.covered _
  · rw [heq]
    exact covered_call nofun nofun (Nat.add_le_add_right hw.covered _) hw.tcContract

theorem covered_request {policyId : UInt64} {f : Function} {o : Result} (hw : Covered A w)
    (ho : request m policyId w.2 = o) : (coverage A).Piece m f w w.1 o := by
  have hcases := request_cases m policyId w.2
  rw [ho] at hcases
  rcases hcases with heq | ⟨e,heq⟩ | ⟨hid,htc,hfee,hfunds,heq⟩
  · rw [heq]
    trivial
  · rw [heq]
    exact ⟨⟨hw.covered,hw.tcContract⟩,trivial⟩
  · rw [heq]
    refine ⟨⟨hid,htc,hfee,?_⟩,hw.covered.trans ?_,hw.tcContract⟩
    · rw [Account.getLast?_sent_pay,hw.tcContract]
      rfl
    · exact (Nat.sub_add_cancel hfunds).ge

theorem covered_cancel {policyId : UInt64} {f : Function} {o : Result} (hw : Covered A w)
    (ho : cancel m policyId w.2 = o) : (coverage A).Piece m f w w.1 o := by
  have hcases := cancel_cases m policyId w.2
  rw [ho] at hcases
  rcases hcases with ⟨heq,-⟩ | ⟨e,heq⟩ | ⟨hid,htc,hfee,hfunds,heq⟩
  · rw [heq]
    trivial
  · rw [heq]
    exact ⟨⟨hw.covered,hw.tcContract⟩,trivial⟩
  · rw [heq]
    refine covered_call nofun nofun ?_ hw.tcContract
    have hclear := refundable_clear w.2 policyId
    have hopen := refund_open hfee htc
    have hcovered := hw.covered
    change _ ≤ w.2.balance
    omega

/-- An answer that finds its reserve, or cannot be paid. -/
theorem covered_response {requestId error : UInt64} {respData : Bytes32} {f : Function} {o : Result}
    (hw : Covered A w) (hok : Reserved (.inr (.message m (.response requestId error respData))) w)
    (ho : response m requestId error respData w.2 = o) : (coverage A).Piece m f w w.1 o := by
  have hcases := response_cases m requestId error respData w.2
  rw [ho] at hcases
  rcases hcases with ⟨-,e,heq⟩ | ⟨hsender,r,v,p,hs,⟨hfunds,heq⟩ | ⟨-,e,heq⟩⟩
  · rw [heq]
    exact ⟨⟨hw.covered,hw.tcContract⟩,trivial⟩
  · have hv := settlement_price w.2 (w.2.storage.idMap requestId) error respData
    rw [hs] at hv
    have hreserve := hok hsender
    simp only [← hv] at hreserve
    rw [heq]
    refine covered_call nofun ?_ ?_ hw.tcContract
    · intro policyId hp
      have hpurpose : (settlement (clearFee w.2 (w.2.storage.idMap requestId)).storage
          (w.2.storage.idMap requestId) error respData).2.2 = p := by rw [hs]
      rw [hp] at hpurpose
      unfold settlement at hpurpose
      dsimp only at hpurpose
      split_ifs at hpurpose
    · rw [Nat.add_comm]
      exact hreserve hfunds
  · rw [heq]
    have hclear := refundable_clear w.2 (w.2.storage.idMap requestId)
    have hle : refundable (clearFee w.2 (w.2.storage.idMap requestId)).storage ≤ w.2.balance := by
      have hcovered := hw.covered
      omega
    exact ⟨⟨hle,hw.tcContract⟩,trivial⟩

theorem coverage_sound : (coverage A).Sound keccak A (client keccak A.client) Reserved where
  fallback := fun _ _ => rfl
  refl := fun _ => trivial
  trans := fun _ _ => trivial
  credit := fun _ _ _ h => ⟨⟨h.covered.trans (Nat.le_add_right _ _),h.tcContract⟩,trivial⟩
  same := fun _ _ _ _ _ _ h => ⟨⟨h.covered,h.tcContract⟩,trivial⟩
  advance := fun _ _ _ _ _ _ _ h => ⟨⟨h.covered,h.tcContract⟩,trivial⟩
  answered := fun _ _ _ _ _ _ _ _ _ _ _ => trivial
  refunded := fun _ _ _ _ _ _ _ _ _ _ _ _ _ _ _ => trivial
  foreign := fun _ _ _ _ _ _ _ _ _ => trivial
  ready_same := fun _ _ _ _ _ _ _ => trivial
  entry := fun _ _ _ _ _ h _ => h
  callback := fun _ _ _ _ _ _ _ _ _ h _ => h
  start := by
    intro m f w hf hw hok
    cases f with
    | fallback => exact absurd rfl hf
    | insure flightInfo payment =>
        rw [client_start,FlightInsurance.start]
        generalize ho : insure m flightInfo payment w.2 = o
        exact covered_insure hw hok ho
    | request policyId => exact Promise.piece_nonPayable (covered_request hw rfl)
    | response requestId error respData => exact Promise.piece_nonPayable (covered_response hw hok rfl)
    | cancel policyId => exact Promise.piece_nonPayable (covered_cancel hw rfl)
  failed := failed_piece coverage_handled
  asked := asked_piece coverage_handled
  other := other_piece coverage_handled

theorem refundable_initial (A : Addresses) (owner : Address) (balance : ℕ) (insurer : Address)
    (capital : ℕ) : refundable (initial A owner balance insurer capital).2.storage = 0 := by
  have hzero : refund ⟨0,0,[],0,0⟩ = 0 := by simp [refund]
  have htotal : total refund (fun _ : UInt64 => (⟨0,0,[],0,0⟩ : Policy)) (2^64) = 0 :=
    (total_eq_zero refund le_rfl).mpr fun _ _ _ => hzero
  change refund ⟨0,0,[],0,0⟩+total refund (fun _ : UInt64 => (⟨0,0,[],0,0⟩ : Policy)) (2^64) = 0
  rw [hzero,htotal]

theorem covered_initial (A : Addresses) (owner : Address) (balance : ℕ) (insurer : Address)
    (capital : ℕ) : Covered A (initial A owner balance insurer capital) := by
  refine ⟨?_,rfl⟩
  rw [refundable_initial]
  exact Nat.zero_le _

/-- In a run whose purchases do not wrap around and whose answers all find their
reserve, the refunds of all open policies stay covered, and `cancel` does not
lack the funds. -/
theorem refunds_covered (keccak : Bytes → Bytes32) (A : Addresses) (owner : Address)
    (balance : ℕ) (insurer : Address) (capital : ℕ) :
    (∀ w, (system keccak A (client keccak A.client)).Seen Reserved
        (initial A owner balance insurer capital) (.other w) →
      refundable w.2.storage ≤ w.2.balance) ∧
    ∀ m policyId w, (system keccak A (client keccak A.client)).Seen Reserved
        (initial A owner balance insurer capital) (.call (.inr (.message m (.cancel policyId))) w) →
      refundable w.2.storage ≤ w.2.balance ∧
        (cancel m policyId w.2 = .revert → (w.2.storage.policies policyId).data[1]? = none) := by
  have hsound : ((coverage A).spec keccak A (client keccak A.client)).Sound _ Reserved :=
    Promise.sound coverage_sound
  have h₀ := covered_initial A owner balance insurer capital
  refine ⟨fun w h => (hsound.seen h₀ h).covered,fun m policyId w h => ?_⟩
  have hw : Covered A w := hsound.seen h₀ h (by nofun)
  refine ⟨hw.covered,fun hrevert => ?_⟩
  have hclear := refundable_clear w.2 policyId
  have hcovered := hw.covered
  rcases cancel_cases m policyId w.2 with ⟨-,hnone | ⟨hfee,htc,hfunds⟩⟩ | ⟨e,heq⟩ | ⟨-,-,-,-,heq⟩
  · exact hnone
  · have hopen := refund_open hfee htc
    omega
  · rw [hrevert] at heq
    cases heq
  · rw [hrevert] at heq
    cases heq

end Coverage

section Payout
variable (capital : ℕ)

/-- After the purchase of a policy for one ether. -/
def firstSale : World :=
  record purchase [0,1500090000] (1*ETHER_TO_WEI) ((constructor 1 2 capital).credit purchase.value)

/-- A policy for four ether, for a flight in 2020. -/
def secondPurchase : Msg := ⟨8,4000000000000000000+TC_FEE,1,0,1500000000⟩

def sold : World :=
  record secondPurchase [0,1600000000] (4*ETHER_TO_WEI) ((firstSale capital).credit secondPurchase.value)

def holder : Msg := ⟨7,0,1,0,1500000000⟩

def asking : World := (sold capital).pay 2 TC_FEE (.tcRequest 1)

def asked : Msg := ⟨9,TC_FEE,1,0,1500000000⟩

def askedCall : Contract.Call :=
  .message asked (.request 1 9 (TC_CALLBACK_FID constantHash) 0 [0,1500090000])

def accepted : Contract.World :=
  (Contract.record constantHash asked 1 9 (TC_CALLBACK_FID constantHash) 0 [0,1500090000]
    ((Contract.constructor 5 0).credit TC_FEE)).2

/-- The first policy waits for its answer. -/
def requested : World :=
  ((asking capital).set {(asking capital).storage.setPolicy 1 (answered (asking capital) 1 1) with
    idMap := Function.update (asking capital).storage.idMap 1 1}).emit (.request 1 7 1)

theorem request_sold : request holder 1 (sold capital) =
    .call ((sold capital).keep 2 TC_FEE (.tcRequest 1)) (asking capital) (.tcRequest holder 1) := by
  have hfee : TC_FEE ≠ 0 := by decide
  have hpaid : TC_FEE.toNat ≤ secondPurchase.value.toNat := by decide
  exact request_eq (by decide) rfl rfl hfee (hpaid.trans (Nat.le_add_left _ _))

theorem start_asked : Contract.start constantHash askedCall (Contract.constructor 5 0) =
    .done (some 1) accepted := by
  change Contract.request constantHash asked 1 9 (TC_CALLBACK_FID constantHash) 0 [0,1500090000]
    (Contract.constructor 5 0) = _
  unfold Contract.request
  dsimp only
  rw [if_neg (by decide),if_neg (by decide),if_neg (by decide)]
  rfl

theorem afterTcRequest_asking :
    afterTcRequest holder 1 (some 1) (asking capital) = .done () (requested capital) := by
  unfold afterTcRequest
  dsimp only
  rw [if_neg (by decide),if_neg (by decide)]
  rfl

theorem exec_request {ok : JointCall → Joint → Prop}
    (hok : ok (.inl askedCall) (Contract.constructor 5 0,asking capital)) :
    (pair client).Exec ok (.code (Contract.constructor 5 0,sold capital)
      ((pair client).start (.inr (.message holder (.request 1))) (Contract.constructor 5 0,sold capital)))
      (some none) (accepted,requested capital) := by
  have hstart : (pair client).start (.inr (.message holder (.request 1)))
      (Contract.constructor 5 0,sold capital) =
      .call (Contract.constructor 5 0,(sold capital).keep 2 TC_FEE (.tcRequest 1))
        (Contract.constructor 5 0,asking capital) (.inr (.tcRequest holder 1)) := by
    rw [pair_start,FlightInsurance.start,request_sold]
    rfl
  have hcallee : (pair client).callee (.inr (.tcRequest holder 1)) (Contract.constructor 5 0,asking capital)
      (.inl askedCall) := ⟨_,rfl,⟨rfl,rfl,rfl⟩,rfl⟩
  have hasked : (pair client).start (.inl askedCall) (Contract.constructor 5 0,asking capital) =
      .done (some 1) (accepted,asking capital) := congrArg (ofTownCrier _) start_asked
  have hresume : (pair client).resume (.inr (.tcRequest holder 1)) (some (some 1))
      (accepted,asking capital) = .done none (accepted,requested capital) :=
    congrArg (ofClient _) (afterTcRequest_asking capital)
  have hcall : (pair client).Exec ok (.code (Contract.constructor 5 0,asking capital)
      ((pair client).start (.inl askedCall) (Contract.constructor 5 0,asking capital))) (some (some 1))
        (accepted,asking capital) := by
    rw [hasked]
    exact .done
  have hrest : (pair client).Exec ok (.code (Contract.constructor 5 0,sold capital)
      ((pair client).resume (.inr (.tcRequest holder 1)) (some (some 1)) (accepted,asking capital)))
        (some none) (accepted,requested capital) := by
    rw [hresume]
    exact .done
  rw [hstart]
  exact .resumed (.inner hcallee hok hcall) hrest

def enclave : Msg := ⟨Contract.SGX_ADDRESS,0,1,0,1500100000⟩

def delivery : Contract.Delivery := ⟨Contract.SGX_ADDRESS,1,3,0,30⟩

def deliverCall : Contract.Call := .message enclave (.deliver 1 3 0 30)

def calling : Contract.World :=
  (Contract.setFlag (((Contract.markDelivered accepted 1).pay Contract.SGX_ADDRESS TC_FEE
    (.deliveryFee delivery)).emit (.deliverInfo 1 TC_FEE 1 0 ((TC_FEE-accepted.storage.minFee)/1)
      3 0 30)) true)

theorem start_deliver : Contract.start constantHash deliverCall accepted = .call
    (calling.keep 9 0 (.callback (TC_CALLBACK_FID constantHash) delivery))
    (calling.pay 9 0 (.callback (TC_CALLBACK_FID constantHash) delivery)) .deliverCallback := by
  unfold deliverCall Contract.start nonPayable Contract.deliver Account.transfer Contract.callback
    Account.callOut
  dsimp only
  rw [if_pos (by decide),if_neg (by decide),if_neg (by decide),if_neg (by decide),
    if_pos (by decide),if_pos (by decide)]
  dsimp only
  rw [if_neg (by decide),if_pos (by decide)]
  rfl

def called : Contract.World := calling.pay 9 0 (.callback (TC_CALLBACK_FID constantHash) delivery)

def answer : Msg := ⟨2,0,1,0,1500100000⟩

/-- Five ether go to the holder of the first policy. -/
def paidOut : World := (clearFee (requested capital) 1).pay 7 (5*10^18) (.payout 1)

theorem response_requested : response answer 1 0 30 (requested capital) = .call
    ((clearFee (requested capital) 1).keep 7 (5*10^18) (.payout 1)) (paidOut capital)
      (.settle answer 1 1 0 30) := by
  have hpremium : (1*ETHER_TO_WEI)*PAYOUT_RATE = 5*10^18 := by decide
  have hs : settlement (clearFee (requested capital) ((requested capital).storage.idMap 1)).storage
      ((requested capital).storage.idMap 1) 0 30 = (7,5*10^18,.payout 1) := by
    unfold settlement
    dsimp only
    rw [if_pos rfl,if_pos (by decide),← hpremium]
    rfl
  have hfunds : (5*10^18 : UInt256).toNat ≤
      purchase.value.toNat+secondPurchase.value.toNat-TC_FEE.toNat := by decide
  have hbalance : (requested capital).balance =
      capital+purchase.value.toNat+secondPurchase.value.toNat-TC_FEE.toNat := rfl
  unfold response
  rw [if_neg fun h => h rfl]
  dsimp only
  rw [hs]
  refine if_pos (hfunds.trans (le_of_le_of_eq ?_ hbalance.symm))
  omega

def answeredWorld : Joint :=
  (Contract.setFlag called false,(paidOut capital).emit (.response 1 2 1 0 30))

/-- The calls of the run from the first purchase to the payout. -/
def calls : List (JointCall × Joint) :=
  [(.inr (.message purchase (.insure [0,1500090000] 1)),initial places 5 0 1 capital),
    (.inr (.message secondPurchase (.insure [0,1600000000] 4)),
      (Contract.constructor 5 0,firstSale capital)),
    (.inr (.message holder (.request 1)),(Contract.constructor 5 0,sold capital)),
    (.inl askedCall,(Contract.constructor 5 0,asking capital)),
    (.inl deliverCall,(accepted,requested capital)),
    (.inr (.message answer (.response 1 0 30)),(called,requested capital))]

theorem exec_deliver {ok : JointCall → Joint → Prop}
    (hok : ok (.inr (.message answer (.response 1 0 30))) (called,requested capital)) :
    (pair client).Exec ok (.code (accepted,requested capital)
      ((pair client).start (.inl deliverCall) (accepted,requested capital))) (some none)
        (answeredWorld capital) := by
  have hstart : (pair client).start (.inl deliverCall) (accepted,requested capital) =
      .call (calling.keep 9 0 (.callback (TC_CALLBACK_FID constantHash) delivery),requested capital)
        (called,requested capital) (.inl .deliverCallback) :=
    congrArg (ofTownCrier _) start_deliver
  have hcallee : (pair client).callee (.inl .deliverCallback) (called,requested capital)
      (.inr (.message answer (.response 1 0 30))) := by
    refine ⟨_,rfl,⟨rfl,rfl,rfl⟩,?_⟩
    exact dispatch_response constantHash places.client delivery
  have hresponse : (pair client).start (.inr (.message answer (.response 1 0 30)))
      (called,requested capital) =
      .call (called,(clearFee (requested capital) 1).keep 7 (5*10^18) (.payout 1))
        (called,paidOut capital) (.inr (.settle answer 1 1 0 30)) := by
    rw [pair_start,FlightInsurance.start,response_requested]
    rfl
  have hout : (pair client).outside (.inr (.settle answer 1 1 0 30)) (called,paidOut capital) :=
    ⟨_,rfl,by decide,by decide⟩
  have hpay : (pair client).Exec ok (.handover
      (called,(clearFee (requested capital) 1).keep 7 (5*10^18) (.payout 1)) (called,paidOut capital)
        (.inr (.settle answer 1 1 0 30))) (some none) (called,paidOut capital) := .outer hout .idle
  have hanswer : (pair client).Exec ok (.code (called,requested capital)
      ((pair client).start (.inr (.message answer (.response 1 0 30))) (called,requested capital)))
        (some none) (called,(paidOut capital).emit (.response 1 2 1 0 30)) := by
    rw [hresponse]
    exact .resumed hpay .done
  rw [hstart]
  exact .resumed (.inner hcallee hok hanswer) .done

theorem answered_run {ok : JointCall → Joint → Prop} (hok : ∀ c ∈ calls capital, ok c.1 c.2) :
    (pair client).Run ok (initial places 5 0 1 capital) (answeredWorld capital) := by
  have hforeign : ∀ (m : Msg) {c : JointCall}, sender? c = some m.sender →
      m.sender ≠ 2 ∧ m.sender ≠ 9 → (pair client).transaction c := by
    intro m c hc hm sender hsender
    rw [hc] at hsender
    cases hsender
    exact hm
  have hfirst : (pair client).Exec ok (.code (initial places 5 0 1 capital)
      ((pair client).start (.inr (.message purchase (.insure [0,1500090000] 1)))
        (initial places 5 0 1 capital))) (some none) (Contract.constructor 5 0,firstSale capital) :=
    exec_insure _ _ (by decide) rfl (by decide)
  have hsecond : (pair client).Exec ok (.code (Contract.constructor 5 0,firstSale capital)
      ((pair client).start (.inr (.message secondPurchase (.insure [0,1600000000] 4)))
        (Contract.constructor 5 0,firstSale capital))) (some none)
          (Contract.constructor 5 0,sold capital) :=
    exec_insure _ _ (by decide) rfl (by decide)
  simp only [calls,List.forall_mem_cons] at hok
  obtain ⟨hok₁,hok₂,hok₃,hok₄,hok₅,hok₆,-⟩ := hok
  have h₁ := System.Run.start.step (hforeign purchase rfl (by decide)) hok₁ hfirst
  have h₂ := h₁.step (hforeign secondPurchase rfl (by decide)) hok₂ hsecond
  have h₃ := h₂.step (hforeign holder rfl (by decide)) hok₃ (exec_request capital hok₄)
  exact h₃.step (hforeign enclave rfl (by decide)) hok₅ (exec_deliver capital hok₆)

end Payout

/-- Once the first policy is answered, the second one is the only one that is left. -/
theorem refundable_second : refundable (clearFee (requested (4*10^18)) 1).storage =
    refund ((sold (4*10^18)).storage.policies 2) := by
  have hinitial : refundable (initial places 5 0 1 (4*10^18)).2.storage = 0 :=
    refundable_initial places 5 0 1 (4*10^18)
  have hfirst : refundable (firstSale (4*10^18)).storage+
      refund ((initial places 5 0 1 (4*10^18)).2.storage.policies 1) =
        refundable (initial places 5 0 1 (4*10^18)).2.storage+
          refund ((firstSale (4*10^18)).storage.policies 1) := refundable_write rfl
  have hsecond : refundable (sold (4*10^18)).storage+
      refund ((firstSale (4*10^18)).storage.policies 2) =
        refundable (firstSale (4*10^18)).storage+
          refund ((sold (4*10^18)).storage.policies 2) := refundable_write rfl
  have hrequested : refundable (requested (4*10^18)).storage+
      refund ((sold (4*10^18)).storage.policies 1) =
        refundable (sold (4*10^18)).storage+
          refund ((requested (4*10^18)).storage.policies 1) := refundable_write rfl
  have hclear := refundable_clear (requested (4*10^18)) 1
  have hempty : refund ((initial places 5 0 1 (4*10^18)).2.storage.policies 1) = 0 ∧
      refund ((firstSale (4*10^18)).storage.policies 2) = 0 ∧
      refund ((requested (4*10^18)).storage.policies 1) = 0 := by decide
  have hsame : refund ((sold (4*10^18)).storage.policies 1) =
      refund ((firstSale (4*10^18)).storage.policies 1) := rfl
  omega

/-- With a capital of four ether the first policy is paid out, the second one stays covered, and
its holder can cancel it. -/
theorem refunds_covered_payout :
    (pair client).Run Reserved (initial places 5 0 1 (4*10^18)) (answeredWorld (4*10^18)) ∧
    refundable (answeredWorld (4*10^18)).2.storage ≤ (answeredWorld (4*10^18)).2.balance ∧
    cancel ⟨8,0,1,0,1500100000⟩ 2 (answeredWorld (4*10^18)).2 ≠ .revert := by
  have hid : (requested (4*10^18)).storage.idMap 1 = 1 := by decide
  have hprice : price ((requested (4*10^18)).storage.policies 1) 0 30 = 5*10^18 := by decide
  have hbalance : (5*10^18 : UInt256).toNat+refund ((sold (4*10^18)).storage.policies 2) ≤
      (requested (4*10^18)).balance := by decide
  have hreserve : Reserved (.inr (.message answer (.response 1 0 30)))
      (called,requested (4*10^18)) := by
    intro _ policyId v _
    have hpolicy : policyId = 1 := hid
    have hv : v = 5*10^18 := by
      change price ((requested (4*10^18)).storage.policies policyId) 0 30 = _
      rw [hpolicy]
      exact hprice
    change v.toNat+refundable (clearFee (requested (4*10^18)) policyId).storage ≤ _
    rw [hv,hpolicy,refundable_second]
    exact hbalance
  have hrun : (pair client).Run Reserved (initial places 5 0 1 (4*10^18)) (answeredWorld (4*10^18)) := by
    refine answered_run (4*10^18) ?_
    simp only [calls,List.forall_mem_cons]
    exact ⟨fun _ => by decide,fun _ => by decide,trivial,trivial,trivial,hreserve,
      List.forall_mem_nil _⟩
  have hcancel : (pair client).transaction (.inr (.message ⟨8,0,1,0,1500100000⟩ (.cancel 2))) := by
    rintro sender ⟨⟩
    decide
  have hdata : ((answeredWorld (4*10^18)).2.storage.policies 2).data[1]? ≠ none := by decide
  obtain ⟨hcovered,hfunds⟩ := refunds_covered constantHash places 5 0 1 (4*10^18)
  refine ⟨hrun,hcovered _ (.between hrun),fun hrevert => hdata ?_⟩
  exact (hfunds _ _ _ (.calling hrun hcancel trivial)).2 hrevert

/-- The payout for a delay takes the money of the second policy, and its holder
cannot cancel any more. -/
theorem payout_uncovers : ∃ w, (pair client).Seen (fun _ _ => True) (initial places 5 0 1 0) (.other w) ∧
    w.2.balance < refundable w.2.storage ∧
    cancel ⟨8,0,1,0,1500100000⟩ 2 w.2 = .revert ∧ (w.2.storage.policies 2).data[1]? ≠ none := by
  refine ⟨_,.between (answered_run 0 fun _ _ => trivial),?_,?_,by decide⟩
  · have hclear := refundable_clear (answeredWorld 0).2 2
    have hopen : refund ((answeredWorld 0).2.storage.policies 2) =
        4000000000000000000+TC_FEE.toNat := by decide
    have hbalance : (answeredWorld 0).2.balance = TC_FEE.toNat := by decide
    omega
  · have hdata : ((answeredWorld 0).2.storage.policies 2).data[1]? = some 1600000000 := rfl
    unfold cancel Account.callOut
    simp only [hdata]
    rw [if_neg (by decide),if_neg (by decide)]
    rfl

end TownCrier.Insurance
