import TownCrier.CallTree
import TownCrier.Insurance

/-!
# What a policy costs and what it gives back

`insure` splits the payment into premium and fee, with arithmetic that wraps
around, and three functions return both when a policy ends without an outcome.
They clear the fee first and compute the amount from what is left.
-/
namespace TownCrier.Insurance
open BigEndian CallMachine Evm FlightInsurance

/-- The recorded amounts are those of the payment, without any reduction. -/
structure Split (m : Msg) (payment : UInt256) (p : Policy) : Prop where
  sum : p.premium.toNat+p.fee.toNat = m.value.toNat
  fee : TC_FEE ≤ p.fee
  premium : p.premium.toNat = payment.toNat*10^18
  payout : (p.premium*PAYOUT_RATE).toNat ≤ 5*m.value.toNat

/-- `insure` records only what passed its comparison. -/
theorem insure_paid {m : Msg} {flightInfo : List Bytes32} {payment : UInt256} {w w' : World}
    (h : insure m flightInfo payment w = .done () w') :
    ¬m.value < payment*ETHER_TO_WEI+TC_FEE := by
  intro hlt
  unfold insure Account.callOut at h
  simp only [if_pos hlt] at h
  split_ifs at h
  cases h

theorem recorded_amounts (m : Msg) (flightInfo : List Bytes32) (payment : UInt256) (w : World) :
    (recorded w (record m flightInfo payment (w.credit m.value))).premium = payment ∧
      (recorded w (record m flightInfo payment (w.credit m.value))).fee = m.value-payment := by
  simp [recorded,record,Storage.setPolicy]

/-- The payment is split exactly just when neither product nor sum wraps around. -/
theorem split_exact_iff {m : Msg} {flightInfo : List Bytes32} {payment : UInt256} {w w' : World}
    (h : insure m flightInfo payment w = .done () w') :
    Split m payment (recorded w w') ↔ payment.toNat*10^18+TC_FEE.toNat < 2^256 := by
  have hpaid := BitVec.not_lt.mp (insure_paid h)
  obtain ⟨-,-,-,rfl⟩ := insure_done h
  obtain ⟨hpremium,hfee⟩ := recorded_amounts m flightInfo (payment*ETHER_TO_WEI) w
  have hether : ETHER_TO_WEI.toNat = 10^18 := rfl
  have htc : TC_FEE.toNat = 2500000000000000 := by decide
  have hmul : (payment*ETHER_TO_WEI).toNat = payment.toNat*10^18%2^256 := by
    rw [BitVec.toNat_mul,hether]
  have hvalue := m.value.isLt
  constructor
  · rintro ⟨hsum,hmin,hexact,-⟩
    have hmin : TC_FEE.toNat ≤ _ := hmin
    omega
  · intro hlt
    have hexact : (payment*ETHER_TO_WEI).toNat = payment.toNat*10^18 := by
      rw [hmul,Nat.mod_eq_of_lt ((Nat.le_add_right _ _).trans_lt hlt)]
    have hle : payment.toNat*10^18+TC_FEE.toNat ≤ m.value.toNat := by
      have hadd : (payment*ETHER_TO_WEI+TC_FEE).toNat = payment.toNat*10^18+TC_FEE.toNat := by
        rw [BitVec.toNat_add,hexact,Nat.mod_eq_of_lt hlt]
      rw [← hadd]
      exact BitVec.le_def.mp hpaid
    have hfits : payment*ETHER_TO_WEI ≤ m.value := by
      rw [BitVec.le_def,hexact]
      exact (Nat.le_add_right _ _).trans hle
    have hsub : (m.value-payment*ETHER_TO_WEI).toNat = m.value.toNat-payment.toNat*10^18 := by
      rw [BitVec.toNat_sub_of_le hfits,hexact]
    refine ⟨?_,?_,?_,?_⟩
    · rw [hpremium,hfee,hexact,hsub]
      omega
    · rw [hfee,BitVec.le_def,hsub]
      omega
    · rw [hpremium,hexact]
    · rw [hpremium,BitVec.toNat_mul,hexact]
      refine (Nat.mod_le _ _).trans ?_
      change payment.toNat*10^18*5 ≤ _
      omega

theorem split_exact_purchase : ∃ w', insure purchase [0,1500090000] 1 (constructor 1 2 0) =
    .done () w' ∧ (Split purchase 1 (recorded (constructor 1 2 0) w') ↔
      (1 : UInt256).toNat*10^18+TC_FEE.toNat < 2^256) :=
  ⟨_,insure_purchase (by decide),split_exact_iff (insure_purchase (by decide))⟩

/-- Not quite half a gwei buys a policy with a premium close to `2^256` wei. -/
def bargain : Msg where
  sender := 7
  value := 16384
  gasPrice := 0
  gasLeft := 0
  timestamp := 1500000000

def wrappingPayment : UInt256 :=
  235663294697441540198723772173582019921905058298970426676664501614615204

theorem bargain_unsplit : ∃ w', insure bargain [0,1500090000] wrappingPayment (constructor 1 2 0) =
    .done () w' ∧ bargain.value.toNat < (recorded (constructor 1 2 0) w').premium.toNat ∧
    ¬Split bargain wrappingPayment (recorded (constructor 1 2 0) w') := by
  have hpaid : ¬bargain.value < wrappingPayment*ETHER_TO_WEI+TC_FEE := by decide
  have hlate : ¬tooLate bargain 1500090000 := by decide
  have h := insure_eq (constructor 1 2 0) hpaid (show [0,1500090000][1]? = some _ from rfl) hlate
  refine ⟨_,h,by decide,fun hsplit => ?_⟩
  exact absurd ((split_exact_iff h).mp hsplit) (by decide)

/-- A run of the contract with any other code, TownCrier included. -/
abbrev FreeRun (owner tcCont : Address) (capital : ℕ) : Config World Kont → Prop :=
  Reach code (fun _ _ _ => True) (constructor owner tcCont capital)

/-- The three places that refund a policy which ends without a flight outcome. -/
def refunded? : Purpose → Option UInt64
  | .requestRefund policyId | .fullRefund policyId | .cancelRefund policyId => some policyId
  | _ => none

/-- The policy was bought in the run for `paid`, and its amounts are as recorded. -/
def Bought (run : Config World Kont → Prop) (w : World) (policyId : UInt64) (paid : UInt256) :
    Prop :=
  ∃ s m flightInfo payment w', run s ∧ insure m flightInfo payment s.world = .done () w' ∧
    s.world.storage.policyCnt = policyId ∧ m.value = paid ∧
    (w.storage.policies policyId).requester = m.sender ∧
    (w.storage.policies policyId).premium = (recorded s.world w').premium ∧
    (w.storage.policies policyId).fee = (recorded s.world w').fee

def Provenance (run : Config World Kont → Prop) (w : World) : Prop :=
  ∀ policyId, (w.storage.policies policyId).fee ≠ 0 → ∃ paid, Bought run w policyId paid

/-- Policies that still have a fee have the amounts they had before. -/
def Settling (w w' : World) : Prop :=
  ∀ policyId, (w'.storage.policies policyId).fee ≠ 0 →
    (w'.storage.policies policyId).requester = (w.storage.policies policyId).requester ∧
    (w'.storage.policies policyId).premium = (w.storage.policies policyId).premium ∧
    (w'.storage.policies policyId).fee = (w.storage.policies policyId).fee

variable {run : Config World Kont → Prop} {w w' : World}

theorem Settling.provenance (h : Settling w w') (hw : Provenance run w) : Provenance run w' := by
  intro policyId hne
  obtain ⟨hrequester,hpremium,hfee⟩ := h policyId hne
  obtain ⟨paid,s,m,flightInfo,payment,x,hs,hx,hid,hpaid,h₁,h₂,h₃⟩ := hw policyId (hfee ▸ hne)
  exact ⟨paid,s,m,flightInfo,payment,x,hs,hx,hid,hpaid,hrequester.trans h₁,hpremium.trans h₂,
    hfee.trans h₃⟩

theorem settling_same (h : w'.storage.policies = w.storage.policies) : Settling w w' := by
  intro policyId _
  rw [h]
  exact ⟨rfl,rfl,rfl⟩

theorem settling_clearFee {policyId : UInt64}
    (h : w'.storage.policies = (clearFee w policyId).storage.policies) : Settling w w' := by
  intro id hne
  rw [h] at hne ⊢
  by_cases hid : id = policyId
  · subst hid
    simp [clearFee,Storage.setPolicy] at hne
  · simp only [clearFee,Account.storage_set,Storage.setPolicy,Function.update_of_ne hid,
      and_self]

theorem settling_response {m : Msg} {requestId error : UInt64} {respData : Bytes32} :
    (response m requestId error respData w).All (Settling w) fun _ => True := by
  unfold response
  dsimp only
  split_ifs
  · exact settling_same rfl
  · refine Account.all_callOut _ ?_ ?_ trivial ?_
    all_goals exact settling_clearFee rfl

theorem settling_cancel {m : Msg} {policyId : UInt64} :
    (cancel m policyId w).All (Settling w) fun _ => True := by
  unfold cancel
  dsimp only
  cases (w.storage.policies policyId).data[1]? with
  | none => trivial
  | some departure =>
      dsimp only
      split_ifs
      · exact settling_same rfl
      · refine Account.all_callOut _ ?_ ?_ trivial trivial
        all_goals exact settling_clearFee rfl

theorem settling_request {m : Msg} {policyId : UInt64} :
    (request m policyId w).All (Settling w) fun _ => True := by
  unfold request
  dsimp only
  split_ifs
  · exact settling_same rfl
  · exact Account.all_callOut _ (settling_same rfl) (settling_same rfl) trivial trivial

theorem settling_afterTcRequest {m : Msg} {policyId : UInt64} {answer : Option ℤ} :
    (afterTcRequest m policyId answer w).All (Settling w) fun _ => True := by
  cases answer with
  | none => trivial
  | some tcId =>
      have hid : Settling w (w.set (w.storage.setPolicy policyId
          {w.storage.policies policyId with tcId := tcId})) := by
        intro id hne
        by_cases h : id = policyId
        · subst h
          simp [Storage.setPolicy]
        · simp [Storage.setPolicy,Function.update_of_ne h]
      have htrans : ∀ {x}, Settling (w.set (w.storage.setPolicy policyId
          {w.storage.policies policyId with tcId := tcId})) x → Settling w x := by
        intro x hx id hne
        obtain ⟨h₁,h₂,h₃⟩ := hx id hne
        obtain ⟨h₁',h₂',h₃'⟩ := hid id (h₃ ▸ hne)
        exact ⟨h₁.trans h₁',h₂.trans h₂',h₃.trans h₃'⟩
      unfold afterTcRequest
      dsimp only
      split_ifs
      · refine Account.all_callOut _ (htrans ?_) (htrans ?_) trivial trivial
        all_goals exact settling_clearFee rfl
      · trivial
      · exact htrans (settling_same rfl)

theorem settling_resume (k : Kont) (answer : Option ℤ) :
    (resume k answer w).All (Settling w) fun _ => True := by
  cases k with
  | tcRequest m policyId => exact settling_afterTcRequest
  | settle => exact settling_same rfl
  | insureRefund m flightInfo payment =>
      cases answer with
      | none => trivial
      | some _ =>
          change (afterInsureRefund _ _ _ (some _) _).All _ _
          unfold afterInsureRefund
          dsimp only [Option.isNone_some]
          rw [if_neg (by decide)]
          cases flightInfo[1]? with
          | none => trivial
          | some departure => exact settling_same rfl
  | requestRefund | cancelRefund =>
      cases answer with
      | none => trivial
      | some _ => exact settling_same rfl

/-- `insure` calls out only to return the payment. -/
theorem insure_call {m : Msg} {flightInfo : List Bytes32} {payment : UInt256}
    {saved handover : World} {k : Kont}
    (h : insure m flightInfo payment w = .call saved handover k) :
    saved = (w.credit m.value).keep m.sender m.value .insureRefund ∧
      handover = (w.credit m.value).pay m.sender m.value .insureRefund := by
  have hrefund : ∀ payment', (w.credit m.value).callOut m.sender m.value .insureRefund
      (.insureRefund m flightInfo payment') (afterInsureRefund m flightInfo payment' none) =
        .call saved handover k →
      saved = (w.credit m.value).keep m.sender m.value .insureRefund ∧
        handover = (w.credit m.value).pay m.sender m.value .insureRefund := by
    intro payment' h
    unfold Account.callOut at h
    split_ifs at h
    · cases h
      exact ⟨rfl,rfl⟩
    · cases h
  unfold insure at h
  dsimp only at h
  split_ifs at h
  · exact hrefund _ h
  · cases hd : flightInfo[1]? with
    | none =>
        rw [hd] at h
        cases h
    | some departure =>
        simp only [hd] at h
        split_ifs at h
        exact hrefund _ h

variable {owner tcCont : Address} {capital : ℕ} {s : Config World Kont}

/-- A recorded policy costs what was paid, up to wrapping around. -/
theorem recorded_sum {m : Msg} {flightInfo : List Bytes32} {payment : UInt256}
    (h : insure m flightInfo payment w = .done () w') :
    (recorded w w').requester = m.sender ∧
      (recorded w w').premium+(recorded w w').fee = m.value := by
  obtain ⟨-,-,-,rfl⟩ := insure_done h
  obtain ⟨hpremium,hfee⟩ := recorded_amounts m flightInfo (payment*ETHER_TO_WEI) w
  refine ⟨by simp [recorded,record,Storage.setPolicy],?_⟩
  rw [hpremium,hfee,add_comm,sub_add_cancel]

theorem provenance_insure {m : Msg} {flightInfo : List Bytes32} {payment : UInt256} {o : Result}
    (ho : insure m flightInfo payment s.world = o) (hs : run s) (hw : Provenance run s.world) :
    o.All (Provenance run) fun _ => True := by
  cases o with
  | revert => trivial
  | call saved handover k =>
      obtain ⟨rfl,rfl⟩ := insure_call ho
      exact ⟨(settling_same rfl).provenance hw,(settling_same rfl).provenance hw,trivial⟩
  | done result w' =>
      have hsum := recorded_sum ho
      intro policyId hne
      by_cases hid : s.world.storage.policyCnt = policyId
      · subst hid
        exact ⟨_,s,m,flightInfo,payment,w',hs,ho,rfl,rfl,hsum.1,rfl,rfl⟩
      · obtain ⟨-,-,-,rfl⟩ := insure_done ho
        have hsame : ((record m flightInfo (payment*ETHER_TO_WEI)
            (s.world.credit m.value)).storage.policies policyId) =
              s.world.storage.policies policyId := Function.update_of_ne (Ne.symm hid) _ _
        unfold Bought
        rw [hsame] at hne ⊢
        exact hw policyId hne

theorem code_start (c : Call) (w : World) : code.start c w = start c w := rfl

theorem run_provenance (h : FreeRun owner tcCont capital s) :
    Above (Provenance (FreeRun owner tcCont capital)) (fun _ => True) [] s := by
  have h₀ : Provenance (FreeRun owner tcCont capital) (constructor owner tcCont capital) := by
    intro policyId hne
    simp [constructor] at hne
  refine Reach.above h₀ ?_ ?_ h
  · intro s c hs _ hw
    have hlift : ∀ {o : Result}, o.All (Settling s.world) (fun _ => True) →
        o.All (Provenance (FreeRun owner tcCont capital)) fun _ => True :=
      fun ho => ho.mono (fun _ h => h.provenance hw) fun _ h => h
    cases c with
    | forced value => exact (settling_same rfl).provenance hw
    | message m f =>
        cases f with
        | fallback => exact (settling_same rfl).provenance hw
        | insure flightInfo payment =>
            rw [code_start,start]
            generalize ho : insure m flightInfo payment s.world = o
            exact provenance_insure ho hs hw
        | request => exact all_nonPayable (hlift settling_request)
        | response => exact all_nonPayable (hlift settling_response)
        | cancel => exact all_nonPayable (hlift settling_cancel)
  · intro k answer w _ hw
    exact (settling_resume k answer).mono (fun _ h => h.provenance hw) fun _ h => h

/-- A transfer that refunds a policy carries its premium. -/
def RefundsPremium (w : World) (o : Result) : Prop :=
  ∀ recipient value purpose policyId,
    Account.tried o = w.attempts++[(recipient,value,purpose)] →
    refunded? purpose = some policyId → value = (w.storage.policies policyId).premium

theorem refunds_quiet {o : Result} (h : Account.tried o = w.attempts ∨ o = .revert) :
    RefundsPremium w o := by
  intro r v p policyId htried _
  rcases h with h | rfl
  · rw [h] at htried
    simp at htried
  · simp [Account.tried] at htried

theorem refunds_callOut {x : World} {r : Address} {v : UInt256} {p : Purpose} {k : Kont}
    {onFailure : World → Result} (hx : x.attempts = w.attempts)
    (hfail : Account.tried (onFailure (x.keep r v p)) = (x.keep r v p).attempts ∨
      onFailure (x.keep r v p) = .revert)
    (hv : ∀ policyId, refunded? p = some policyId → v = (w.storage.policies policyId).premium) :
    RefundsPremium w (x.callOut r v p k onFailure) := by
  intro r' v' p' policyId htried hrefund
  unfold Account.callOut at htried
  split_ifs at htried with hfunds
  · rw [Account.tried,Account.attempts_pay,hx] at htried
    have heq := List.singleton_inj.mp (List.append_cancel_left htried)
    cases heq
    exact hv policyId hrefund
  · rcases hfail with h | h
    · rw [h,Account.attempts_keep,hx] at htried
      have heq := List.singleton_inj.mp (List.append_cancel_left htried)
      cases heq
      exact hv policyId hrefund
    · rw [h] at htried
      simp [Account.tried] at htried

/-- The amount computed after the fee was cleared. -/
theorem cleared_sum (policyId : UInt64) :
    ((clearFee w policyId).storage.policies policyId).premium+
        ((clearFee w policyId).storage.policies policyId).fee =
      (w.storage.policies policyId).premium := by
  simp [clearFee,Storage.setPolicy]

/-- Only the answer to an error refunds a policy. -/
theorem settlement_refund {t : Storage} {policyId id error : UInt64} {delay : UInt256}
    (h : refunded? (settlement t policyId error delay).2.2 = some id) :
    policyId = id ∧ (settlement t policyId error delay).2.1 =
      (t.policies policyId).premium+(t.policies policyId).fee := by
  unfold settlement at h ⊢
  dsimp only at h ⊢
  by_cases h₀ : error = 0
  · rw [if_pos h₀] at h
    split_ifs at h <;> cases h
  · by_cases h₁ : error = 1
    · rw [if_neg h₀,if_pos h₁] at h
      cases h
    · rw [if_neg h₀,if_neg h₁] at h ⊢
      cases h
      exact ⟨rfl,rfl⟩

theorem refunds_response {m : Msg} {requestId error : UInt64} {respData : Bytes32} :
    RefundsPremium w (response m requestId error respData w) := by
  unfold response
  dsimp only
  split_ifs
  · exact refunds_quiet (.inl rfl)
  · refine refunds_callOut rfl (.inl rfl) ?_
    intro policyId hrefund
    obtain ⟨rfl,hvalue⟩ := settlement_refund hrefund
    rw [hvalue]
    exact cleared_sum _

theorem refunds_cancel {m : Msg} {policyId : UInt64} :
    RefundsPremium w (cancel m policyId w) := by
  unfold cancel
  dsimp only
  cases (w.storage.policies policyId).data[1]? with
  | none => exact refunds_quiet (.inr rfl)
  | some departure =>
      dsimp only
      split_ifs
      · exact refunds_quiet (.inl rfl)
      · refine refunds_callOut rfl (.inr rfl) ?_
        rintro id ⟨⟩
        rw [add_comm]
        exact cleared_sum _

theorem refunds_insure {m : Msg} {flightInfo : List Bytes32} {payment : UInt256} :
    RefundsPremium w (insure m flightInfo payment w) := by
  cases ho : insure m flightInfo payment w with
  | revert => exact refunds_quiet (.inr rfl)
  | done result w' =>
      obtain ⟨-,-,-,rfl⟩ := insure_done ho
      exact refunds_quiet (.inl rfl)
  | call saved handover k =>
      obtain ⟨rfl,rfl⟩ := insure_call ho
      intro r v p policyId htried hrefund
      rw [Account.tried,Account.attempts_pay] at htried
      have heq := List.singleton_inj.mp (List.append_cancel_left htried)
      cases heq
      cases hrefund

theorem refunds_start (c : Call) : RefundsPremium w (start c w) := by
  have hnon : ∀ {m} {o : Result}, RefundsPremium w o → RefundsPremium w (nonPayable m o) := by
    intro m o ho
    unfold nonPayable
    split_ifs
    · exact ho
    · exact refunds_quiet (.inr rfl)
  cases c with
  | forced value => exact refunds_quiet (.inl rfl)
  | message m f =>
      cases f with
      | fallback => exact refunds_quiet (.inl rfl)
      | insure =>
          rw [start]
          exact refunds_insure
      | response => exact hnon refunds_response
      | cancel => exact hnon refunds_cancel
      | request policyId =>
          apply hnon
          unfold request
          dsimp only
          split_ifs
          · exact refunds_quiet (.inl rfl)
          · exact refunds_callOut rfl (.inr rfl) nofun

theorem refunds_resume (k : Kont) (answer : Option ℤ) : RefundsPremium w (resume k answer w) := by
  cases k with
  | settle => exact refunds_quiet (.inl rfl)
  | requestRefund | cancelRefund =>
      cases answer with
      | none => exact refunds_quiet (.inr rfl)
      | some _ => exact refunds_quiet (.inl rfl)
  | insureRefund m flightInfo payment =>
      cases answer with
      | none => exact refunds_quiet (.inr rfl)
      | some _ =>
          change RefundsPremium w (afterInsureRefund _ _ _ (some _) _)
          unfold afterInsureRefund
          dsimp only [Option.isNone_some]
          rw [if_neg (by decide)]
          cases flightInfo[1]? with
          | none => exact refunds_quiet (.inr rfl)
          | some departure => exact refunds_quiet (.inl rfl)
  | tcRequest m policyId =>
      cases answer with
      | none => exact refunds_quiet (.inr rfl)
      | some tcId =>
          change RefundsPremium w (afterTcRequest _ _ (some _) _)
          unfold afterTcRequest
          dsimp only
          split_ifs
          · refine refunds_callOut rfl (.inr rfl) ?_
            rintro id ⟨⟩
            rw [cleared_sum]
            simp [Storage.setPolicy]
          · exact refunds_quiet (.inr rfl)
          · exact refunds_quiet (.inl rfl)

/-- A policy that ends without a flight outcome, on any of the three ways, gives
back its premium alone: of what was paid for it the fee stays behind. -/
theorem refund_incomplete (h : FreeRun owner tcCont capital s) {a : Action Call ℤ} {o : Result}
    (hp : code.piece s a = some (w,o)) {recipient : Address} {value : UInt256} {purpose : Purpose}
    {policyId : UInt64} (htried : Account.tried o = w.attempts++[(recipient,value,purpose)])
    (hrefund : refunded? purpose = some policyId)
    (hlive : (w.storage.policies policyId).fee ≠ 0) :
    ∃ paid, Bought (FreeRun owner tcCont capital) w policyId paid ∧
      paid = (w.storage.policies policyId).premium+(w.storage.policies policyId).fee ∧
      value = (w.storage.policies policyId).premium ∧ value ≠ paid := by
  have hvalue : value = (w.storage.policies policyId).premium := by
    rcases Code.piece_cases hp with ⟨c,-,-,rfl,rfl⟩ | ⟨-,-,k,-,answer,-,-,-,rfl⟩
    · exact refunds_start c _ _ _ _ htried hrefund
    · exact refunds_resume k answer _ _ _ _ htried hrefund
  obtain ⟨paid,hbought⟩ := ((run_provenance h).piece hp).1 policyId hlive
  have hpaid : paid = (w.storage.policies policyId).premium+(w.storage.policies policyId).fee := by
    obtain ⟨x,m,flightInfo,payment,w',-,hx,-,hm,-,h₂,h₃⟩ := hbought
    rw [← hm,h₂,h₃,(recorded_sum hx).2]
  refine ⟨paid,hbought,hpaid,hvalue,?_⟩
  rw [hvalue,hpaid]
  simpa using hlive

/-- After the purchase of one policy. -/
def bought : Config World Kont :=
  ⟨record purchase [0,1500090000] (1*ETHER_TO_WEI) ((constructor 1 2 0).credit purchase.value),[]⟩

theorem bought_run : FreeRun 1 2 0 bought := by
  refine .step (.call (.message purchase (.insure [0,1500090000] 1))) .start ?_ trivial
  have h := insure_purchase (show ¬tooLate purchase 1500090000 by decide)
  simp only [Code.step,code_start,start,h]
  rfl

/-- The holder cancels within the hour. -/
def cancelCall : Call := .message ⟨7,0,1,0,1500000000⟩ (.cancel 1)

/-- Of one ether and the fee, one ether comes back. -/
theorem cancel_keeps_fee : FreeRun 1 2 0 bought ∧ ∃ o,
    code.piece bought (.call cancelCall) = some (bought.world,o) ∧
    Account.tried o = bought.world.attempts++[(7,10^18,.cancelRefund 1)] ∧
    (bought.world.storage.policies 1).fee = TC_FEE ∧ purchase.value = 10^18+TC_FEE :=
  ⟨bought_run,_,rfl,rfl,by decide,by decide⟩

theorem refund_incomplete_cancel : ∃ paid, Bought (FreeRun 1 2 0) bought.world 1 paid ∧
    paid = (bought.world.storage.policies 1).premium+(bought.world.storage.policies 1).fee ∧
    10^18 = (bought.world.storage.policies 1).premium ∧ (10^18 : UInt256) ≠ paid :=
  refund_incomplete bought_run (a := .call cancelCall) rfl rfl rfl (by decide)

end TownCrier.Insurance
