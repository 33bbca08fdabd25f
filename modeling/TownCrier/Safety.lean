import TownCrier.Settlement

/-!
# Safety of the TownCrier contract

Every call and every continuation keeps the invariant, so it holds in each
state of each run, also while other code runs and calls back. Three statements
about runs follow: the balance covers what is owed, the counter is exact, and
every request is settled at most once with conserved money.
-/
namespace TownCrier.Contract
open BigEndian CallMachine Evm Ledger

/-- While the flag is up, nothing happens to any request; it comes back as it was. -/
structure Locked (e w : World) : Prop where
  flag : w.storage.externalCallFlag = e.storage.externalCallFlag
  agree : e.storage.externalCallFlag = true → Agree e w
  sent : e.sent <+: w.sent

/-- The call found the flag down and has taken back no transfer. -/
structure Begun (e w : World) : Prop where
  flag : e.storage.externalCallFlag = false
  sent : e.sent <+: w.sent

/-- Closed by `d`, and the callback has not been made. -/
structure Uncalled (w : World) (i : RequestInfo) (d : Delivery) : Prop where
  mem : i ∈ infos w
  requestId : d.requestId = i.id
  fee : (w.storage.requests i.id).fee = DELIVERED_FEE_FLAG
  trace : ∃ t, trace w i.id = [t] ∧ ∀ calls,
    Called i (w.storage.requests i.id).callbackFID d calls →
      Settled i (w.storage.requests i.id).callbackFID (t::calls)

def Held : Kont → World → World → Prop
  | .withdraw, e, h => Locked e h
  | .deliverRefund _ d _, e, h =>
      Begun e h ∧ h.storage.externalCallFlag = true ∧ ∃ i, Uncalled h i d
  | _, e, h => Begun e h

def Failed (keccak : Bytes → Bytes32) : Kont → World → World → Prop
  | .deliverRefund _ d _, e, s => Begun e s ∧ Inv keccak s ∧ ∃ i, Uncalled s i d
  | .deliverCallback, e, s => Begun e s ∧ Inv keccak s
  | _, _, _ => True

def assertions (keccak : Bytes → Bytes32) : Assertions World Kont where
  inv := Inv keccak
  rel := Locked
  held := Held
  failed := Failed keccak

/-- Fewer than `2^64-1` accepted requests, and both fees worth two wei or more. -/
structure Good (w : World) : Prop where
  accepted : (infos w).length < 2^64-1
  minFee : 2 ≤ w.storage.minFee
  cancellationFee : 2 ≤ w.storage.cancellationFee

theorem Locked.refl (w : World) : Locked w w := ⟨rfl,fun _ => .refl w,List.prefix_rfl⟩

theorem Locked.trans {w₁ w₂ w₃ : World} (h : Locked w₁ w₂) (h' : Locked w₂ w₃) : Locked w₁ w₃ :=
  ⟨h'.flag.trans h.flag,fun hf => (h.agree hf).trans (h'.agree (h.flag.trans hf)),
    h.sent.trans h'.sent⟩

theorem Begun.refl {w : World} (h : w.storage.externalCallFlag = false) : Begun w w :=
  ⟨h,List.prefix_rfl⟩

theorem Begun.trans {e h w : World} (he : Begun e h) (hw : h.sent <+: w.sent) : Begun e w :=
  ⟨he.flag,he.sent.trans hw⟩

theorem Begun.locked {e w : World} (h : Begun e w)
    (hw : w.storage.externalCallFlag = false) : Locked e w :=
  ⟨hw.trans h.flag.symm,fun he => absurd (h.flag.symm.trans he) (by decide),h.sent⟩

theorem Uncalled.agree {w w' : World} {i : RequestInfo} {d : Delivery} (h : Uncalled w i d)
    (ha : Agree w w') : Uncalled w' i d := by
  obtain ⟨hmem,hid,hfee,t,ht,hcalls⟩ := h
  refine ⟨by rw [ha.infos]; exact hmem,hid,by rw [ha.requests]; exact hfee,t,?_,?_⟩
  · rw [ha.trace,ht]
  · rw [ha.requests]
    exact hcalls

section Steps
variable {keccak : Bytes → Bytes32} {w e : World}

theorem setFee_self {s : Storage} {id : UInt64} {fee : UInt256} (h : (s.requests id).fee = fee) :
    (s.setFee id fee).requests = s.requests := by
  subst h
  exact Function.update_eq_self _ _

/-- The callback appends itself to the transfers of the closed request. -/
theorem inv_callback (hw : Inv keccak w) {i : RequestInfo} {d : Delivery} (hu : Uncalled w i d)
    {w' : World} (success : Bool) (hinfos : infos w' = infos w)
    (hs : w'.storage = (setFlag w true).storage) (hbal : w'.balance = w.balance)
    (ht : ∀ j, trace w' j = trace w j++if d.requestId = j then
      [⟨(w.storage.requests d.requestId).callbackAddr,0,
        .callback (w.storage.requests d.requestId).callbackFID d,success⟩] else []) :
    Inv keccak w' := by
  obtain ⟨t,htrace,hcalls⟩ := hu.trace
  have hmoved : Moved w w' i.id DELIVERED_FEE_FLAG := by
    refine ⟨hinfos,by rw [hs]; rfl,by rw [hs,setFee_self hu.fee]; rfl,by rw [hs]; rfl,
      by rw [hs]; rfl,fun j hj => ?_⟩
    rw [ht,if_neg (by rw [hu.requestId]; exact hj.symm),List.append_nil]
  refine hw.change hu.mem hmoved (.settled ?_) ?_ ?_
  · rw [ht,if_pos hu.requestId,htrace,hu.requestId,(hw.entries i hu.mem).callbackAddr]
    exact hcalls _ (.inr ⟨success,rfl⟩)
  · rw [hs,hu.fee]
    rfl
  · rw [hu.fee,hbal]

theorem callback_post (hw : Inv keccak w) {m : Msg} {d : Delivery} {fee : UInt256}
    {i : RequestInfo} (hu : Uncalled w i d) (he : Begun e w) :
    (assertions keccak).Post Good e (callback m d fee w) := by
  unfold callback
  split_ifs with hgas
  · trivial
  · refine Account.post_callOut _ (fun _ _ => ?_) (fun h => absurd (Nat.zero_le _) h)
    refine ⟨?_,⟨he.flag,he.sent.trans (List.prefix_append _ _)⟩,
      ⟨he.flag,he.sent.trans (List.prefix_append _ _)⟩,?_⟩
    · refine inv_callback hw hu true ?_ rfl ?_ ?_
      · simp [Event.info?]
      · simp
      · simp [Purpose.requestId?]
    · refine inv_callback hw hu false ?_ rfl ?_ ?_
      · simp [Event.info?]
      · simp
      · simp [Purpose.requestId?]

/-- An open request that is not cancelled has its whole fee and no transfers. -/
theorem open_request (hw : Inv keccak w) {i : RequestInfo} (hi : i ∈ infos w)
    (hdelivered : (w.storage.requests i.id).fee ≠ DELIVERED_FEE_FLAG)
    (hcancelled : (w.storage.requests i.id).fee ≠ CANCELLED_FEE_FLAG) :
    (w.storage.requests i.id).fee = i.fee ∧ 2 ≤ i.fee ∧ trace w i.id = [] := by
  have hprog := (hw.entries i hi).progress
  generalize (w.storage.requests i.id).fee = fee at hprog hdelivered hcancelled
  generalize trace w i.id = calls at hprog
  cases hprog with
  | outstanding h => exact ⟨rfl,BitVec.le_trans hw.minFee h,rfl⟩
  | cancelled h => exact absurd rfl hcancelled
  | settled h => exact absurd rfl hdelivered

theorem cancelled_request (hw : Inv keccak w) {i : RequestInfo} (hi : i ∈ infos w)
    (h : (w.storage.requests i.id).fee = CANCELLED_FEE_FLAG) :
    w.storage.cancellationFee ≤ i.fee ∧ trace w i.id = [refund i w.storage.cancellationFee] := by
  have hprog := (hw.entries i hi).progress
  have hmin := hw.minFee
  generalize (w.storage.requests i.id).fee = fee at hprog h
  generalize trace w i.id = calls at hprog
  cases hprog with
  | outstanding hfee =>
      have h2 : 2 ≤ i.fee := BitVec.le_trans hmin hfee
      rw [h] at h2
      exact absurd h2 (by decide)
  | cancelled hfee => exact ⟨hfee,rfl⟩
  | settled _ => exact absurd h (by decide)

theorem cancelled_post (hw : Inv keccak w) {i : RequestInfo} (hi : i ∈ infos w) {d : Delivery}
    (hauth : Authentic i d) (h : (w.storage.requests i.id).fee = CANCELLED_FEE_FLAG)
    (hfunds : w.storage.cancellationFee.toNat ≤ w.balance) :
    Inv keccak (markDelivered
      (w.pay SGX_ADDRESS w.storage.cancellationFee (.cancellationFee d)) i.id) := by
  obtain ⟨hcharge,htrace⟩ := cancelled_request hw hi h
  have hp : (Purpose.cancellationFee d).requestId? = some i.id := congrArg some hauth.requestId
  refine hw.close hi (by rw [h]; decide)
    ⟨rfl,rfl,rfl,rfl,rfl,fun j hj => trace_pay_other w hp hj _ _⟩ rfl ?_ ?_
  · rw [markDelivered,trace_set,trace_pay_self w hp,htrace]
    exact .cancelled _ d hcharge hauth
  · rw [h,owed_cancelled,markDelivered,Account.balance_set,Account.balance_pay]
    omega

/-- The record of an open request is closed and its one transfer is made. -/
theorem closed (hw : Inv keccak w) {i : RequestInfo} (hi : i ∈ infos w) {d : Delivery}
    (hid : d.requestId = i.id)
    (hdelivered : (w.storage.requests i.id).fee ≠ DELIVERED_FEE_FLAG)
    (hcancelled : (w.storage.requests i.id).fee ≠ CANCELLED_FEE_FLAG)
    {w' : World} {t : Transfer Purpose} (hmoved : Moved w w' i.id DELIVERED_FEE_FLAG)
    (hcounter : w'.storage.unrespondedCnt = w.storage.unrespondedCnt-1)
    (ht : trace w' i.id = trace w i.id++[t])
    (hsettled : ∀ calls, Called i (w.storage.requests i.id).callbackFID d calls →
      Settled i (w.storage.requests i.id).callbackFID (t::calls))
    (hbal : w.balance ≤ w'.balance+i.fee.toNat) : Inv keccak w' ∧ Uncalled w' i d := by
  obtain ⟨hfee,h2,htrace⟩ := open_request hw hi hdelivered hcancelled
  have hself : w'.storage.requests i.id =
      {w.storage.requests i.id with fee := DELIVERED_FEE_FLAG} := by
    rw [hmoved.requests,setFee_requests,Function.update_self]
  rw [htrace,List.nil_append] at ht
  constructor
  · refine hw.close hi hdelivered hmoved hcounter ?_ (by rw [hfee,owed_of_le h2]; exact hbal)
    rw [ht]
    exact hsettled [] (.inl rfl)
  · refine ⟨hmoved.infos ▸ hi,hid,by rw [hself],t,ht,?_⟩
    rw [hself]
    exact hsettled

theorem inv_setFlag (hw : Inv keccak w) (flag : Bool) : Inv keccak (setFlag w flag) :=
  hw.frame ⟨rfl,rfl,rfl,rfl,fun _ => rfl⟩ rfl rfl hw.solvent

/-- A call that leaves the requests and the fees alone and sends nothing. -/
theorem quiet_post (hw : Inv keccak w) {w' : World} {result : Option ℤ} (ha : Agree w w')
    (hmin : w'.storage.minFee = w.storage.minFee)
    (hfee : w'.storage.cancellationFee = w.storage.cancellationFee)
    (hflag : w'.storage.externalCallFlag = w.storage.externalCallFlag)
    (hbal : w.balance ≤ w'.balance) (hsent : w.sent <+: w'.sent) :
    (assertions keccak).Post Good w (.done result w') :=
  fun _ => ⟨hw.frame ha hmin hfee (hw.solvent.trans hbal),⟨hflag,fun _ => ha,hsent⟩⟩

/-- A function that takes the flag down and returns. -/
theorem unlocked_post (hw : Inv keccak w) (he : Begun e w) {result : Option ℤ} :
    (assertions keccak).Post Good e (.done result (setFlag w false)) :=
  fun _ => ⟨inv_setFlag hw false,Begun.locked ⟨he.flag,he.sent⟩ rfl⟩

theorem refund_callback (hw : Inv keccak w) {m : Msg} {d : Delivery} {fee : UInt256}
    {i : RequestInfo} (hu : Uncalled w i d) (he : Begun e w) (answer : Option Unit) :
    (assertions keccak).Post Good e (afterErrorRefund m d fee answer w) :=
  callback_post (inv_setFlag hw false) (hu.agree ⟨rfl,rfl,rfl,rfl,fun _ => rfl⟩)
    (he.trans List.prefix_rfl)

theorem answered_post (hw : Inv keccak w) {i : RequestInfo} (hi : i ∈ infos w) {m : Msg}
    {d : Delivery} (hauth : Authentic i d) (herror : d.error < 2)
    (hdelivered : (w.storage.requests i.id).fee ≠ DELIVERED_FEE_FLAG)
    (hcancelled : (w.storage.requests i.id).fee ≠ CANCELLED_FEE_FLAG)
    (he : Begun e w) :
    (assertions keccak).Post Good e
      (match (markDelivered w i.id).transfer SGX_ADDRESS (w.storage.requests i.id).fee
          (.deliveryFee d) with
        | none => .revert
        | some w' => callback m d (w.storage.requests i.id).fee w') := by
  obtain ⟨hfee,-,-⟩ := open_request hw hi hdelivered hcancelled
  have hp : (Purpose.deliveryFee d).requestId? = some i.id := congrArg some hauth.requestId
  unfold Account.transfer
  split_ifs with hfunds
  · have hmoved : Moved w ((markDelivered w i.id).pay SGX_ADDRESS (w.storage.requests i.id).fee
        (.deliveryFee d)) i.id DELIVERED_FEE_FLAG :=
      ⟨rfl,rfl,rfl,rfl,rfl,fun j hj => trace_pay_other _ hp hj _ _⟩
    have hclosed := closed hw hi hauth.requestId hdelivered hcancelled hmoved rfl
      (trace_pay_self _ hp _ _)
      (fun calls hcalls => hfee ▸ .answered d calls hauth herror hcalls)
      (by rw [Account.balance_pay,← hfee]; change w.balance ≤ w.balance-_+_; omega)
    exact callback_post hclosed.1 hclosed.2 (he.trans (List.prefix_append _ _))
  · trivial

theorem refunded_post (hw : Inv keccak w) {i : RequestInfo} (hi : i ∈ infos w) {m : Msg}
    {d : Delivery} (hauth : Authentic i d) (herror : ¬d.error < 2)
    (hdelivered : (w.storage.requests i.id).fee ≠ DELIVERED_FEE_FLAG)
    (hcancelled : (w.storage.requests i.id).fee ≠ CANCELLED_FEE_FLAG)
    (he : Begun e w) :
    (assertions keccak).Post Good e
      ((setFlag (markDelivered w i.id) true).callOut (w.storage.requests i.id).requester
        (w.storage.requests i.id).fee (.errorRefund d)
        (.deliverRefund m d (w.storage.requests i.id).fee)
        (afterErrorRefund m d (w.storage.requests i.id).fee none)) := by
  obtain ⟨hfee,-,-⟩ := open_request hw hi hdelivered hcancelled
  have hp : (Purpose.errorRefund d).requestId? = some i.id := congrArg some hauth.requestId
  have hsettled : ∀ success calls, Called i (w.storage.requests i.id).callbackFID d calls →
      Settled i (w.storage.requests i.id).callbackFID
        (⟨(w.storage.requests i.id).requester,(w.storage.requests i.id).fee,.errorRefund d,
          success⟩::calls) := by
    intro success calls hcalls
    rw [hfee,(hw.entries i hi).requester]
    exact .refunded d success calls hauth herror hcalls
  have hpaid : Moved w ((setFlag (markDelivered w i.id) true).pay
      (w.storage.requests i.id).requester (w.storage.requests i.id).fee (.errorRefund d)) i.id
      DELIVERED_FEE_FLAG := ⟨rfl,rfl,rfl,rfl,rfl,fun j hj => trace_pay_other _ hp hj _ _⟩
  have hkept : Moved w ((setFlag (markDelivered w i.id) true).keep
      (w.storage.requests i.id).requester (w.storage.requests i.id).fee (.errorRefund d)) i.id
      DELIVERED_FEE_FLAG := ⟨rfl,rfl,rfl,rfl,rfl,fun j hj => trace_keep_other _ hp hj _ _⟩
  have hrefused := closed hw hi hauth.requestId hdelivered hcancelled hkept rfl
    (trace_keep_self _ hp _ _) (hsettled false) (Nat.le_add_right _ _)
  refine Account.post_callOut _ (fun hfunds _ => ?_) (fun _ => ?_)
  · have haccepted := closed hw hi hauth.requestId hdelivered hcancelled hpaid rfl
      (trace_pay_self _ hp _ _) (hsettled true)
      (by rw [Account.balance_pay,← hfee]; change w.balance ≤ w.balance-_+_; omega)
    exact ⟨haccepted.1,⟨he.trans (List.prefix_append _ _),rfl,i,haccepted.2⟩,
      he.trans (List.prefix_append _ _),hrefused.1,i,hrefused.2⟩
  · exact refund_callback hrefused.1 hrefused.2 (he.trans (List.prefix_append _ _)) none

theorem deliver_post (hw : Inv keccak w) {m : Msg} {requestId : UInt64} {paramsHash : Bytes32}
    {error : UInt64} {respData : Bytes32}
    (hflag : m.sender = SGX_ADDRESS → w.storage.externalCallFlag = false) :
    (assertions keccak).Post Good w (deliver m requestId paramsHash error respData w) := by
  unfold deliver
  dsimp only
  split_ifs with hguard hhash hcancelled herror
  · exact fun _ => ⟨hw,.refl w⟩
  · exact fun _ => ⟨hw,.refl w⟩
  all_goals
    simp only [not_or,not_not] at hguard hhash
    obtain ⟨hsender,-,-,hdelivered⟩ := hguard
    have hbegun := Begun.refl (hflag hsender)
    obtain ⟨i,hi,rfl⟩ := hw.info_of_fee hdelivered
    have hentry := hw.entries i hi
    have hauth : Authentic i ⟨m.sender,i.id,paramsHash,error,respData⟩ :=
      ⟨hsender,rfl,hhash.symm.trans hentry.paramsHash⟩
  · unfold Account.transfer
    split_ifs with hfunds
    · exact fun _ => ⟨cancelled_post hw hi hauth hcancelled hfunds,
        (hbegun.trans (List.prefix_append _ _)).locked hbegun.flag⟩
    · trivial
  · exact answered_post hw hi hauth herror hdelivered hcancelled hbegun
  · exact refunded_post hw hi hauth herror hdelivered hcancelled hbegun

/-- The value of a request that is not recorded goes back to the sender. -/
theorem returned_post (hw : Inv keccak w) {m : Msg} {p : Purpose} {k : Kont}
    {onFailure : World → Result} (hp : p.requestId? = none)
    (hflag : w.storage.externalCallFlag = false)
    (hheld : ∀ h, Begun w h → Held k w h) (hfailed : ∀ s, Failed keccak k w s)
    (hrevert : ∀ w, onFailure w = .revert) :
    (assertions keccak).Post Good w
      ((setFlag (w.credit m.value) true).callOut m.sender m.value p k onFailure) := by
  refine Account.post_callOut _ (fun _ _ => ⟨?_,hheld _ ⟨hflag,List.prefix_append _ _⟩,hfailed _⟩)
    (fun _ => by rw [hrevert]; trivial)
  have hagree : Agree w ((setFlag (w.credit m.value) true).pay m.sender m.value p) :=
    ⟨rfl,rfl,rfl,rfl,fun id => by rw [trace_pay,hp]; simp⟩
  refine hw.frame hagree rfl rfl (hw.solvent.trans ?_)
  simp

theorem request_post (hw : Inv keccak w) {m : Msg} {requestType : UInt8} {callbackAddr : Address}
    {callbackFID : Bytes4} {timestamp : UInt256} {requestData : List Bytes32} :
    (assertions keccak).Post Good w
      (request keccak m requestType callbackAddr callbackFID timestamp requestData w) := by
  unfold request
  dsimp only
  split_ifs with hflag hkill hvalue
  · trivial
  all_goals rw [Account.storage_credit,Bool.not_eq_true] at hflag
  · exact returned_post hw rfl hflag (fun _ h => h) (fun _ => trivial) (fun _ => rfl)
  · exact returned_post hw rfl hflag (fun _ h => h) (fun _ => trivial) (fun _ => rfl)
  · intro hgood
    have haccepted := hgood.accepted
    rw [record,infos_emit,infos_set,infos_credit,Event.info?,Option.toList_some,
      List.length_append,List.length_singleton] at haccepted
    have hcount := hw.count
    exact ⟨hw.recorded (BitVec.not_lt.mp hvalue) (by omega),
      Begun.locked ⟨hflag,List.prefix_rfl⟩ hflag⟩

theorem cancel_post (hw : Inv keccak w) {m : Msg} {requestId : UInt64} :
    (assertions keccak).Post Good w (cancel m requestId w) := by
  unfold cancel
  dsimp only
  split_ifs with hflag hkill hopen
  · trivial
  all_goals rw [Bool.not_eq_true] at hflag
  · exact fun _ => ⟨hw,.refl w⟩
  · obtain ⟨hrequester,hcharge⟩ := hopen
    have h2 : 2 ≤ (w.storage.requests requestId).fee := BitVec.le_trans hw.cancellationFee hcharge
    obtain ⟨i,hi,rfl⟩ := hw.info_of_fee (ne_delivered h2)
    obtain ⟨hfee,-,htrace⟩ := open_request hw hi (ne_delivered h2) (ne_cancelled h2)
    have hsub : ((w.storage.requests i.id).fee-w.storage.cancellationFee).toNat =
        (w.storage.requests i.id).fee.toNat-w.storage.cancellationFee.toNat :=
      BitVec.toNat_sub_of_le hcharge
    have hle : w.storage.cancellationFee.toNat ≤ (w.storage.requests i.id).fee.toNat := hcharge
    refine Account.post_callOut _ (fun hfunds _ => ⟨?_,
      (Begun.refl hflag).trans (List.prefix_append _ _),trivial⟩) (fun _ => trivial)
    refine hw.change hi (show Moved w _ i.id CANCELLED_FEE_FLAG from
      ⟨rfl,rfl,rfl,rfl,rfl,fun j hj => trace_pay_other _ rfl hj _ _⟩) ?_ ?_ ?_
    · rw [trace_pay_self _ rfl,trace_setFlag,trace_set,htrace,← hrequester,
        (hw.entries i hi).requester,hfee]
      exact .cancelled (hfee ▸ hcharge)
    · rw [pending_of_le h2,pending_cancelled]
      rfl
    · rw [owed_of_le h2,owed_cancelled,Account.balance_pay,hsub]
      change w.balance+_ ≤ w.balance-_+_
      rw [hsub] at hfunds
      change _ ≤ w.balance at hfunds
      omega
  · have hagree : Agree w (w.emit (.cancel requestId m.sender
        (w.storage.requests requestId).requester (w.storage.requests requestId).fee (-1))) :=
      ⟨by simp [Event.info?],rfl,rfl,rfl,fun _ => rfl⟩
    exact quiet_post hw hagree rfl rfl rfl le_rfl List.prefix_rfl

theorem withdraw_post (hw : Inv keccak w) {m : Msg} :
    (assertions keccak).Post Good w (withdraw m w) := by
  unfold withdraw
  split_ifs with h
  · have hagree : Agree w (w.pay (w.storage.requests 0).requester (BitVec.ofNat 256 w.balance)
        .withdrawal) :=
      ⟨rfl,rfl,rfl,rfl,fun id => by rw [trace_pay]; simp [Purpose.requestId?]⟩
    refine Account.post_callOut _ (fun _ _ => ⟨?_,⟨rfl,fun _ => hagree,List.prefix_append _ _⟩,
      trivial⟩) (fun _ => trivial)
    exact hw.refee hagree h.2 hw.minFee hw.cancellationFee
  · exact fun _ => ⟨hw,.refl w⟩

theorem upgrade_post (hw : Inv keccak w) {m : Msg} {newAddr : Address} :
    (assertions keccak).Post Good w (upgrade m newAddr w) := by
  unfold upgrade
  split_ifs
  · exact quiet_post hw ⟨by simp [Event.info?],rfl,rfl,rfl,fun _ => rfl⟩ rfl rfl rfl le_rfl
      List.prefix_rfl
  · exact fun _ => ⟨hw,.refl w⟩

theorem reset_post (hw : Inv keccak w) {m : Msg} {price minGas cancellationGas : UInt256} :
    (assertions keccak).Post Good w (reset m price minGas cancellationGas w) := by
  unfold reset
  split_ifs with h
  · have hagree : Agree w ((w.set {w.storage with
        gasPrice := price, minFee := price*minGas, cancellationFee := price*cancellationGas}).emit
        (.reset price (price*minGas) (price*cancellationGas))) :=
      ⟨by simp [Event.info?],rfl,rfl,rfl,fun _ => rfl⟩
    exact fun hgood => ⟨hw.refee hagree h.2 hgood.minFee hgood.cancellationFee,
      ⟨rfl,fun _ => hagree,List.prefix_rfl⟩⟩
  · exact fun _ => ⟨hw,.refl w⟩

theorem suspend_post (hw : Inv keccak w) {m : Msg} :
    (assertions keccak).Post Good w (suspend m w) := by
  unfold suspend
  split_ifs
  · exact quiet_post hw ⟨rfl,rfl,rfl,rfl,fun _ => rfl⟩ rfl rfl rfl le_rfl List.prefix_rfl
  · exact fun _ => ⟨hw,.refl w⟩

theorem restart_post (hw : Inv keccak w) {m : Msg} :
    (assertions keccak).Post Good w (restart m w) := by
  unfold restart
  split_ifs
  · exact quiet_post hw ⟨rfl,rfl,rfl,rfl,fun _ => rfl⟩ rfl rfl rfl le_rfl List.prefix_rfl
  · exact fun _ => ⟨hw,.refl w⟩

theorem resume_post {k : Kont} {h : World} (hheld : Held k e h) (hrel : Locked h w)
    (hw : Inv keccak w) : (assertions keccak).Post Good e (resume k (some ()) w) := by
  cases k with
  | requestKilled => exact unlocked_post hw (Begun.trans hheld hrel.sent)
  | requestUnderpaid => exact unlocked_post hw (Begun.trans hheld hrel.sent)
  | withdraw => exact fun _ => ⟨hw,Locked.trans hheld hrel⟩
  | cancelRefund m requestId =>
      have hagree : Agree (setFlag w false) ((setFlag w false).emit (.cancel requestId m.sender
          (w.storage.requests requestId).requester (w.storage.requests requestId).fee 1)) :=
        ⟨by simp [Event.info?],rfl,rfl,rfl,fun _ => rfl⟩
      have hinv := inv_setFlag hw false
      exact fun _ => ⟨hinv.frame hagree rfl rfl hinv.solvent,
        Begun.locked ⟨hheld.flag,hheld.sent.trans hrel.sent⟩ rfl⟩
  | deliverRefund m d fee =>
      obtain ⟨he,hflag,i,hu⟩ := hheld
      exact refund_callback hw (hu.agree (hrel.agree hflag)) (he.trans hrel.sent) (some ())
  | deliverCallback => exact unlocked_post hw (Begun.trans hheld hrel.sent)

theorem recover_post {k : Kont} {s : World} (hfailed : Failed keccak k e s) :
    (assertions keccak).Post Good e (resume k none s) := by
  cases k with
  | requestKilled => trivial
  | requestUnderpaid => trivial
  | withdraw => trivial
  | cancelRefund m requestId => trivial
  | deliverRefund m d fee =>
      obtain ⟨he,hinv,i,hu⟩ := hfailed
      exact refund_callback hinv hu he none
  | deliverCallback => exact unlocked_post hfailed.2 hfailed.1

theorem start_post (hw : Inv keccak w) {c : Call}
    (hflag : (code keccak).reentrant c = true ∨ w.storage.externalCallFlag = false) :
    (assertions keccak).Post Good w (start keccak c w) := by
  cases c with
  | forced value =>
      exact quiet_post hw ⟨rfl,rfl,rfl,rfl,fun _ => rfl⟩ rfl rfl rfl (Nat.le_add_right _ _)
        List.prefix_rfl
  | message m f =>
      cases f with
      | fallback => exact post_nonPayable fun _ => ⟨hw,.refl w⟩
      | upgrade => exact post_nonPayable (upgrade_post hw)
      | reset => exact post_nonPayable (reset_post hw)
      | suspend => exact post_nonPayable (suspend_post hw)
      | restart => exact post_nonPayable (restart_post hw)
      | withdraw => exact post_nonPayable (withdraw_post hw)
      | request => exact request_post hw
      | deliver =>
          refine post_nonPayable (deliver_post hw fun hsender => hflag.resolve_left ?_)
          simp [code,hsender]
      | cancel => exact post_nonPayable (cancel_post hw)

end Steps

theorem initial_inv (keccak : Bytes → Bytes32) (owner : Address) (balance : ℕ) :
    Inv keccak (constructor owner balance) where
  count := rfl
  numbered := rfl
  entries := fun i hi => absurd hi (List.not_mem_nil)
  unused := by
    intro id _
    refine ⟨?_,rfl⟩
    by_cases h : id = 0
    · rw [h]
      rfl
    · simp only [constructor,Function.update_of_ne h]
      rfl
  counter := rfl
  solvent := Nat.zero_le _
  minFee := by
    change (2 : UInt256) ≤ 30000*50000000000
    decide
  cancellationFee := by
    change (2 : UInt256) ≤ 25000*50000000000
    decide

theorem sound (keccak : Bytes → Bytes32) {w₀ : World} (hw₀ : Inv keccak w₀)
    (hflag : w₀.storage.externalCallFlag = false) :
    (assertions keccak).Sound (code keccak) Good w₀ where
  refl := .refl
  trans := .trans
  initial := hw₀
  start := fun _ _ hw h => start_post hw (h.imp id fun h => h.flag.trans hflag)
  resume := fun _ _ _ _ _ hheld hrel hw => resume_post hheld hrel hw
  recover := fun _ _ _ hfailed => recover_post hfailed

/-- Steps that stay within the bound on the requests and the floor of the fees. -/
def Admissible (_ : Config World Kont) (_ : Action Call Unit) (s' : Config World Kont) : Prop :=
  Good s'.world

abbrev Run (keccak : Bytes → Bytes32) (owner : Address) (balance : ℕ) : Config World Kont → Prop :=
  Reach (code keccak) Admissible (constructor owner balance)

section Runs
variable {keccak : Bytes → Bytes32} {owner : Address} {balance : ℕ} {s : Config World Kont}

theorem run_inv (h : Run keccak owner balance s) : Inv keccak s.world :=
  ((sound keccak (initial_inv keccak owner balance) rfl).reach (fun _ _ _ h => h) h).1

/-- Between transactions the flag is down. -/
theorem run_flag (h : Run keccak owner balance s) (hstack : s.stack = []) :
    s.world.storage.externalCallFlag = false := by
  have hstacked :=
    ((sound keccak (initial_inv keccak owner balance) rfl).reach (fun _ _ _ h => h) h).2
  rw [hstack] at hstacked
  exact Locked.flag hstacked

/-- From one transaction to a later one no transfer is taken back. -/
theorem run_sent {s' : Config World Kont} (h : Run keccak owner balance s) (hstack : s.stack = [])
    (h' : Reach (code keccak) Admissible s.world s') (hstack' : s'.stack = []) :
    s.world.sent <+: s'.world.sent := by
  have hstacked :=
    ((sound keccak (run_inv h) (run_flag h hstack)).reach (fun _ _ _ h => h) h').2
  rw [hstack'] at hstacked
  exact Locked.sent hstacked

end Runs
end TownCrier.Contract
