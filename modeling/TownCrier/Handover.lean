import TownCrier.Life

/-!
# What the TownCrier contract hands over

Each of its external calls goes to an account that the record or the message
names, and says by its place in the source what it is for. Between two external
calls the contract changes at most one record, and a number which it has given
away keeps its requester.
-/
namespace TownCrier.Contract
open BigEndian CallMachine Evm

/-- The number has been given to a request. -/
def Used (w : World) (id : UInt64) : Prop :=
  id ≠ 0 ∧ (w.storage.requestCnt = 0 ∨ id < w.storage.requestCnt)

/-- Nobody is named in a record whose number has not been given away. -/
def Numbered (w : World) : Prop :=
  ∀ id, id ≠ 0 → (w.storage.requests id).requester ≠ 0 → Used w id

/-- Numbers that were given away still are, to the same requesters. -/
def Assigned (w w' : World) : Prop :=
  ∀ id, Used w id →
    Used w' id ∧ (w'.storage.requests id).requester = (w.storage.requests id).requester

/-- The call does not record a request under the number zero, which is the next
one after the last. -/
def Counted (w : World) : Call → Prop
  | .message m (.request _ _ _ _ _) =>
      w.storage.externalCallFlag = false → w.storage.killswitch = false →
        w.storage.minFee ≤ m.value → w.storage.requestCnt ≠ 0
  | _ => True

/-- A piece of code of one call, from its start. -/
structure Advance (keccak : Bytes → Bytes32) (w : World) (c : Call) (w' : World) : Prop where
  effect : Effect keccak w c w'
  sent : w.sent <+: w'.sent
  newVersion : Versioned w → Versioned w'

/-- The delivery is for an open request that was not cancelled. -/
structure Answering (w : World) (d : Delivery) : Prop where
  requestId : d.requestId ≠ 0
  requester : (w.storage.requests d.requestId).requester ≠ 0
  delivered : (w.storage.requests d.requestId).fee ≠ DELIVERED_FEE_FLAG
  cancelled : (w.storage.requests d.requestId).fee ≠ CANCELLED_FEE_FLAG

/-- To whom the first external call of `c` goes, with how much and what for. -/
inductive Handing (w : World) : Call → Kont → Address → UInt256 → Purpose → Prop
  | requestKilled {m requestType callbackAddr callbackFID timestamp requestData} :
      Handing w (.message m (.request requestType callbackAddr callbackFID timestamp requestData))
        .requestKilled m.sender m.value .killedRefund
  | requestUnderpaid {m requestType callbackAddr callbackFID timestamp requestData} :
      Handing w (.message m (.request requestType callbackAddr callbackFID timestamp requestData))
        .requestUnderpaid m.sender m.value .underpaidRefund
  | withdraw {m r v} : Handing w (.message m .withdraw) .withdraw r v .withdrawal
  | cancelRefund {m requestId v} :
      Handing w (.message m (.cancel requestId)) (.cancelRefund m requestId) m.sender v
        (.cancelRefund requestId)
  | deliverRefund {m} {d : Delivery} (h : Answering w d) (herror : ¬d.error < 2)
      (hfunds : (w.storage.requests d.requestId).fee.toNat ≤ w.balance) :
      Handing w (.message m (.deliver d.requestId d.paramsHash d.error d.respData))
        (.deliverRefund m d (w.storage.requests d.requestId).fee)
        (w.storage.requests d.requestId).requester (w.storage.requests d.requestId).fee
        (.errorRefund d)
  | deliverCallback {m} {d : Delivery} (h : Answering w d)
      (herror : d.error < 2 ∨ ¬(w.storage.requests d.requestId).fee.toNat ≤ w.balance) :
      Handing w (.message m (.deliver d.requestId d.paramsHash d.error d.respData))
        .deliverCallback (w.storage.requests d.requestId).callbackAddr 0
        (.callback (w.storage.requests d.requestId).callbackFID d)

/-- A delivery has closed its request. -/
def Closed (x : World) : Call → Prop
  | .message _ (.deliver requestId _ _ _) =>
      (x.storage.requests requestId).fee = DELIVERED_FEE_FLAG
  | _ => True

/-- The transfers of a call up to where its first piece of code stops. -/
def Hands (w : World) (c : Call) : Result → Prop
  | .done _ w' => w.sent <+: w'.sent
  | .revert => True
  | .call saved handover k => ∃ (x : World) (r : Address) (v : UInt256) (p : Purpose),
      saved = x.keep r v p ∧ handover = x.pay r v p ∧ w.sent <+: x.sent ∧ Closed x c ∧
        Handing w c k r v p

variable {keccak : Bytes → Bytes32} {w w' : World}

theorem hands_callOut {c : Call} {x : World} {r : Address} {v : UInt256} {p : Purpose} {k : Kont}
    {onFailure : World → Result} (hsent : w.sent <+: x.sent) (hclosed : Closed x c)
    (hk : v.toNat ≤ x.balance → Handing w c k r v p)
    (hfail : ¬v.toNat ≤ x.balance → Hands w c (onFailure (x.keep r v p))) :
    Hands w c (x.callOut r v p k onFailure) := by
  unfold Account.callOut
  split_ifs with hfunds
  · exact ⟨x,r,v,p,rfl,rfl,hsent,hclosed,hk hfunds⟩
  · exact hfail hfunds

theorem hands_nonPayable {m : Msg} {c : Call} {o : Result} (h : Hands w c o) :
    Hands w c (nonPayable m o) := by
  unfold nonPayable
  split_ifs
  · exact h
  · trivial

theorem hands_callback {m : Msg} {d : Delivery} {fee : UInt256} {a : World}
    (h : Answering w d)
    (herror : d.error < 2 ∨ ¬(w.storage.requests d.requestId).fee.toNat ≤ w.balance)
    (hsent : w.sent <+: a.sent)
    (hclosed : (a.storage.requests d.requestId).fee = DELIVERED_FEE_FLAG)
    (haddr : (a.storage.requests d.requestId).callbackAddr =
      (w.storage.requests d.requestId).callbackAddr)
    (hfid : (a.storage.requests d.requestId).callbackFID =
      (w.storage.requests d.requestId).callbackFID) :
    Hands w (.message m (.deliver d.requestId d.paramsHash d.error d.respData))
      (callback m d fee a) := by
  unfold callback
  split_ifs
  · trivial
  · refine hands_callOut hsent hclosed (fun _ => ?_) (fun hfunds => absurd (Nat.zero_le _) hfunds)
    change Handing w _ _ (a.storage.requests d.requestId).callbackAddr 0
      (.callback (a.storage.requests d.requestId).callbackFID d)
    rw [haddr,hfid]
    exact .deliverCallback h herror

theorem hands_deliver {m : Msg} {requestId : UInt64} {paramsHash : Bytes32} {error : UInt64}
    {respData : Bytes32} : Hands w (.message m (.deliver requestId paramsHash error respData))
      (deliver m requestId paramsHash error respData w) := by
  unfold deliver Account.transfer
  dsimp only
  split_ifs with hguard hhash hcancelled hfunds herror hfunds
  · exact List.prefix_rfl
  · exact List.prefix_rfl
  · exact List.prefix_append _ _
  · trivial
  all_goals
    simp only [not_or,UInt64.not_le] at hguard
    have hanswer : Answering w ⟨m.sender,requestId,paramsHash,error,respData⟩ :=
      ⟨fun h => absurd hguard.2.1 (h ▸ UInt64.lt_irrefl 0),hguard.2.2.1,hguard.2.2.2,hcancelled⟩
  · refine hands_callback hanswer (.inl herror) (List.prefix_append _ _) ?_ ?_ ?_
    all_goals simp [markDelivered]
  · trivial
  · refine hands_callOut List.prefix_rfl ?_ (fun hfunds => ?_) (fun hfunds => ?_)
    · simp [Closed,markDelivered]
    · exact .deliverRefund (d := ⟨m.sender,requestId,paramsHash,error,respData⟩) hanswer herror hfunds
    · refine hands_callback hanswer (.inr hfunds) (List.prefix_append _ _) ?_ ?_ ?_
      all_goals simp [markDelivered]

theorem hands_start (keccak : Bytes → Bytes32) (c : Call) (w : World) :
    Hands w c (start keccak c w) := by
  cases c with
  | forced value => exact List.prefix_rfl
  | message m f =>
      by_cases hf : isSetting f = true
      · obtain ⟨w',hw',heq⟩ := start_setting keccak w m hf
        rw [heq]
        refine hands_nonPayable ?_
        rw [Hands,hw'.sent]
      cases f with
      | fallback | upgrade | reset | suspend | restart => exact absurd rfl hf
      | withdraw =>
          refine hands_nonPayable ?_
          unfold withdraw
          split_ifs
          · exact hands_callOut List.prefix_rfl trivial (fun _ => .withdraw) fun _ => trivial
          · exact List.prefix_rfl
      | request =>
          unfold start request
          dsimp only
          split_ifs
          · trivial
          · exact hands_callOut List.prefix_rfl trivial (fun _ => .requestKilled) fun _ => trivial
          · exact hands_callOut List.prefix_rfl trivial (fun _ => .requestUnderpaid) fun _ => trivial
          · exact List.prefix_rfl
      | deliver => exact hands_nonPayable hands_deliver
      | cancel =>
          refine hands_nonPayable ?_
          unfold cancel
          dsimp only
          split_ifs
          · trivial
          · exact List.prefix_rfl
          · exact hands_callOut List.prefix_rfl trivial (fun _ => .cancelRefund) fun _ => trivial
          · exact List.prefix_rfl

theorem advance_start (c : Call) : (start keccak c w).All (Advance keccak w c) fun _ => True := by
  have heffect : (start keccak c w).All (Effect keccak w c) fun _ => True := effect_start c
  have hhands := hands_start keccak c w
  have hkept : Kept (code keccak) Versioned (fun _ => True) [] := kept_versioned
  have hversion : Versioned w → (start keccak c w).All Versioned fun _ => True :=
    hkept.start c w (.inl rfl)
  generalize start keccak c w = o at heffect hhands hversion
  cases o with
  | done r w' => exact ⟨heffect,hhands,hversion⟩
  | revert => trivial
  | call saved handover k =>
      obtain ⟨x,r,v,p,rfl,rfl,hsent,-,-⟩ := hhands
      refine ⟨⟨heffect.1,?_,fun h => (hversion h).1⟩,⟨heffect.2.1,?_,fun h => (hversion h).2.1⟩,trivial⟩
      all_goals exact hsent.trans (List.prefix_append _ _)

/-- A continuation leaves the records alone. The one of the refund ends with the
callback, all others return. -/
theorem resume_cases (k : Kont) (answer : Option Unit) (w : World) :
    resume k answer w = .revert ∨
    (∃ r w', resume k answer w = .done r w' ∧ Same w w' ∧ w'.sent = w.sent ∧
      w'.storage.newVersion = w.storage.newVersion) ∨
    ∃ m d fee x, k = .deliverRefund m d fee ∧ Same w x ∧ x.sent = w.sent ∧
      x.storage.newVersion = w.storage.newVersion ∧
      resume k answer w = .call
        (x.keep (w.storage.requests d.requestId).callbackAddr 0
          (.callback (w.storage.requests d.requestId).callbackFID d))
        (x.pay (w.storage.requests d.requestId).callbackAddr 0
          (.callback (w.storage.requests d.requestId).callbackFID d)) .deliverCallback := by
  cases k with
  | deliverRefund m d fee =>
      change (callback m d fee (setFlag w false) = _) ∨ _
      by_cases hgas : m.gasPrice = 0
      · exact .inl (if_pos hgas)
      · refine .inr (.inr ⟨m,d,fee,setFlag ((setFlag w false).emit (.deliverInfo d.requestId fee
          m.gasPrice m.gasLeft ((fee-w.storage.minFee)/m.gasPrice) d.paramsHash d.error
          d.respData)) true,rfl,⟨by simp [Event.info?],rfl,rfl⟩,rfl,rfl,?_⟩)
        change callback m d fee (setFlag w false) = _
        unfold callback Account.callOut
        rw [if_neg hgas]
        exact if_pos (Nat.zero_le _)
  | deliverCallback => exact .inr (.inl ⟨_,_,rfl,⟨rfl,rfl,rfl⟩,rfl,rfl⟩)
  | cancelRefund m requestId =>
      cases answer with
      | none => exact .inl rfl
      | some _ => exact .inr (.inl ⟨_,_,rfl,⟨by simp [Event.info?],rfl,rfl⟩,rfl,rfl⟩)
  | requestKilled | requestUnderpaid | withdraw =>
      cases answer with
      | none => exact .inl rfl
      | some _ => exact .inr (.inl ⟨_,_,rfl,⟨rfl,rfl,rfl⟩,rfl,rfl⟩)

theorem Assigned.refl (w : World) : Assigned w w := fun _ h => ⟨h,rfl⟩

theorem Assigned.trans {w₁ w₂ w₃ : World} (h : Assigned w₁ w₂) (h' : Assigned w₂ w₃) :
    Assigned w₁ w₃ := by
  intro id hid
  obtain ⟨h₂,hrequester⟩ := h id hid
  obtain ⟨h₃,hrequester'⟩ := h' id h₂
  exact ⟨h₃,hrequester'.trans hrequester⟩

theorem Same.used (h : Same w w') (id : UInt64) : Used w' id ↔ Used w id := by
  rw [Used,Used,h.requestCnt]

theorem Same.assigned (h : Same w w') : Assigned w w' := by
  intro id hid
  rw [h.used,h.requests]
  exact ⟨hid,rfl⟩

theorem Same.numbered (h : Same w w') (hw : Numbered w) : Numbered w' := by
  intro id hne hid
  rw [h.used]
  exact hw id hne (h.requests ▸ hid)

/-- The next number has not been given away. -/
theorem fresh_unused (h : w.storage.requestCnt ≠ 0) : ¬Used w w.storage.requestCnt := by
  rintro ⟨-,hcnt | hlt⟩
  · exact h hcnt
  · exact UInt64.lt_irrefl _ hlt

theorem setFee_requester (s : Storage) (id j : UInt64) (fee : UInt256) :
    ((s.setFee id fee).requests j).requester = (s.requests j).requester := by
  by_cases h : j = id
  · subst h
    simp
  · simp [Function.update_of_ne h]

theorem numbered_setFee (hw : Numbered w) {id : UInt64} {fee : UInt256} :
    Numbered (w.set (w.storage.setFee id fee)) ∧ Assigned w (w.set (w.storage.setFee id fee)) := by
  refine ⟨fun j hne hj => ?_,fun j hj => ⟨hj,setFee_requester w.storage id j fee⟩⟩
  rw [Account.storage_set,setFee_requester] at hj
  exact hw j hne hj

theorem numbered_record (hw : Numbered w) {m : Msg} {requestType : UInt8} {callbackAddr : Address}
    {callbackFID : Bytes4} {timestamp : UInt256} {requestData : List Bytes32}
    (hcnt : w.storage.requestCnt ≠ 0) :
    Numbered (record keccak m requestType callbackAddr callbackFID timestamp requestData
      (w.credit m.value)).2 ∧
    Used (record keccak m requestType callbackAddr callbackFID timestamp requestData
      (w.credit m.value)).2 w.storage.requestCnt ∧
    Assigned w (record keccak m requestType callbackAddr callbackFID timestamp requestData
      (w.credit m.value)).2 := by
  set w' := (record keccak m requestType callbackAddr callbackFID timestamp requestData
      (w.credit m.value)).2
  have hcnt' : w'.storage.requestCnt = w.storage.requestCnt+1 := rfl
  have hother : ∀ id, id ≠ w.storage.requestCnt → w'.storage.requests id = w.storage.requests id :=
    fun id hne => Function.update_of_ne hne _ _
  have hused : ∀ id, Used w id → Used w' id := by
    rintro id ⟨hne,hlt⟩
    refine ⟨hne,?_⟩
    rw [hcnt']
    exact lt_next (UInt64.le_of_lt (hlt.resolve_left hcnt))
  have hself : Used w' w.storage.requestCnt := by
    refine ⟨hcnt,?_⟩
    rw [hcnt']
    exact lt_next UInt64.le_rfl
  refine ⟨fun id hne hid => ?_,hself,fun id hid => ⟨hused id hid,?_⟩⟩
  · by_cases heq : id = w.storage.requestCnt
    · rw [heq]
      exact hself
    · rw [hother id heq] at hid
      exact hused id (hw id hne hid)
  · rw [hother id]
    rintro rfl
    exact fresh_unused hcnt hid

/-- Numbers are given away one after the other, each once. -/
theorem Effect.numbered {c : Call} (h : Effect keccak w c w') (hc : Counted w c)
    (hw : Numbered w) : Numbered w' ∧ Assigned w w' := by
  cases h with
  | same h => exact ⟨h.numbered hw,h.assigned⟩
  | recorded hflag hkill hfee h =>
      obtain ⟨hnumbered,-,hassigned⟩ := numbered_record hw (hc hflag hkill hfee)
      exact ⟨h.numbered hnumbered,hassigned.trans h.assigned⟩
  | cancelled _ _ _ _ _ h =>
      obtain ⟨hnumbered,hassigned⟩ := numbered_setFee hw
      exact ⟨h.numbered hnumbered,hassigned.trans h.assigned⟩
  | delivered _ h =>
      obtain ⟨hnumbered,hassigned⟩ := numbered_setFee hw
      exact ⟨h.numbered hnumbered,hassigned.trans h.assigned⟩

/-- A delivery leaves in place who is called back, and how. -/
theorem Effect.callback {m : Msg} {requestId : UInt64} {paramsHash : Bytes32} {error : UInt64}
    {respData : Bytes32}
    (h : Effect keccak w (.message m (.deliver requestId paramsHash error respData)) w')
    (id : UInt64) :
    (w'.storage.requests id).callbackAddr = (w.storage.requests id).callbackAddr ∧
      (w'.storage.requests id).callbackFID = (w.storage.requests id).callbackFID := by
  cases h with
  | same h => rw [h.requests]; exact ⟨rfl,rfl⟩
  | delivered _ h =>
      rw [h.requests]
      by_cases hid : id = requestId
      · subst hid
        simp
      · simp [Function.update_of_ne hid]

/-- Others can only have the fee of a record delivered. -/
theorem Effect.fee {c : Call} (h : Effect keccak w c w') (hc : Counted w c) {id : UInt64}
    (hid : Used w id)
    (hsender : ∀ m f, c = .message m f → m.sender ≠ (w.storage.requests id).requester) :
    (w'.storage.requests id).fee = (w.storage.requests id).fee ∨
      (w'.storage.requests id).fee = DELIVERED_FEE_FLAG := by
  cases h with
  | same h => exact .inl (by rw [h.requests])
  | recorded hflag hkill hfee h =>
      left
      rw [h.requests]
      have hne : id ≠ w.storage.requestCnt := by
        rintro rfl
        exact fresh_unused (hc hflag hkill hfee) hid
      simp [record,Function.update_of_ne hne]
  | @cancelled m requestId _ _ _ _ hrequester _ h =>
      left
      rw [h.requests]
      have hne : id ≠ requestId := by
        rintro rfl
        exact hsender m _ rfl hrequester.symm
      simp [Function.update_of_ne hne]
  | @delivered m requestId _ _ _ _ _ h =>
      rw [h.requests]
      by_cases hne : id = requestId
      · right
        subst hne
        simp
      · left
        simp [Function.update_of_ne hne]

theorem numbered_constructor (owner : Address) (balance : ℕ) :
    Numbered (constructor owner balance) := by
  intro id hne hid
  simp [constructor,Function.update_of_ne hne] at hid

end TownCrier.Contract
