import TownCrier.Life

/-!
# Winding down

While a request is open, the owner can neither withdraw nor upgrade. The enclave
can always end this alone: whichever open request it answers next and with what,
the call succeeds, and unless it runs out of gas it closes this request and no
other, whatever the code does that it calls.
-/
namespace TownCrier.Contract
open BigEndian CallMachine Evm Ledger

/-- One request is closed; all other records are as before. -/
structure Closes (w : World) (id : UInt64) (w' : World) : Prop where
  requests : w'.storage.requests = (w.storage.setFee id DELIVERED_FEE_FLAG).requests
  requestCnt : w'.storage.requestCnt = w.storage.requestCnt
  unrespondedCnt : w'.storage.unrespondedCnt = w.storage.unrespondedCnt-1

/-- The enclave answers an open request, with whatever it has found. -/
structure Answers (w : World) (m : Msg) (id : UInt64) : Prop where
  sender : m.sender = SGX_ADDRESS
  value : m.value = 0
  gasPrice : m.gasPrice ≠ 0
  fee : (w.storage.requests id).fee ≠ DELIVERED_FEE_FLAG

def answerCall (w : World) (m : Msg) (id error : UInt64) (respData : Bytes32) : Call :=
  .message m (.deliver id (w.storage.requests id).paramsHash error respData)

/-- The enclave answers in any order, and other code does what it wants; after
this many deliveries everything is settled. -/
def Drains (keccak : Bytes → Bytes32) : ℕ → World → Prop
  | 0, w => w.storage.unrespondedCnt = 0 ∧ ∀ id, (w.storage.requests id).fee = DELIVERED_FEE_FLAG
  | n+1, w => (∃ id, (w.storage.requests id).fee ≠ DELIVERED_FEE_FLAG) ∧
      ∀ m id error respData, Answers w m id →
        (∃ result w', Returns (code keccak) Admissible w []
          (start keccak (answerCall w m id error respData) w) result w') ∧
        ∀ result w', Returns (code keccak) Admissible w []
          (start keccak (answerCall w m id error respData) w) result w' →
          Closes w id w' ∧ Drains keccak n w'

/-- No message comes from the address zero. -/
def Sender : Call → Prop
  | .message m _ => m.sender ≠ 0
  | .forced _ => True

def Signed (s : Config World Kont) (a : Action Call Unit) (s' : Config World Kont) : Prop :=
  Admissible s a s' ∧ ∀ c, a = .call c → Sender c

/-- Every accepted request has a requester, so `deliver` takes it for a request. -/
def Named (w : World) : Prop :=
  ∀ id : UInt64, id ≠ 0 → id < w.storage.requestCnt → (w.storage.requests id).requester ≠ 0

variable {keccak : Bytes → Bytes32} {w r x e w' : World} {id : UInt64}

theorem Closes.kept (h : Closes w id r) (hrequests : x.storage.requests = r.storage.requests)
    (hcnt : x.storage.requestCnt = r.storage.requestCnt)
    (hopen : x.storage.unrespondedCnt = r.storage.unrespondedCnt) : Closes w id x :=
  ⟨hrequests.trans h.requests,hcnt.trans h.requestCnt,hopen.trans h.unrespondedCnt⟩

section
variable {allowed : Config World Kont → Action Call Unit → Config World Kont → Prop}
  {rest : List (Frame World Kont)} {result : Option ℤ}

/-- While the lock is up, the code that is called leaves the records alone, and what
has been sent before. -/
theorem returns_shut {a : World} {recipient : Address} {v : UInt256} {p : Purpose} {k : Kont}
    {onFailure : World → Result}
    (h : Returns (code keccak) allowed e rest (a.callOut recipient v p k onFailure) result w')
    (hflag : a.storage.externalCallFlag = true) :
    (∃ answer x success, Shut {a with sent := a.sent++[⟨recipient,v,p,success⟩]} x ∧
      Returns (code keccak) allowed e rest (resume k answer x) result w') ∨
    Returns (code keccak) allowed e rest (onFailure (a.keep recipient v p)) result w' := by
  unfold Account.callOut at h
  split_ifs at h
  · cases h with
    | @resumed _ _ _ x _ _ answer hduring h' =>
        have hkept : Kept (code keccak) (Shut (a.pay recipient v p)) (fun k => locks k = false)
            (.code e (a.keep recipient v p) k::rest) := kept_shut (List.cons_ne_nil _ _)
        have hshut := hkept.during ⟨hflag,rfl,rfl,rfl,List.prefix_rfl⟩ hduring
        cases answer with
        | none => exact .inl ⟨none,a.keep recipient v p,false,⟨hflag,rfl,rfl,rfl,List.prefix_rfl⟩,h'⟩
        | some u =>
            obtain ⟨hflag',hrequests,hcnt,hopen,hsent⟩ := hshut.1
            exact .inl ⟨some u,x,true,⟨hflag',hrequests,hcnt,hopen,hsent⟩,h'⟩
  · exact .inr h

theorem returns_closes {a : World} {recipient : Address} {v : UInt256} {p : Purpose} {k : Kont}
    {onFailure : World → Result}
    (h : Returns (code keccak) allowed e rest (a.callOut recipient v p k onFailure) result w')
    (hflag : a.storage.externalCallFlag = true) (hc : Closes w id a) :
    (∃ answer x, Closes w id x ∧
      Returns (code keccak) allowed e rest (resume k answer x) result w') ∨
    Returns (code keccak) allowed e rest (onFailure (a.keep recipient v p)) result w' := by
  refine (returns_shut h hflag).imp_left ?_
  rintro ⟨answer,x,success,hshut,h'⟩
  exact ⟨answer,x,hc.kept hshut.requests hshut.requestCnt hshut.unrespondedCnt,h'⟩

theorem closes_callback {m : Msg} {d : Delivery} {fee : UInt256} {a : World}
    (h : Returns (code keccak) allowed e rest (callback m d fee a) result w')
    (hc : Closes w id a) : Closes w id w' := by
  unfold callback at h
  split_ifs at h with hgas
  · cases h
  · rcases returns_closes h rfl (hc.kept rfl rfl rfl) with ⟨answer,x,hx,h'⟩ | h'
    · cases h'
      exact hx.kept rfl rfl rfl
    · cases h'
      exact hc.kept rfl rfl rfl

theorem callback_returns {m : Msg} (hgas : m.gasPrice ≠ 0) (d : Delivery) (fee : UInt256)
    (a : World) : ∃ result w', Returns (code keccak) allowed e rest (callback m d fee a) result w' := by
  rw [callback,if_neg hgas,Account.callOut_zero]
  exact ⟨_,_,.resumed (some ()) .start .done⟩

/-- If the code that is called does nothing, an answer comes back. -/
theorem answer_returns {m : Msg} {error : UInt64} {respData : Bytes32} (hm : Answers w m id)
    (hne : start keccak (answerCall w m id error respData) w ≠ .revert) :
    ∃ result w', Returns (code keccak) allowed e rest
      (start keccak (answerCall w m id error respData) w) result w' := by
  rw [answerCall,start,nonPayable,if_pos hm.value] at hne ⊢
  unfold deliver Account.transfer Account.callOut at hne ⊢
  dsimp only at hne ⊢
  split_ifs at hne ⊢
  · exact ⟨_,_,.done⟩
  · exact ⟨_,_,.done⟩
  · exact ⟨_,_,.done⟩
  · exact absurd rfl hne
  · exact callback_returns hm.gasPrice _ _ _
  · exact absurd rfl hne
  · obtain ⟨result,w',h⟩ := callback_returns hm.gasPrice _ _ _
    exact ⟨result,w',.resumed (some ()) .start h⟩
  · exact callback_returns hm.gasPrice _ _ _

theorem closes_deliver {m : Msg} {error : UInt64} {respData : Bytes32} (hm : Answers w m id)
    (hid : id ≠ 0) (hrequester : (w.storage.requests id).requester ≠ 0)
    (h : Returns (code keccak) allowed e rest (start keccak (answerCall w m id error respData) w)
      result w') : Closes w id w' := by
  have hmark : Closes w id (markDelivered w id) := ⟨rfl,rfl,rfl⟩
  have hguard : ¬(m.sender ≠ SGX_ADDRESS ∨ id ≤ 0 ∨ (w.storage.requests id).requester = 0 ∨
      (w.storage.requests id).fee = DELIVERED_FEE_FLAG) := by
    rintro (h | h | h | h)
    · exact h hm.sender
    · exact hid (UInt64.le_zero_iff.mp h)
    · exact hrequester h
    · exact hm.fee h
  rw [answerCall,start,nonPayable,if_pos hm.value,deliver] at h
  dsimp only at h
  rw [if_neg hguard,if_neg (not_not.mpr rfl)] at h
  unfold Account.transfer at h
  split_ifs at h with hcancelled hfunds herror hfunds
  · cases h
    exact ⟨rfl,rfl,rfl⟩
  · cases h
  · exact closes_callback h (hmark.kept rfl rfl rfl)
  · cases h
  · rcases returns_closes h rfl (hmark.kept rfl rfl rfl) with ⟨answer,x,hx,h'⟩ | h'
    · exact closes_callback h' (hx.kept rfl rfl rfl)
    · exact closes_callback h' (hmark.kept rfl rfl rfl)

end

theorem Good.kept (hw : Good w) (hinfos : infos x = infos w)
    (hmin : x.storage.minFee = w.storage.minFee)
    (hcancel : x.storage.cancellationFee = w.storage.cancellationFee) : Good x :=
  ⟨hinfos ▸ hw.accepted,hmin ▸ hw.minFee,hcancel ▸ hw.cancellationFee⟩

theorem good_callback (hw : Good w) {m : Msg} {d : Delivery} {fee : UInt256} :
    (callback m d fee w).All Good fun _ => True := by
  unfold callback
  split_ifs
  · trivial
  · refine Account.all_callOut _ (hw.kept ?_ rfl rfl) (hw.kept ?_ rfl rfl) trivial (hw.kept ?_ rfl rfl)
    all_goals simp [Event.info?]

theorem good_resume (k : Kont) (answer : Option Unit) (w : World) (hw : Good w) :
    (resume k answer w).All Good fun _ => True := by
  cases k with
  | deliverRefund m d fee => exact good_callback (hw.kept rfl rfl rfl)
  | deliverCallback => exact hw.kept rfl rfl rfl
  | cancelRefund m requestId =>
      cases answer with
      | none => trivial
      | some _ => exact hw.kept (by simp [Event.info?]) rfl rfl
  | requestKilled | requestUnderpaid | withdraw =>
      cases answer with
      | none => trivial
      | some _ => exact hw.kept rfl rfl rfl

theorem good_deliver (hw : Good w) {m : Msg} {paramsHash : Bytes32} {error : UInt64}
    {respData : Bytes32} :
    (start keccak (.message m (.deliver id paramsHash error respData)) w).All Good
      fun _ => True := by
  have hmark : Good (markDelivered w id) := hw.kept rfl rfl rfl
  refine all_nonPayable ?_
  unfold deliver Account.transfer
  dsimp only
  split_ifs
  · exact hw
  · exact hw
  · exact hw.kept rfl rfl rfl
  · trivial
  · refine good_callback ?_
    exact hmark.kept rfl rfl rfl
  · trivial
  · refine Account.all_callOut _ (hmark.kept rfl rfl rfl) (hmark.kept rfl rfl rfl) trivial ?_
    refine good_callback ?_
    exact hmark.kept rfl rfl rfl

/-- What an answer leads to is part of a run. -/
theorem answer_reach (hw : Inv keccak w) (hflag : w.storage.externalCallFlag = false)
    (hgood : Good w) {m : Msg} {error : UInt64} {respData : Bytes32} {result : Option ℤ}
    (h : Returns (code keccak) Admissible w [] (start keccak (answerCall w m id error respData) w)
      result w') :
    Inv keccak w' ∧ w'.storage.externalCallFlag = false ∧ Good w' := by
  have hall : (start keccak (answerCall w m id error respData) w).All Good fun _ => True :=
    good_deliver hgood
  have hreach : Reach (code keccak) Admissible w
      (settle w [] (start keccak (answerCall w m id error respData) w)) :=
    .step (.call (answerCall w m id error respData)) .start rfl (hall.settle hgood)
  obtain ⟨hgood',hreach'⟩ := Returns.reach good_resume hgood h hall hreach
  have hkept := (sound keccak hw hflag).reach (fun _ _ _ h => h) hreach'
  exact ⟨hkept.1,hkept.2.flag.trans hflag,hgood'⟩

theorem Same.named (h : Same w w') (hw : Named w) : Named w' := by
  intro id hid hlt
  rw [h.requestCnt] at hlt
  rw [h.requests]
  exact hw id hid hlt

theorem named_setFee (hw : Named w) (id : UInt64) (fee : UInt256) :
    Named (w.set (w.storage.setFee id fee)) := by
  intro j hj hlt
  have hrequester := hw j hj hlt
  change (Function.update w.storage.requests id _ j).requester ≠ 0
  by_cases h : j = id
  · rw [h,Function.update_self]
    rw [h] at hrequester
    exact hrequester
  · rw [Function.update_of_ne h]
    exact hrequester

theorem named_record (hw : Named w) {m : Msg} (hsender : m.sender ≠ 0) {requestType : UInt8}
    {callbackAddr : Address} {callbackFID : Bytes4} {timestamp : UInt256}
    {requestData : List Bytes32} :
    Named (record keccak m requestType callbackAddr callbackFID timestamp requestData w).2 := by
  intro j hj hlt
  change (Function.update w.storage.requests w.storage.requestCnt _ j).requester ≠ 0
  by_cases h : j = w.storage.requestCnt
  · rw [h,Function.update_self]
    exact hsender
  · rw [Function.update_of_ne h]
    refine hw j hj ?_
    have hbound : j.toNat < (w.storage.requestCnt+1).toNat := hlt
    rw [UInt64.toNat_add,UInt64.toNat_one] at hbound
    have hne : j.toNat ≠ w.storage.requestCnt.toNat := fun heq => h (UInt64.toNat_inj.mp heq)
    rw [UInt64.lt_iff_toNat_lt]
    have := w.storage.requestCnt.toNat_lt
    omega

theorem Effect.named {c : Call} (h : Effect keccak w c w') (hc : Sender c) (hw : Named w) :
    Named w' := by
  cases h with
  | same h => exact h.named hw
  | recorded _ _ _ h => exact h.named (named_record (show Named (w.credit _) from hw) hc)
  | cancelled _ _ _ _ _ h => exact h.named (named_setFee hw _ _)
  | delivered _ h => exact h.named (named_setFee hw _ _)

theorem kept_named : Kept ((code keccak).restrict fun c _ => Sender c) Named (fun _ => True) [] where
  start := by
    intro c w _ hw
    unfold Code.restrict
    dsimp only
    split
    next hc => exact (effect_start c).mono (fun w' h => h.named hc hw) fun _ h => h
    next => trivial
  resume := fun k a w _ hw => (same_resume k a).mono (fun _ h => h.named hw) fun _ h => h

theorem Closes.named (h : Closes w id w') (hw : Named w) : Named w' := by
  intro j hj hlt
  rw [h.requestCnt] at hlt
  rw [h.requests]
  exact named_setFee hw id DELIVERED_FEE_FLAG j hj hlt

theorem exists_open (hw : Inv keccak w) (h : w.storage.unrespondedCnt.toNat ≠ 0) :
    ∃ id, (w.storage.requests id).fee ≠ DELIVERED_FEE_FLAG := by
  by_contra hall
  rw [not_exists] at hall
  have hzero : totalPending w = 0 := by
    rw [totalPending,total_eq_zero _ (Inv.cnt_le w)]
    intro id _ _
    rw [pending_eq_zero]
    exact not_not.mp (hall id)
  exact h (hw.counter.trans hzero)

theorem drains_of_inv {n : ℕ} (hw : Inv keccak w) (hflag : w.storage.externalCallFlag = false)
    (hgood : Good w) (hnamed : Named w) (hcnt : w.storage.unrespondedCnt.toNat = n) :
    Drains keccak n w := by
  induction n generalizing w with
  | zero =>
      have hzero : w.storage.unrespondedCnt = 0 := UInt64.toNat_inj.mp hcnt
      exact ⟨hzero,hw.all_settled hzero⟩
  | succ n ih =>
      refine ⟨exists_open hw (by omega),?_⟩
      intro m id error respData hm
      have hrange : ¬(id = 0 ∨ w.storage.requestCnt ≤ id) := fun h => hm.fee (hw.unused id h).1
      rw [not_or,UInt64.not_le] at hrange
      constructor
      · refine answer_returns hm ?_
        rw [answerCall,start,nonPayable,if_pos hm.value]
        exact deliver_funded hw hm.gasPrice
      · intro result w' hret
        have hcloses := closes_deliver hm hrange.1 (hnamed id hrange.1 hrange.2) hret
        obtain ⟨hw',hflag',hgood'⟩ := answer_reach hw hflag hgood hret
        refine ⟨hcloses,ih hw' hflag' hgood' (hcloses.named hnamed) ?_⟩
        have hone : (1 : UInt64) ≤ w.storage.unrespondedCnt :=
          UInt64.le_iff_toNat_le.mpr (by rw [hcnt,UInt64.toNat_one]; omega)
        rw [hcloses.unrespondedCnt,UInt64.toNat_sub_of_le _ _ hone,hcnt,UInt64.toNat_one]
        omega

variable {owner : Address} {balance : ℕ} {s : Config World Kont}

theorem signed_run (h : Reach (code keccak) Signed (constructor owner balance) s) :
    Run keccak owner balance s ∧ Named s.world := by
  constructor
  · induction h with
    | start => exact .start
    | step a _ hs ha ih => exact .step a ih hs ha.1
  · have hconstructor : Named (constructor owner balance) := by
      intro id hid hlt
      have hlt' : id.toNat < 1 := hlt
      exact absurd (UInt64.toNat_inj.mp (show id.toNat = (0 : UInt64).toNat by
        rw [UInt64.toNat_zero]; omega)) hid
    exact (kept_named.reach hconstructor (h.restrict fun _ _ _ h => h.2 _ rfl)).1

/-- Between two transactions the enclave can settle all open requests, in any
order and with any answers: each delivery can return, one that does so
closes its request and no other, and as many deliveries as the counter says are
enough, whatever the code does that they call. -/
theorem wind_down (h : Reach (code keccak) Signed (constructor owner balance) s)
    (hstack : s.stack = []) :
    Drains keccak s.world.storage.unrespondedCnt.toNat s.world := by
  obtain ⟨hrun,hnamed⟩ := signed_run h
  refine drains_of_inv (run_inv hrun) (run_flag hrun hstack) ?_ hnamed rfl
  have hinitial := initial_inv keccak owner balance
  cases h with
  | start => exact ⟨by norm_num [infos,constructor],hinitial.minFee,hinitial.cancellationFee⟩
  | step a _ _ ha => exact ha.1

theorem wind_down_requested : Drains (fun _ => 3) 1 requested.world := by
  have hsigned : Reach (code fun _ => 3) Signed (constructor 5 0) requested := by
    refine .step (.call requestCall) .start rfl ⟨⟨by decide,by decide,by decide⟩,?_⟩
    rintro c ⟨⟩
    exact (by decide : (7 : Address) ≠ 0)
  exact wind_down hsigned rfl

end TownCrier.Contract
