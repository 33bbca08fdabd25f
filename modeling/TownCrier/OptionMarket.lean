import TownCrier.Collateral
import TownCrier.Keccak
import TownCrier.Linked
import TownCrier.Votes

/-!
# An option and its oracle

The option asks the voting TownCrier for the price, and believes whatever this
contract calls it with. But the contract calls for everyone: whose request it is
that it answers, `settle` does not know. Where no other request names `settle`,
or a sale which costs nothing, as its callback, the option is settled by the answer
to its own request only, and once. What TownCrier takes for a request is a
parameter: with the constants of its source it never accepts that of `put`.
-/
namespace TownCrier.PutOption
open BigEndian CallMachine Evm Keccak PutOptions
open TownCrierVote (Tariff)

/-- Two contracts with code, unlike the accounts of the enclaves. -/
structure Addresses where
  vote : Address
  option : Address
  distinct : vote ≠ option
  vote_ne : vote ≠ 0
  option_ne : option ≠ 0
  vote_code : ¬TownCrierVote.isSgx vote
  option_code : ¬TownCrierVote.isSgx option

/-- Both contracts, and the requests which `put` has been given a number for. -/
structure Joint where
  vote : TownCrierVote.World
  option : World
  issued : List (UInt64 × ℕ)

abbrev JointCall := TownCrierVote.Call ⊕ Call
abbrev JointKont := TownCrierVote.Kont ⊕ Kont

def ofVote (w : Joint) : TownCrierVote.Result → Outcome (Option UInt64) Joint JointKont
  | .done r v => .done r {w with vote := v}
  | .revert => .revert
  | .call saved handover k => .call {w with vote := saved} {w with vote := handover} (.inl k)

def ofOption (w : Joint) : Result → Outcome (Option UInt64) Joint JointKont
  | .done _ o => .done none {w with option := o}
  | .revert => .revert
  | .call saved handover k => .call {w with option := saved} {w with option := handover} (.inr k)

/-- The function that a callback runs, with the words behind the selector. -/
def dispatch (fid : Bytes4) (requestId : UInt64) (response : Bytes32) : Function :=
  if fid = selector keccak256 "settle(uint64,bytes32)" then .settle requestId response
  else if fid = selector keccak256 "buy(uint256)" then .buy (BitVec.ofNat 256 requestId.toNat)
  else if fid = selector keccak256 "put()" then .put
  else if fid = selector keccak256 "recover()" then .recover
  else .view

/-- The selector that `put` gives is the one of `settle`. -/
theorem selector_settle : selector keccak256 "settle(uint64,bytes32)" = TC_CALLBACK_FID := by
  have h : selectorNat "settle(uint64,bytes32)" = TC_CALLBACK_FID := by decide +kernel
  rw [selector_short (by decide),h]

theorem dispatch_callback (requestId : UInt64) (response : Bytes32) :
    dispatch TC_CALLBACK_FID requestId response = .settle requestId response :=
  if_pos selector_settle.symm

/-- What a handover calls: the transfer that comes last is the message. -/
def callee (A : Addresses) : JointKont → Joint → JointCall → Prop
  | .inl _, w, .inl (.message m _) => ∃ t, w.vote.sent.getLast? = some t ∧
      Linked.Arrives t A.vote A.vote m
  | .inl _, w, .inr (.message m f _) => ∃ t fid d response, w.vote.sent.getLast? = some t ∧
      Linked.Arrives t A.vote A.option m ∧ t.purpose = .callback fid d response ∧
        f = dispatch fid d.requestId response
  | .inr _, w, .inl (.message m f) => ∃ t requestType fid data, w.option.sent.getLast? = some t ∧
      Linked.Arrives t A.option A.vote m ∧ t.purpose = .tcRequest requestType fid data ∧
        f = .request requestType A.option fid data
  | .inr _, w, .inr (.message m f _) => ∃ t, w.option.sent.getLast? = some t ∧
      Linked.Arrives t A.option A.option m ∧ f = .view
  | _, _, _ => False

def outside (A : Addresses) : JointKont → Joint → Prop
  | .inl _, w => ∃ t, w.vote.sent.getLast? = some t ∧
      t.recipient ≠ A.vote ∧ t.recipient ≠ A.option
  | .inr _, w => ∃ t, w.option.sent.getLast? = some t ∧
      t.recipient ≠ A.vote ∧ t.recipient ≠ A.option

def sender? : JointCall → Option Address
  | .inl (.message m _) | .inr (.message m _ _) => some m.sender
  | .inl (.forced _) | .inr (.forced _) => none

/-- Neither of the two contracts calls. -/
def Foreign (A : Addresses) (c : JointCall) : Prop :=
  ∀ sender, sender? c = some sender → sender ≠ A.vote ∧ sender ≠ A.option

section
variable (T : Tariff)

/-- TownCrier takes this for a request. -/
def Taken (value : UInt256) : Prop := TownCrierVote.MIN_FEE ≤ value ∧ value ≤ TownCrierVote.MAX_FEE

instance (value : UInt256) : Decidable (Taken T value) := inferInstanceAs (Decidable (_ ∧ _))

/-- The number that `put` does not look at, and how often it has been given. -/
def issue : Option (Option UInt64) → Joint → Joint
  | some (some id), w =>
      if Taken T TC_FEE then
        {w with issued := w.issued++[(id,(TownCrierVote.asked w.vote id).length)]}
      else w
  | _, w => w

/-- Every call may run out of the gas that comes with it. -/
def market (A : Addresses) : System JointCall (Option UInt64) Joint JointKont where
  start
    | .inl c, w => ofVote w (TownCrierVote.start keccak256 c w.vote)
    | .inr c, w => ofOption w (start c w.option)
  resume
    | .inl k, a, w => ofVote w (TownCrierVote.resume k (a.map fun _ => ()) w.vote)
    | .inr k, a, w => ofOption (issue T a w) (resume k (a.map fun _ => ()) w.option)
  callee := callee A
  outside := outside A
  external c := Foreign A c ∧ ∀ sender, sender? c = some sender → ¬TownCrierVote.isSgx sender
  transaction := Foreign A
  costly _ := True

def initial (voteBalance : ℕ) (o : World) : Joint := ⟨TownCrierVote.constructor voteBalance,o,[]⟩

/-- The selector is neither that of `settle` nor that of a sale without a price. -/
def Harmless (t : Terms) (id : UInt64) (fid : Bytes4) : Prop :=
  fid ≠ TC_CALLBACK_FID ∧ (fid = selector keccak256 "buy(uint256)" →
    t.maxUnits < BitVec.ofNat 256 id.toNat ∨ BitVec.ofNat 256 id.toNat*t.unitPrice ≠ 0)

/-- No request of others that is accepted has a callback which the option obeys. -/
def Unhooked (A : Addresses) (t : Terms) : JointCall → Joint → Prop
  | .inl (.message m (.request _ callbackAddr callbackFID _)), w =>
      m.sender ≠ A.option → Taken T m.value → callbackAddr = A.option →
        Harmless t w.vote.storage.requestCnt callbackFID
  | _, _ => True

end

/-- The callback is for a request of `put`. -/
def Answers (w : Joint) : Prop := ∃ t fid d response, w.vote.sent.getLast? = some t ∧
  t.purpose = .callback fid d response ∧ (d.requestId,d.round) ∈ w.issued

/-- The option was put before it expired. -/
def Exercised (w : World) : Prop := w.storage.optionPut = true ∧
  ∃ timestamp gas data, Event.put timestamp gas data ∈ w.logs ∧ timestamp < w.storage.EXPR_DATE

/-- Ether leaves between the two worlds. -/
def Moves (w w' : World) : Prop :=
  ∃ t ∈ w'.sent.drop w.sent.length, t.success = true ∧ t.value ≠ 0

/-- Each run of `settle` ends with an attempt to send the remainder. -/
def Purpose.settlement : Purpose → Bool
  | .remainder _ _ => true
  | _ => false

def settlements (w : World) : ℕ := w.sent.countP (·.purpose.settlement)

/-- `settle` moves ether for the answer to the request of `put` only, at most
once, and no other callback has any effect. -/
structure Guarded (A : Addresses) (c : JointCall) (w w' : Joint) : Prop where
  settles : ∀ m id price accepts, c = .inr (.message m (.settle id price) accepts) →
    Moves w.option w'.option → m.sender = A.vote ∧ Answers w ∧ Exercised w.option
  once : settlements w'.option ≤ 1
  callbacks : ∀ m f accepts, c = .inr (.message m f accepts) → m.sender = A.vote → ¬Answers w →
    w'.option = w.option

section Vote
open TownCrierVote
variable {T : Tariff} {w : TownCrierVote.World}

/-- Who is called back for a request and how, what there is for it, and how many
accepted requests have had its number. -/
structure Hook where
  callbackAddr : Address
  callbackFID : Bytes4
  fee : UInt256
  round : ℕ

def hook (T : Tariff) (w : TownCrierVote.World) (id : UInt64) : Hook :=
  let r := w.storage.requests id
  ⟨r.callbackAddr,r.callbackFID,r.fee,(asked w id).length⟩

/-- The transfer is the callback of a record. -/
structure CallsBack (h : Hook) (d : TownCrierVote.Delivery) (response : Bytes32)
    (t : Transfer TownCrierVote.Purpose) : Prop where
  value : t.value = 0
  recipient : t.recipient = h.callbackAddr
  purpose : t.purpose = .callback h.callbackFID d response
  round : d.round = h.round

/-- What a call of the voting TownCrier does to the callbacks. -/
inductive Hooking (T : Tariff) (w : TownCrierVote.World) :
    TownCrierVote.Call → TownCrierVote.Result → Prop
  | same {c r w'} (h : hook T w' = hook T w)
      (hc : ∀ m requestType callbackAddr callbackFID requestData,
        c = .message m (.request requestType callbackAddr callbackFID requestData) →
          ¬Taken T m.value) : Hooking T w c (.done r w')
  | recorded {m requestType callbackAddr callbackFID requestData w'} (hvalue : Taken T m.value)
      (h : hook T w' = Function.update (hook T w) w.storage.requestCnt
        ⟨callbackAddr,callbackFID,m.value,(hook T w w.storage.requestCnt).round+1⟩) :
      Hooking T w (.message m (.request requestType callbackAddr callbackFID requestData))
        (.done (some w.storage.requestCnt) w')
  | called {m paramsHash respData saved handover t response} {d : TownCrierVote.Delivery}
      (hfee : (hook T w d.requestId).fee ≠ 0)
      (hsaved : hook T saved =
        Function.update (hook T w) d.requestId {hook T w d.requestId with fee := 0})
      (hhandover : hook T handover =
        Function.update (hook T w) d.requestId {hook T w d.requestId with fee := 0})
      (ht : handover.sent.getLast? = some t) (hback : CallsBack (hook T w d.requestId) d response t) :
      Hooking T w (.message m (.deliver d.requestId paramsHash respData))
        (.call saved handover .deliverCallback)

theorem hook_emit {e : TownCrierVote.Event} (he : ∀ id, accepted id e = none) :
    hook T (w.emit e) = hook T w := by
  funext id
  unfold hook
  rw [asked_emit (he id)]
  rfl

theorem hook_send (a : Address) (v : UInt256) (p : TownCrierVote.Purpose) :
    hook T (TownCrierVote.send a v p w) = hook T w := by
  unfold TownCrierVote.send
  split_ifs <;> rfl

theorem hook_setRequest (id : UInt64) (r : Request) (w : TownCrierVote.World) :
    hook T (setRequest id r w) = Function.update (hook T w) id
      ⟨r.callbackAddr,r.callbackFID,r.fee,(hook T w id).round⟩ := by
  funext j
  by_cases hj : j = id
  · subst hj
    simp [hook,setRequest,asked]
  · simp [hook,setRequest,asked,Function.update_of_ne hj]

theorem hook_close (id : UInt64) (w : TownCrierVote.World) :
    hook T (setRequest id {w.storage.requests id with fee := 0} w) =
      Function.update (hook T w) id {hook T w id with fee := 0} := hook_setRequest _ _ _

/-- A record with the same callback and the same fee. -/
theorem hook_setSame {id : UInt64} {r : Request}
    (haddr : r.callbackAddr = (w.storage.requests id).callbackAddr)
    (hfid : r.callbackFID = (w.storage.requests id).callbackFID)
    (hfee : r.fee = (w.storage.requests id).fee) : hook T (setRequest id r w) = hook T w := by
  rw [hook_setRequest,haddr,hfid,hfee]
  exact Function.update_eq_self id (hook T w)

theorem hooking_conclude {m : Msg} {d : TownCrierVote.Delivery} {response : Bytes32}
    {x : TownCrierVote.World} (hx : hook T x = hook T w) (hfee : (hook T w d.requestId).fee ≠ 0)
    (hround : d.round = (hook T w d.requestId).round) {paramsHash respData : Bytes32} :
    Hooking T w (.message m (.deliver d.requestId paramsHash respData)) (conclude m d response x) := by
  unfold conclude
  dsimp only
  generalize hz : TownCrierVote.send m.sender _ _ _ = z
  have hhook : hook T z = hook T w := by
    rw [← hz,hook_send,hook_emit fun _ => rfl]
    exact hx
  have hclosed := hook_close (T := T) d.requestId z
  rw [hhook] at hclosed
  have hrecord := congrFun hhook d.requestId
  have hlast (e e' : TownCrierVote.Event) (he : ∀ id, accepted id e = none)
      (he' : ∀ id, accepted id e' = none) (y : TownCrierVote.World) :
      hook T ((y.emit e).emit e') = hook T y := (hook_emit he').trans (hook_emit he)
  rw [Account.callOut_zero]
  refine @Hooking.called T w m paramsHash respData _ _ _ response d hfee ?_ ?_ List.getLast?_concat
    ⟨rfl,?_,?_,hround⟩
  · exact (hlast _ _ (fun _ => rfl) (fun _ => rfl) _).trans hclosed
  · exact (hlast _ _ (fun _ => rfl) (fun _ => rfl) _).trans hclosed
  · rw [← hrecord]
    rfl
  · rw [← hrecord]
    rfl

theorem hooking_deliver (m : Msg) (requestId : UInt64) (paramsHash respData : Bytes32)
    {x : TownCrierVote.World} (hx : hook T x = hook T w) :
    Hooking T w (.message m (.deliver requestId paramsHash respData))
      (deliver m requestId paramsHash respData x) := by
  have hdone : ∀ w', hook T w' = hook T w → Hooking T w
      (.message m (.deliver requestId paramsHash respData)) (.done none w') := fun w' h =>
    .same h fun _ _ _ _ _ hc => by cases hc
  have hpaid : ∀ (r : Request) flag v p,
      r.callbackAddr = (x.storage.requests requestId).callbackAddr →
      r.callbackFID = (x.storage.requests requestId).callbackFID →
      r.fee = (x.storage.requests requestId).fee →
        hook T (TownCrierVote.send m.sender v p
          ((setRequest requestId r x).emit (.deliverLog m.sender flag))) = hook T w := by
    intro r flag v p haddr hfid hfee
    rw [hook_send,hook_emit fun _ => rfl,hook_setSame haddr hfid hfee]
    exact hx
  have hrecord := congrFun hx requestId
  unfold deliver turnAway
  dsimp only
  split_ifs with hfee
  · exact hdone _ (((hook_emit fun _ => rfl).trans (hook_emit fun _ => rfl)).trans hx)
  · exact hdone _ (((hook_emit fun _ => rfl).trans (hook_emit fun _ => rfl)).trans hx)
  · exact hdone _ (hpaid _ _ _ _ rfl rfl rfl)
  · exact hdone _ (hpaid _ _ _ _ rfl rfl rfl)
  · refine @hooking_conclude T w m ⟨_,requestId,_,_,_⟩ _ _ ((hook_emit fun _ => rfl).trans hx) ?_ ?_ _ _
    · rw [← hrecord]
      exact hfee
    · rw [← hrecord]
      rfl
  · refine @hooking_conclude T w m ⟨_,requestId,_,_,_⟩ _ _ ((hook_emit fun _ => rfl).trans hx) ?_ ?_ _ _
    · rw [← hrecord]
      exact hfee
    · rw [← hrecord]
      rfl
  · refine hdone _ ?_
    rw [hook_send]
    exact ((hook_emit fun _ => rfl).trans (hook_emit fun _ => rfl)).trans hx
  · exact hdone _ (((hook_emit fun _ => rfl).trans (hook_emit fun _ => rfl)).trans hx)

theorem hook_requestInfo {x : TownCrierVote.World} {info : TownCrierVote.RequestInfo}
    (hfee : Taken T info.fee) : hook T (x.emit (.requestInfo info)) =
      Function.update (hook T x) info.id
        {hook T x info.id with round := (hook T x info.id).round+1} := by
  funext j
  by_cases hj : j = info.id
  · subst hj
    simp [hook,asked,accepted,hfee.1,hfee.2]
  · simp [hook,asked,accepted,Function.update_of_ne hj,Ne.symm hj]

theorem hooking_start (c : TownCrierVote.Call) (w : TownCrierVote.World) :
    Hooking T w c (TownCrierVote.start keccak256 c w) := by
  cases c with
  | forced value => exact .same rfl fun _ _ _ _ _ hc => by cases hc
  | message m f =>
      cases f with
      | deliver id paramsHash respData => exact hooking_deliver m id paramsHash respData rfl
      | request requestType callbackAddr callbackFID requestData =>
          unfold TownCrierVote.start request
          dsimp only
          split_ifs with hfee
          · have hrefused : ¬Taken T m.value := by
              rintro ⟨hmin,hmax⟩
              exact hfee.elim (BitVec.not_lt.mpr hmin) (BitVec.not_lt.mpr hmax)
            refine .same ?_ ?_
            · rw [hook_emit fun _ => rfl,hook_emit,hook_emit fun _ => rfl]
              · rfl
              · intro id
                exact if_neg fun h => hrefused ⟨h.1,h.2.1⟩
            · intro _ _ _ _ _ hc
              cases hc
              exact hrefused
          · obtain ⟨hmin,hmax⟩ := not_or.mp hfee
            have htaken : Taken T m.value := ⟨BitVec.not_lt.mp hmin,BitVec.not_lt.mp hmax⟩
            have hentry : hook T ((w.credit m.value).emit (.requestLog 0)) = hook T w :=
              hook_emit fun _ => rfl
            refine .recorded htaken ?_
            rw [hook_emit fun _ => rfl,hook_requestInfo htaken,hook_setRequest,Function.update_idem,
              Function.update_self]
            exact congrArg (fun h : UInt64 → Hook => Function.update h w.storage.requestCnt
              ⟨callbackAddr,callbackFID,m.value,(h w.storage.requestCnt).round+1⟩) hentry

end Vote

section Option
variable {w w' w'' : World}

theorem settle_refused {m : Msg} (h : m.sender ≠ TC_CONTRACT w) (id : UInt64)
    (price : Bytes32) (accepts : Purpose → Bool) :
    start (.message m (.settle id price) accepts) w = .revert := if_pos h

/-- What code leaves that settles nothing. -/
structure Spared (w w' : World) : Prop where
  settlements : settlements w' = settlements w
  exercised : (w.storage.optionPut = true → Exercised w) → w'.storage.optionPut = true → Exercised w'

theorem settlements_tried {t : Transfer Purpose} (hsent : w'.sent = w.sent++[t]) :
    settlements w' = settlements w+if t.purpose.settlement = true then 1 else 0 := by
  rw [settlements,hsent,List.countP_append,List.countP_singleton]
  rfl

/-- Neither the list of transfers nor what `put` leaves has changed. -/
theorem spared_of (hsent : w'.sent = w.sent) (hlogs : w'.logs = w.logs)
    (hput : w'.storage.optionPut = w.storage.optionPut)
    (hdate : w'.storage.EXPR_DATE = w.storage.EXPR_DATE) : Spared w w' where
  settlements := by
    rw [settlements,hsent]
    rfl
  exercised h hopen := by
    unfold Exercised
    rw [hput,hlogs,hdate]
    exact h (hput ▸ hopen)

theorem Spared.tried (h : Spared w w') {t : Transfer Purpose} (hsent : w''.sent = w'.sent++[t])
    (ht : t.purpose.settlement = false) (hlogs : w''.logs = w'.logs)
    (hstorage : w''.storage = w'.storage) : Spared w w'' where
  settlements := by
    rw [settlements_tried hsent,ht]
    exact h.settlements
  exercised hw hopen := by
    unfold Exercised
    rw [hstorage] at hopen
    rw [hstorage,hlogs]
    exact h.exercised hw hopen

theorem Spared.send (h : Spared w w') {p : Purpose} (hp : p.settlement = false)
    (accepts : Purpose → Bool) (recipient : Address) (value : UInt256) :
    Spared w (send accepts recipient value p w') := by
  obtain ⟨b,hsent⟩ := sent_send accepts recipient value p w'
  exact h.tried hsent hp (logs_send accepts recipient value p w')
    (storage_send accepts recipient value p w')

/-- Only `settle` makes a settlement, and only for the oracle. -/
theorem spared_start (c : Call) (w : World)
    (hc : ∀ m id price accepts, c = .message m (.settle id price) accepts → m.sender ≠ TC_CONTRACT w) :
    (start c w).All (Spared w) fun _ => True := by
  cases c with
  | forced value => exact spared_of rfl rfl rfl rfl
  | message m f accepts =>
      cases f with
      | view => exact spared_of rfl rfl rfl rfl
      | buy n =>
          change (PutOptions.buy TC_FEE .issuerRefund accepts m n (w.credit m.value)).All _ _
          unfold PutOptions.buy
          split_ifs
          · trivial
          · have hsold : Spared w ((w.credit m.value).set
                {w.storage with buyer := m.sender, units := n}) := spared_of rfl rfl rfl rfl
            dsimp only
            split_ifs
            · exact hsold.send rfl _ _ _
            · exact hsold
      | put =>
          change (put m (w.credit m.value)).All _ _
          unfold put
          split_ifs with hguard
          · trivial
          · rw [not_or,not_or] at hguard
            have hput : Spared w (((w.credit m.value).set {w.storage with optionPut := true}).emit
                (.put m.timestamp m.gasLeft [w.storage.TICKER,m.timestamp])) :=
              ⟨rfl,fun _ _ => ⟨rfl,m.timestamp,m.gasLeft,_,List.mem_append_right _ (.head _),
                BitVec.not_le.mp hguard.2.1⟩⟩
            exact Account.all_callOut _ (hput.tried rfl rfl rfl rfl) (hput.tried rfl rfl rfl rfl) trivial
              trivial
      | settle id price =>
          rw [settle_refused (hc m id price accepts rfl)]
          trivial
      | recover =>
          change (PutOptions.recover .recovery accepts m (w.credit m.value)).All _ _
          unfold PutOptions.recover
          split_ifs
          · trivial
          · have hcancelled : Spared w ((w.credit m.value).set
                {w.storage with cancelled := true}) := spared_of rfl rfl rfl rfl
            exact hcancelled.send rfl _ _ _

/-- Only `put` calls out. -/
theorem call_put {c : Call} {w saved handover : World} {k : Kont}
    (h : start c w = .call saved handover k) : ∃ m accepts x data, c = .message m .put accepts ∧
      w.storage.optionPut = false ∧ handover.storage.optionPut = true ∧
      handover.sent.getLast? = some x ∧ x.recipient = TC_CONTRACT w ∧ x.value = TC_FEE ∧
      x.purpose = .tcRequest 1 TC_CALLBACK_FID data := by
  cases c with
  | forced value => cases h
  | message m f accepts =>
      cases f with
      | view => cases h
      | buy n =>
          obtain hbuy | ⟨w',hbuy⟩ := buy_cases m n accepts w
          · cases hbuy.symm.trans h
          · cases hbuy.symm.trans h
      | put =>
          change put m (w.credit m.value) = _ at h
          unfold put Account.callOut at h
          dsimp only at h
          split_ifs at h with hguard hfunds
          · rw [not_or,not_or] at hguard
            cases h
            exact ⟨m,accepts,_,_,rfl,Bool.eq_false_iff.mpr hguard.2.2,rfl,List.getLast?_concat,rfl,rfl,
              rfl⟩
          · cases h
      | settle id price =>
          change settle accepts m id price (w.credit m.value) = _ at h
          unfold settle at h
          dsimp only at h
          split_ifs at h
      | recover =>
          change PutOptions.recover .recovery accepts m (w.credit m.value) = _ at h
          unfold PutOptions.recover at h
          dsimp only at h
          split_ifs at h

/-- For the oracle, `settle` runs to its end. -/
theorem settle_done {m : Msg} (h : m.sender = TC_CONTRACT w) (id : UInt64) (price : Bytes32)
    (accepts : Purpose → Bool) : ∃ o, start (.message m (.settle id price) accepts) w = .done () o ∧
      o.storage = w.storage ∧ w.logs <+: o.logs ∧ settlements o = settlements w+1 := by
  have hfinish : ∀ x : World, x.storage = w.storage → w.logs <+: x.logs →
      settlements x = settlements w → ∃ o, (.done () (send accepts x.storage.ISSUER (thisBalance x)
        (.remainder id price) x) : Result) = .done () o ∧ o.storage = w.storage ∧ w.logs <+: o.logs ∧
          settlements o = settlements w+1 := by
    intro x hstorage hlogs hcount
    obtain ⟨b,hsent⟩ := sent_send accepts x.storage.ISSUER (thisBalance x) (.remainder id price) x
    refine ⟨_,rfl,(storage_send _ _ _ _ _).trans hstorage,?_,?_⟩
    · rw [logs_send]
      exact hlogs
    · rw [settlements_tried hsent,hcount]
      rfl
  change ∃ o, settle accepts m id price (w.credit m.value) = .done () o ∧ _
  unfold settle
  rw [if_neg (show ¬m.sender ≠ TC_CONTRACT (w.credit m.value) from not_not.mpr h)]
  dsimp only
  split_ifs with hprice
  · obtain ⟨b,hsent⟩ := sent_send accepts w.storage.buyer
      ((w.storage.STRIKE_PRICE-price)*w.storage.units) (.optionValue id price) (w.credit m.value)
    refine hfinish _ (storage_send _ _ _ _ _) ?_ (settlements_tried hsent)
    change w.logs <+: (send _ _ _ _ (w.credit m.value)).logs++[_]
    rw [logs_send]
    exact List.prefix_append _ _
  · exact hfinish _ rfl (List.prefix_append _ _) rfl

/-- What the option does with the callbacks that it does not obey. -/
theorem callback_start {m : Msg} {fid : Bytes4} {id : UInt64} {t : Terms} {w : World}
    (hvalue : m.value = 0) (hissuer : w.storage.ISSUER ≠ m.sender)
    (hbuyer : w.storage.buyer ≠ m.sender) (hagreed : Agreed t w) (hharmless : Harmless t id fid)
    (response : Bytes32) (accepts : Purpose → Bool) :
    start (.message m (dispatch fid id response) accepts) w = .revert ∨
      start (.message m (dispatch fid id response) accepts) w = .done () w := by
  have hcredit : w.credit m.value = w := by rw [hvalue]; rfl
  unfold dispatch
  rw [selector_settle,if_neg hharmless.1]
  split_ifs with hbuy
  · left
    refine if_pos (.inr (.inr (.inr ?_)))
    rcases hharmless.2 hbuy with hunits | hprice
    · exact .inl (lt_of_eq_of_lt hagreed.2.1 hunits)
    · refine .inr ?_
      rw [hvalue]
      change BitVec.ofNat 256 id.toNat*w.storage.UNIT_PRICE ≠ 0
      rw [hagreed.1]
      exact hprice
  · exact .inl (if_pos (.inl hbuyer.symm))
  · exact .inl (if_pos (.inl hissuer.symm))
  · right
    change Outcome.done () (w.credit m.value) = _
    rw [hcredit]

end Option

section Market
variable {T : Tariff} {A : Addresses} {t : Terms} {w : Joint}

/-- The record is the one that `put` has been given. -/
def Own (T : Tariff) (w : Joint) (id : UInt64) : Prop :=
  (hook T w.vote id).callbackFID = TC_CALLBACK_FID ∧ (id,(hook T w.vote id).round) ∈ w.issued

/-- No record but the own one has a callback that the option obeys, and while this
one is open nothing is settled. -/
structure Fenced (T : Tariff) (A : Addresses) (t : Terms) (w : Joint) : Prop where
  hooked : ∀ id, (hook T w.vote id).callbackAddr = A.option →
    Harmless t id (hook T w.vote id).callbackFID ∨ Own T w id
  agreed : Agreed t w.option
  oracle : TC_CONTRACT w.option = A.vote
  issuer : w.option.storage.ISSUER ≠ A.vote
  buyer : w.option.storage.buyer ≠ A.vote
  known : ∀ id round, (id,round) ∈ w.issued → round ≤ (hook T w.vote id).round
  single : w.issued.length ≤ 1
  put : w.issued ≠ [] → w.option.storage.optionPut = true
  exercised : w.option.storage.optionPut = true → Exercised w.option
  unissued : w.issued = [] → settlements w.option = 0
  pending : ∀ id, Own T w id → (hook T w.vote id).fee ≠ 0 → settlements w.option = 0
  once : settlements w.option ≤ 1

/-- What other code, and either contract, may call. -/
inductive Admissible (T : Tariff) (A : Addresses) (t : Terms) : JointCall → Joint → Prop
  | foreign {c w} (h : Foreign A c) : Admissible T A t c w
  | self {m f w} (h : m.sender = A.vote) : Admissible T A t (.inl (.message m f)) w
  | asked {m requestType data w} (h : m.sender = A.option) (hvalue : m.value = TC_FEE)
      (hput : w.option.storage.optionPut = true) (hissued : w.issued = []) :
      Admissible T A t (.inl (.message m (.request requestType A.option TC_CALLBACK_FID data))) w
  | callback {m fid id response accepts w} (h : m.sender = A.vote) (hvalue : m.value = 0)
      (hharmless : Harmless t id fid) :
      Admissible T A t (.inr (.message m (dispatch fid id response) accepts)) w
  | answered {m id response accepts w} (h : m.sender = A.vote) (hanswers : Answers w)
      (hclosed : ∀ id, Own T w id → (hook T w.vote id).fee = 0)
      (hunsettled : settlements w.option = 0) :
      Admissible T A t (.inr (.message m (.settle id response) accepts)) w

/-- What a call leaves behind. After a request of the option, `put` goes on. -/
structure Left (T : Tariff) (A : Addresses) (t : Terms) (c : JointCall) (w : Joint)
    (a : Option (Option UInt64)) (w' : Joint) : Prop where
  fenced : sender? c ≠ some A.option → Fenced T A t w'
  issued : sender? c = some A.option → Fenced T A t (issue T a w')
  settle : ∀ m id price accepts, c = .inr (.message m (.settle id price) accepts) →
    w'.option = w.option ∨ m.sender = A.vote ∧ Answers w
  callback : ∀ m f accepts, c = .inr (.message m f accepts) → m.sender = A.vote →
    w'.option = w.option ∨ Answers w

/-- A suspended call: where it goes, and what is called there. -/
inductive Suspended (T : Tariff) (A : Addresses) (t : Terms) :
    JointCall → Joint → JointKont → Joint → Joint → Prop
  | deliver {m id paramsHash respData entry saved handover x response}
      {d : TownCrierVote.Delivery} (hsaved : Fenced T A t saved) (hhandover : Fenced T A t handover)
      (hx : handover.vote.sent.getLast? = some x)
      (hback : CallsBack (hook T handover.vote d.requestId) d response x)
      (hfee : (hook T handover.vote d.requestId).fee = 0)
      (hunsettled : Own T handover d.requestId → settlements handover.option = 0)
      (hsender : m.sender ≠ A.option) :
      Suspended T A t (.inl (.message m (.deliver id paramsHash respData))) entry
        (.inl .deliverCallback) saved handover
  | put {m accepts entry saved handover x data} (hentry : Fenced T A t entry)
      (hhandover : Fenced T A t handover) (hput : handover.option.storage.optionPut = true)
      (hissued : handover.issued = []) (hx : handover.option.sent.getLast? = some x)
      (hrecipient : x.recipient = A.vote) (hvalue : x.value = TC_FEE)
      (hpurpose : x.purpose = .tcRequest 1 TC_CALLBACK_FID data)
      (hsender : m.sender ≠ A.vote ∧ m.sender ≠ A.option) :
      Suspended T A t (.inr (.message m .put accepts)) entry (.inr .tcRequest) saved handover

def guard (T : Tariff) (A : Addresses) (t : Terms) :
    Spec JointCall (Option UInt64) Joint JointKont where
  inv := Fenced T A t
  rel _ _ := True
  pre c w := Fenced T A t w ∧ Admissible T A t c w
  post := Left T A t
  held := Suspended T A t

/-- Fees may go, as long as the callbacks stay. -/
theorem Fenced.vote (h : Fenced T A t w) {v : TownCrierVote.World}
    (haddr : ∀ id, (hook T v id).callbackAddr = (hook T w.vote id).callbackAddr)
    (hfid : ∀ id, (hook T v id).callbackFID = (hook T w.vote id).callbackFID)
    (hround : ∀ id, (hook T v id).round = (hook T w.vote id).round)
    (hfee : ∀ id, (hook T v id).fee ≠ 0 → (hook T w.vote id).fee ≠ 0) :
    Fenced T A t {w with vote := v} := by
  have hown : ∀ id, Own T {w with vote := v} id ↔ Own T w id := by
    intro id
    unfold Own
    rw [hfid,hround]
  refine {h with hooked := fun id hid => ?_, known := fun id round hid => ?_,
                 pending := fun id hid hopen => ?_}
  · rw [hown,hfid]
    exact h.hooked id ((haddr id).symm.trans hid)
  · rw [hround]
    exact h.known id round hid
  · exact h.pending id ((hown id).mp hid) (hfee id hopen)

theorem Fenced.same (h : Fenced T A t w) {v : TownCrierVote.World} (hv : hook T v = hook T w.vote) :
    Fenced T A t {w with vote := v} := by
  refine h.vote ?_ ?_ ?_ ?_ <;> intro id <;> rw [hv]
  exact fun hfee => hfee

theorem update_close (hooks : UInt64 → Hook) (id j : UInt64) :
    let h := Function.update hooks id {hooks id with fee := 0} j
    h.callbackAddr = (hooks j).callbackAddr ∧ h.callbackFID = (hooks j).callbackFID ∧
      h.round = (hooks j).round ∧ (h.fee ≠ 0 → (hooks j).fee ≠ 0) := by
  by_cases hj : j = id
  · subst hj
    rw [Function.update_self]
    exact ⟨rfl,rfl,rfl,fun h => absurd rfl h⟩
  · rw [Function.update_of_ne hj]
    exact ⟨rfl,rfl,rfl,fun h => h⟩

theorem Fenced.closed (h : Fenced T A t w) {v : TownCrierVote.World} {id : UInt64}
    (hv : hook T v = Function.update (hook T w.vote) id {hook T w.vote id with fee := 0}) :
    Fenced T A t {w with vote := v} := by
  refine h.vote ?_ ?_ ?_ ?_ <;> intro j <;> rw [hv]
  · exact (update_close _ id j).1
  · exact (update_close _ id j).2.1
  · exact (update_close _ id j).2.2.1
  · exact (update_close _ id j).2.2.2

section Recorded
variable {v : TownCrierVote.World} {id : UInt64} {addr : Address} {fid : Bytes4} {fee : UInt256}

theorem Fenced.recorded (h : Fenced T A t w)
    (hv : hook T v = Function.update (hook T w.vote) id ⟨addr,fid,fee,(hook T w.vote id).round+1⟩)
    (hharmless : addr = A.option → Harmless t id fid) : Fenced T A t {w with vote := v} := by
  have hother : ∀ j, j ≠ id → hook T v j = hook T w.vote j := by
    intro j hj
    rw [hv,Function.update_of_ne hj]
  have hnew : hook T v id = ⟨addr,fid,fee,(hook T w.vote id).round+1⟩ := by
    rw [hv,Function.update_self]
  -- The number is used up: what `put` has been given is an earlier round.
  have hlost : ¬Own T {w with vote := v} id := by
    rintro ⟨-,hissued⟩
    dsimp only at hissued
    rw [hnew] at hissued
    exact absurd (h.known _ _ hissued) (Nat.not_succ_le_self _)
  have hown : ∀ j, j ≠ id → (Own T {w with vote := v} j ↔ Own T w j) := by
    intro j hj
    unfold Own
    rw [hother j hj]
  refine {h with hooked := fun j hj => ?_, known := fun j round hj => ?_,
                 pending := fun j hj hopen => ?_}
  · by_cases hid : j = id
    · subst hid
      dsimp only at hj ⊢
      rw [hnew] at hj ⊢
      exact .inl (hharmless hj)
    · dsimp only at hj ⊢
      rw [hother j hid] at hj ⊢
      rw [hown j hid]
      exact h.hooked j hj
  · have hle := h.known j round hj
    dsimp only
    by_cases hid : j = id
    · subst hid
      rw [hnew]
      exact Nat.le_succ_of_le hle
    · rw [hother j hid]
      exact hle
  · have hid : j ≠ id := by
      rintro rfl
      exact hlost hj
    dsimp only at hopen
    rw [hother j hid] at hopen
    exact h.pending j ((hown j hid).mp hj) hopen

/-- The request of `put` is recorded, and `put` gets its number. -/
theorem Fenced.asked (h : Fenced T A t w) (hput : w.option.storage.optionPut = true)
    (hissued : w.issued = [])
    (hv : hook T v = Function.update (hook T w.vote) id
      ⟨A.option,TC_CALLBACK_FID,fee,(hook T w.vote id).round+1⟩) :
    Fenced T A t {w with vote := v, issued := [(id,(hook T v id).round)]} := by
  have hnew : hook T v id = ⟨A.option,TC_CALLBACK_FID,fee,(hook T w.vote id).round+1⟩ := by
    rw [hv,Function.update_self]
  refine {h with hooked := fun j hj => ?_, known := fun j round hj => ?_, single := le_rfl,
                 put := fun _ => hput, unissued := fun h => ?_, pending := fun _ _ _ => ?_}
  · by_cases hid : j = id
    · subst hid
      refine .inr ⟨?_,List.mem_singleton_self _⟩
      dsimp only
      rw [hnew]
    · dsimp only at hj ⊢
      rw [hv,Function.update_of_ne hid] at hj ⊢
      refine (h.hooked j hj).imp_right fun hown => ?_
      have := hown.2
      rw [hissued] at this
      exact absurd this List.not_mem_nil
  · rw [List.mem_singleton] at hj
    cases hj
    exact le_rfl
  · cases h
  · exact h.unissued hissued

end Recorded

theorem Fenced.option (h : Fenced T A t w) {c : Call} {o : World} (hc : Foreign A (.inr c))
    (hchange : Change w.option c o.storage) (ho : Spared w.option o) :
    Fenced T A t {w with option := o} := by
  have hagreed : Agreed t o := hchange.agreed h.agreed
  have hrest : o.storage.oracles = w.option.storage.oracles ∧
      o.storage.ISSUER = w.option.storage.ISSUER ∧ o.storage.buyer ≠ A.vote ∧
      (w.option.storage.optionPut = true → o.storage.optionPut = true) := by
    generalize o.storage = s at hchange
    cases hchange with
    | same => exact ⟨rfl,rfl,h.buyer,fun h => h⟩
    | sold => exact ⟨rfl,rfl,(hc _ rfl).1,fun h => h⟩
    | put => exact ⟨rfl,rfl,h.buyer,fun _ => rfl⟩
    | cancelled => exact ⟨rfl,rfl,h.buyer,fun h => h⟩
  obtain ⟨horacles,hissuer,hbuyer,hput⟩ := hrest
  exact {h with agreed := hagreed
                oracle := horacles.trans h.oracle
                issuer := fun heq => h.issuer (hissuer.symm.trans heq)
                buyer := hbuyer
                put := fun hissued => hput (h.put hissued)
                exercised := ho.exercised h.exercised
                unissued := fun hissued => ho.settlements.trans (h.unissued hissued)
                pending := fun id hown hopen => ho.settlements.trans (h.pending id hown hopen)
                once := ho.settlements.trans_le h.once}

/-- The answer to the request of `put` settles. -/
theorem Fenced.settled (h : Fenced T A t w) {o : World} (hanswers : Answers w)
    (hclosed : ∀ id, Own T w id → (hook T w.vote id).fee = 0) (hstorage : o.storage = w.option.storage)
    (hlogs : w.option.logs <+: o.logs) (honce : settlements o = 1) :
    Fenced T A t {w with option := o} := by
  obtain ⟨-,-,d,-,-,-,hissued⟩ := hanswers
  have hne : w.issued ≠ [] := List.ne_nil_of_mem hissued
  have hexercised : Exercised o := by
    obtain ⟨hput,timestamp,gas,data,hlog,hdate⟩ := h.exercised (h.put hne)
    rw [Exercised,hstorage]
    exact ⟨hput,timestamp,gas,data,hlogs.subset hlog,hdate⟩
  have hagreed : Agreed t o := by
    unfold Agreed
    rw [hstorage]
    exact h.agreed
  refine {h with agreed := hagreed, oracle := ?_, issuer := ?_, buyer := ?_, put := ?_,
                 exercised := fun _ => hexercised, unissued := fun hnil => absurd hnil hne,
                 pending := fun id hown hopen => absurd (hclosed id hown) hopen, once := honce.le}
  · rw [TC_CONTRACT,hstorage]
    exact h.oracle
  · rw [hstorage]
    exact h.issuer
  · rw [hstorage]
    exact h.buyer
  · rw [hstorage]
    exact h.put

/-- The number and the round of the own record. -/
theorem Own.unique {id j : UInt64} (hid : Own T w id) (hw : Fenced T A t w) (hj : Own T w j) :
    j = id := by
  obtain ⟨x,hx⟩ | hnil := (Nat.le_one_iff_eq_zero_or_eq_one.mp hw.single).symm.imp
    List.length_eq_one_iff.mp List.length_eq_zero_iff.mp
  · have h₁ := hid.2
    have h₂ := hj.2
    rw [hx,List.mem_singleton] at h₁ h₂
    exact congrArg Prod.fst (h₂.trans h₁.symm)
  · have h₁ := hid.2
    rw [hnil] at h₁
    exact absurd h₁ List.not_mem_nil

/-- A failed call, or one which leaves the option alone. -/
theorem Fenced.left (h : Fenced T A t w) (c : JointCall) : Left T A t c w none w where
  fenced _ := h
  issued _ := h
  settle _ _ _ _ _ := .inl rfl
  callback _ _ _ _ _ := .inl rfl

theorem issue_option (a : Option (Option UInt64)) (w : Joint) : (issue T a w).option = w.option := by
  unfold issue
  split
  · split_ifs <;> rfl
  · rfl

theorem Left.once {c : JointCall} {a : Option (Option UInt64)} {w' : Joint}
    (h : Left T A t c w a w') : settlements w'.option ≤ 1 := by
  by_cases hc : sender? c = some A.option
  · have honce := (h.issued hc).once
    rwa [issue_option] at honce
  · exact (h.fenced hc).once

/-- Among what may be called, the option asks TownCrier only. -/
theorem Admissible.sender {c : JointCall} (hc : Admissible T A t c w)
    (hsender : sender? c = some A.option) : ∃ m requestType data,
    c = .inl (.message m (.request requestType A.option TC_CALLBACK_FID data)) ∧
      m.sender = A.option ∧ m.value = TC_FEE ∧ w.option.storage.optionPut = true ∧ w.issued = [] := by
  cases hc with
  | foreign h => exact absurd rfl (h _ hsender).2
  | self h | callback h | answered h =>
      exact absurd (h.symm.trans (Option.some.inj hsender)) A.distinct
  | asked h hvalue hput hissued => exact ⟨_,_,_,rfl,h,hvalue,hput,hissued⟩

theorem piece_vote (c : TownCrierVote.Call) (hw : Fenced T A t w)
    (hc : Admissible T A t (.inl c) w) (hok : Unhooked T A t (.inl c) w) :
    (guard T A t).Piece (.inl c) w ((market T A).start (.inl c) w) := by
  change (guard T A t).Piece (.inl c) w (ofVote w (TownCrierVote.start keccak256 c w.vote))
  have hhooking := hooking_start (T := T) c w.vote
  generalize TownCrierVote.start keccak256 c w.vote = o at hhooking
  cases hhooking with
  | @same _ r v h hrefused =>
      refine ⟨fun _ => hw.same h,fun hsender => ?_,by rintro _ _ _ _ ⟨⟩,by rintro _ _ _ ⟨⟩⟩
      obtain ⟨m,requestType,data,hcall,-,hvalue,-⟩ := hc.sender hsender
      have htaken := hrefused m _ _ _ _ (Sum.inl.inj hcall)
      rw [hvalue] at htaken
      cases r with
      | none => exact hw.same h
      | some id =>
          rw [issue,if_neg htaken]
          exact hw.same h
  | @recorded m _ addr fid _ v htaken h =>
      refine ⟨fun hsender => ?_,fun hsender => ?_,by rintro _ _ _ _ ⟨⟩,by rintro _ _ _ ⟨⟩⟩
      · have hsender' : m.sender ≠ A.option := fun heq => hsender (congrArg some heq)
        exact hw.recorded h (hok hsender' htaken)
      · obtain ⟨_,_,_,hcall,-,hvalue,hput,hissued⟩ := hc.sender hsender
        cases hcall
        rw [hvalue] at htaken
        rw [issue,if_pos htaken,hissued]
        exact hw.asked hput hissued h
  | @called m _ _ saved handover x response d hfee hsaved hhandover hx hback =>
      have hsender : m.sender ≠ A.option := by
        intro heq
        obtain ⟨_,_,_,hcall,-⟩ := hc.sender (congrArg some heq)
        cases hcall
      obtain ⟨haddr,hfid,hround,-⟩ := update_close (hook T w.vote) d.requestId d.requestId
      rw [← hhandover] at haddr hfid hround
      have hback' : CallsBack (hook T handover d.requestId) d response x :=
        ⟨hback.value,hback.recipient.trans haddr.symm,hback.purpose.trans (by rw [← hfid]),
          hback.round.trans hround.symm⟩
      refine ⟨.deliver (hw.closed hsaved) (hw.closed hhandover) hx hback' ?_ ?_ hsender,hw.left _⟩
      · change (hook T handover d.requestId).fee = 0
        rw [hhandover,Function.update_self]
      · rintro ⟨hown,hissued⟩
        refine hw.pending d.requestId ⟨?_,?_⟩ hfee
        · exact hfid.symm.trans hown
        · rw [← hround]
          exact hissued

/-- A message to the option from somebody else than the two contracts. -/
theorem piece_option (c : Call) (hw : Fenced T A t w) (hc : Foreign A (.inr c)) :
    (guard T A t).Piece (.inr c) w ((market T A).start (.inr c) w) := by
  change (guard T A t).Piece (.inr c) w (ofOption w (start c w.option))
  have hsettle : ∀ m id price accepts, c = .message m (.settle id price) accepts →
      m.sender ≠ TC_CONTRACT w.option := by
    rintro m id price accepts rfl
    rw [hw.oracle]
    exact (hc m.sender rfl).1
  have hchange := change_start c w.option
  have hspared := spared_start c w.option hsettle
  rcases hstart : start c w.option with ⟨_,o⟩ | _ | ⟨saved,handover,⟨⟩⟩
  · rw [hstart] at hchange hspared
    refine ⟨fun _ => hw.option hc hchange hspared,fun hsender => ?_,?_,?_⟩
    · exact absurd rfl (hc _ hsender).2
    · rintro m id price accepts ⟨⟩
      rw [settle_refused (hsettle m id price accepts rfl)] at hstart
      cases hstart
    · rintro m f accepts ⟨⟩ hm
      exact absurd hm (hc m.sender rfl).1
  · exact hw.left _
  · rw [hstart] at hchange hspared
    obtain ⟨m,accepts,x,data,rfl,hopen,hput,hx,hrecipient,hvalue,hpurpose⟩ := call_put hstart
    have hissued : w.issued = [] := by
      by_contra hne
      rw [hw.put hne] at hopen
      cases hopen
    exact ⟨.put hw (hw.option hc hchange.2.1 hspared.2.1) hput hissued hx
      (hrecipient.trans hw.oracle) hvalue hpurpose (hc m.sender rfl),hw.left _⟩

/-- What the option does with a callback that it obeys. -/
theorem piece_settle {m : Msg} {id : UInt64} {response : Bytes32} {accepts : Purpose → Bool}
    (hw : Fenced T A t w) (h : m.sender = A.vote) (hanswers : Answers w)
    (hclosed : ∀ id, Own T w id → (hook T w.vote id).fee = 0) (hunsettled : settlements w.option = 0) :
    (guard T A t).Piece (.inr (.message m (.settle id response) accepts)) w
      ((market T A).start (.inr (.message m (.settle id response) accepts)) w) := by
  obtain ⟨o,ho,hstorage,hlogs,hcount⟩ := settle_done (h.trans hw.oracle.symm) id response accepts
  change (guard T A t).Piece _ w (ofOption w (start _ w.option))
  rw [ho]
  refine ⟨fun _ => ?_,fun hsender => ?_,?_,fun _ _ _ _ _ => .inr hanswers⟩
  · exact hw.settled hanswers hclosed hstorage hlogs (hcount.trans (by rw [hunsettled]))
  · exact absurd (h.symm.trans (Option.some.inj hsender)) A.distinct
  · rintro _ _ _ _ ⟨⟩
    exact .inr ⟨h,hanswers⟩

theorem resume_vote (a : Option (Option UInt64)) : (market T A).resume (.inl .deliverCallback) a w =
    .done none {w with vote := w.vote.emit (.deliverLog 0
      (if (a.map fun _ => ()).isSome then 32 else -2))} := rfl

theorem left_deliver {m : Msg} {id : UInt64} {paramsHash respData : Bytes32} {e : Joint}
    (hw : Fenced T A t w) (hsender : m.sender ≠ A.option) (a : Option (Option UInt64)) :
    (guard T A t).Piece (.inl (.message m (.deliver id paramsHash respData))) e
      ((market T A).resume (.inl .deliverCallback) a w) := by
  rw [resume_vote]
  refine ⟨fun _ => hw.same (hook_emit fun _ => rfl),?_,by rintro _ _ _ _ ⟨⟩,by rintro _ _ _ ⟨⟩⟩
  intro hm
  exact absurd (Option.some.inj hm) hsender

theorem market_option (c : Call) (w : Joint) :
    (market T A).start (.inr c) w = ofOption w (start c w.option) := rfl

theorem left_put {m : Msg} {accepts : Purpose → Bool} {e : Joint} {a : Option (Option UInt64)}
    (hw : Fenced T A t w) (hsender : m.sender ≠ A.vote ∧ m.sender ≠ A.option) :
    Left T A t (.inr (.message m .put accepts)) e a w := by
  refine ⟨fun _ => hw,fun hm => absurd (Option.some.inj hm) hsender.2,by rintro _ _ _ _ ⟨⟩,?_⟩
  rintro m' f accepts' ⟨⟩ hm
  exact absurd hm hsender.1

theorem sound_guard : (guard T A t).Sound (market T A) (Unhooked T A t) where
  refl _ := trivial
  trans _ _ := trivial
  entry c w hc hw _ := ⟨hw,.foreign (hc.elim (·.1) id)⟩
  exit c w a w' hc _ h := ⟨h.fenced fun hsender => (hc.elim (·.1) id _ hsender).2 rfl,trivial⟩
  start c w hpre hok := by
    obtain ⟨hw,hc⟩ := hpre
    cases c with
    | inl c => exact piece_vote c hw hc hok
    | inr c =>
        generalize hcall : (Sum.inr c : JointCall) = x at hc
        cases hc with
        | foreign h =>
            subst hcall
            exact piece_option c hw h
        | self | asked => cases hcall
        | @callback m fid id response accepts _ h hvalue hharmless =>
            cases hcall
            change (guard T A t).Piece _ w (ofOption w (start _ w.option))
            obtain hstart | hstart := callback_start hvalue (h ▸ hw.issuer) (h ▸ hw.buyer) hw.agreed
              hharmless response accepts
            · rw [hstart]
              exact hw.left _
            · rw [hstart]
              exact ⟨fun _ => hw,fun hsender => absurd (h.symm.trans (Option.some.inj hsender)) A.distinct,
                fun _ _ _ _ _ => .inl rfl,fun _ _ _ _ _ => .inl rfl⟩
        | answered h hanswers hclosed hunsettled =>
            cases hcall
            exact piece_settle hw h hanswers hclosed hunsettled
  starved c e k s h c' hheld _ _ := by
    cases hheld with
    | deliver hsaved _ _ _ _ _ hsender => exact left_deliver hsaved hsender none
    | put hentry => exact hentry.left _
  inner c e k s h c' hheld hc hok := by
    cases hheld with
    | @deliver _ _ _ _ _ _ _ _ response d hsaved hhandover hx hback hfee hunsettled hsender =>
        have hafter : ∀ {c₁ : JointCall} {a w}, Left T A t c₁ h a w → sender? c₁ = some A.vote →
            Fenced T A t (if a.isSome then w else s) := by
          intro c₁ a w hleft hc₁
          split_ifs
          · exact hleft.fenced fun heq => A.distinct (Option.some.inj (hc₁.symm.trans heq))
          · exact hsaved
        rcases c' with (⟨m,f⟩ | value) | (⟨m,f,accepts⟩ | value)
        · obtain ⟨_,-,harrives⟩ := hc
          exact ⟨⟨hhandover,.self harrives.sender⟩,fun a w hleft =>
            left_deliver (hafter hleft (congrArg some harrives.sender)) hsender a⟩
        · cases hc
        · obtain ⟨_,fid,d',response',hx',harrives,hpurpose,rfl⟩ := hc
          cases hx.symm.trans hx'
          cases hback.purpose.symm.trans hpurpose
          refine ⟨⟨hhandover,?_⟩,fun a w hleft =>
            left_deliver (hafter hleft (congrArg some harrives.sender)) hsender a⟩
          obtain hharmless | hown := hhandover.hooked d.requestId
            (hback.recipient.symm.trans harrives.recipient)
          · exact .callback harrives.sender (harrives.value.trans hback.value) hharmless
          · rw [hown.1,dispatch_callback]
            refine .answered harrives.sender ⟨_,_,d,response,hx,hback.purpose,?_⟩ ?_ (hunsettled hown)
            · rw [hback.round]
              exact hown.2
            · intro id hid
              rw [hown.unique hhandover hid]
              exact hfee
        · cases hc
    | put hentry hhandover hput hissued hx hrecipient hvalue hpurpose hsender =>
        rcases c' with (⟨m,f⟩ | value) | (⟨m,f,accepts⟩ | value)
        · obtain ⟨_,requestType,fid,data,hx',harrives,hpurpose',rfl⟩ := hc
          cases hx.symm.trans hx'
          cases hpurpose.symm.trans hpurpose'
          refine ⟨⟨hhandover,.asked harrives.sender (harrives.value.trans hvalue) hput hissued⟩,
            fun a w hleft => ?_⟩
          have hfenced := hleft.issued (congrArg some harrives.sender)
          cases a with
          | none => exact hentry.left _
          | some r =>
              have hsame : {issue T (some r) w with option := w.option} = issue T (some r) w := by
                rw [← issue_option (T := T) (some r) w]
              rw [← hsame] at hfenced
              exact left_put hfenced hsender
        · cases hc
        · obtain ⟨_,hx',harrives,-⟩ := hc
          cases hx.symm.trans hx'
          exact absurd (hrecipient.symm.trans harrives.recipient) A.distinct
        · cases hc
  outer c e k s h hheld hout := by
    cases hheld with
    | deliver hsaved hhandover hx hback _ _ hsender =>
        refine ⟨hhandover,fun a w hw _ => left_deliver ?_ hsender a⟩
        split_ifs
        · exact hw
        · exact hsaved
    | put hentry hhandover hput hissued hx hrecipient =>
        obtain ⟨x,hx',hvote,-⟩ := hout
        cases hx.symm.trans hx'
        exact absurd hrecipient hvote

theorem fenced_initial {m : Msg} {b b' : ℕ} {o : World} (hnew : constructor m A.vote t b = some o)
    (hissuer : m.sender ≠ A.vote) : Fenced T A t (initial b' o) := by
  have hagreed := agreed_constructor hnew
  unfold constructor PutOptions.constructor at hnew
  split_ifs at hnew
  cases hnew
  exact {
    hooked := fun id hid => absurd hid.symm A.option_ne
    agreed := hagreed
    oracle := rfl
    issuer := hissuer
    buyer := A.vote_ne.symm
    known := fun id round hid => absurd hid List.not_mem_nil
    single := Nat.zero_le 1
    put := fun hne => absurd rfl hne
    exercised := fun hput => by cases hput
    unissued := fun _ => rfl
    pending := fun _ _ _ => rfl
    once := Nat.zero_le 1 }

variable {w' : Joint} {m₀ : Msg} {b b' : ℕ} {o : World} {c : JointCall} {a : Option (Option UInt64)}

/-- Whatever TownCrier takes for a request: in a run without requests of others whose
callback the option obeys, `settle` moves ether for the answer to the option's own
request only, which was made in time, and once, and no other callback has an effect. -/
theorem answers_only_own (hnew : constructor m₀ A.vote t b = some o) (hissuer : m₀.sender ≠ A.vote)
    (hseen : (market T A).Seen (Unhooked T A t) (initial b' o) (.call c w))
    (hexec : (market T A).Exec (Unhooked T A t) (.code w ((market T A).start c w)) a w') :
    Guarded A c w w' := by
  obtain ⟨⟨hfenced,-⟩,hleft⟩ := sound_guard.called (fenced_initial hnew hissuer) hseen hexec
  refine ⟨?_,hleft.once,?_⟩
  · rintro m id price accepts hc ⟨x,hx,-⟩
    obtain hsame | ⟨hsender,hanswers⟩ := hleft.settle m id price accepts hc
    · rw [hsame,List.drop_length] at hx
      cases hx
    · have hsent := hanswers
      obtain ⟨-,-,d,-,-,-,hissued⟩ := hsent
      exact ⟨hsender,hanswers,hfenced.exercised (hfenced.put (List.ne_nil_of_mem hissued))⟩
  · intro m f accepts hc hm hanswers
    exact (hleft.callback m f accepts hc hm).resolve_right hanswers

end Market

section Sample
open TownCrierVote (SGX1_ADDRESS SGX2_ADDRESS SGX3_ADDRESS MIN_FEE shipped tariff)

def pair : Addresses where
  vote := 5
  option := 3
  distinct := by decide
  vote_ne := by decide
  option_ne := by decide
  vote_code := by decide
  option_code := by decide

def issue₀ : Msg := ⟨6,60+TC_FEE,1,0,1⟩

def opened : World where
  storage := ⟨6,5,0,4,10,10,5,0,0,false,false⟩
  balance := 60+TC_FEE.toNat
  logs := []
  sent := []

theorem constructor_opened : constructor issue₀ pair.vote sampleTerms 0 = some opened := rfl

def bought : World := (opened.credit 8).set {opened.storage with buyer := 7, units := 2}

def heldOut : World := bought.pay 6 48 .issuerRefund

def saleCall : Call := .message sampleSale (.buy 2) fun _ => true

theorem start_bought : start saleCall opened = .done () heldOut := rfl

def settleCall : Call := .message ⟨5,0,1,0,3⟩ (.settle 1 3) fun _ => true

section
variable {T : Tariff}

/-- Request 1 is open, and names `settle` of the option. -/
structure Planted (v : TownCrierVote.World) (hash : Bytes32) (n : UInt8) : Prop where
  fee : (v.storage.requests 1).fee ≠ 0
  callbackAddr : (v.storage.requests 1).callbackAddr = 3
  callbackFID : (v.storage.requests 1).callbackFID = TC_CALLBACK_FID
  paramsHash : (v.storage.requests 1).paramsHash = hash
  responseCnt : (v.storage.requests 1).responseCnt = n

def answerCall (hash : Bytes32) (sender : Address) : TownCrierVote.Call :=
  .message ⟨sender,0,1,0,3⟩ (.deliver 1 hash 3)

theorem setRequest_requests (id : UInt64) (r : TownCrierVote.Request) (v : TownCrierVote.World) :
    (TownCrierVote.setRequest id r v).storage.requests id = r := Function.update_self ..

theorem conclude_call (m : Msg) (d : TownCrierVote.Delivery) (response : Bytes32)
    (v : TownCrierVote.World) : ∃ saved handover, TownCrierVote.conclude m d response v =
      .call saved handover .deliverCallback ∧ handover.sent.getLast? =
        some ⟨(v.storage.requests d.requestId).callbackAddr,0,
          .callback (v.storage.requests d.requestId).callbackFID d response,true⟩ := by
  unfold TownCrierVote.conclude
  dsimp only
  generalize hz : TownCrierVote.send m.sender _ _ _ = z
  have hstorage : z.storage = v.storage := by
    rw [← hz]
    exact TownCrierVote.storage_send _ _ _ _
  rw [Account.callOut_zero,hstorage]
  exact ⟨_,_,rfl,List.getLast?_concat⟩

section Answered
variable {v v₁ : TownCrierVote.World} {hash : Bytes32} {sender : Address} {n : UInt8}

theorem answered_first (h : Planted v hash 0) (hsender : TownCrierVote.isSgx sender) :
    ∃ v', TownCrierVote.start keccak256 (answerCall hash sender) v = .done none v' ∧
      Planted v' hash 1 ∧ (v'.storage.requests 1).response0 = 3 := by
  have hstart : ∃ v', TownCrierVote.start keccak256 (answerCall hash sender) v = .done none v' ∧
      v'.storage.requests 1 = {v.storage.requests 1 with
        response0 := 3, responseCnt := (v.storage.requests 1).responseCnt+1} := by
    unfold answerCall TownCrierVote.start TownCrierVote.deliver
    dsimp only
    refine ⟨_,(if_neg h.fee).trans ((if_neg (not_not.mpr hsender)).trans
      ((if_neg (not_not.mpr h.paramsHash)).trans (if_pos h.responseCnt))),?_⟩
    rw [TownCrierVote.storage_send]
    exact setRequest_requests _ _ _
  obtain ⟨v',hv',hrecord⟩ := hstart
  refine ⟨v',hv',?_,?_⟩
  · constructor <;> rw [hrecord]
    · exact h.fee
    · exact h.callbackAddr
    · exact h.callbackFID
    · exact h.paramsHash
    · rw [h.responseCnt]
      rfl
  · rw [hrecord]

theorem answered_second (h : Planted v hash 1) (hsender : TownCrierVote.isSgx sender) :
    ∃ v', TownCrierVote.start keccak256 (answerCall hash sender) v = .done none v' ∧
      Planted v' hash 2 ∧ (v'.storage.requests 1).response0 = (v.storage.requests 1).response0 := by
  have hstart : ∃ v', TownCrierVote.start keccak256 (answerCall hash sender) v = .done none v' ∧
      v'.storage.requests 1 = {v.storage.requests 1 with
        response1 := 3, responseCnt := (v.storage.requests 1).responseCnt+1} := by
    have hcnt : (v.storage.requests 1).responseCnt ≠ 0 := by
      rw [h.responseCnt]
      decide
    unfold answerCall TownCrierVote.start TownCrierVote.deliver
    dsimp only
    refine ⟨_,(if_neg h.fee).trans ((if_neg (not_not.mpr hsender)).trans
      ((if_neg (not_not.mpr h.paramsHash)).trans ((if_neg hcnt).trans (if_pos h.responseCnt)))),?_⟩
    rw [TownCrierVote.storage_send]
    exact setRequest_requests _ _ _
  obtain ⟨v',hv',hrecord⟩ := hstart
  refine ⟨v',hv',?_,?_⟩
  · constructor <;> rw [hrecord]
    · exact h.fee
    · exact h.callbackAddr
    · exact h.callbackFID
    · exact h.paramsHash
    · rw [h.responseCnt]
      rfl
  · rw [hrecord]

/-- Three equal answers make TownCrier call the option. -/
theorem planted_answered (h : Planted v₁ hash 0) :
    ∃ v₂, TownCrierVote.start keccak256 (answerCall hash SGX1_ADDRESS) v₁ = .done none v₂ ∧
    ∃ v₃, TownCrierVote.start keccak256 (answerCall hash SGX2_ADDRESS) v₂ = .done none v₃ ∧
    ∃ saved handover d, TownCrierVote.start keccak256 (answerCall hash SGX3_ADDRESS) v₃ =
      .call saved handover .deliverCallback ∧ d.requestId = 1 ∧
        handover.sent.getLast? = some ⟨3,0,.callback TC_CALLBACK_FID d 3,true⟩ := by
  obtain ⟨v₂,h₂,hv₂,hresponse⟩ := answered_first h (.inl rfl)
  obtain ⟨v₃,h₃,hv₃,hresponse'⟩ := answered_second hv₂ (.inr (.inl rfl))
  refine ⟨v₂,h₂,v₃,h₃,?_⟩
  have hthird : (v₃.storage.requests 1).response0 = 3 := hresponse'.trans hresponse
  have hcnt : (v₃.storage.requests 1).responseCnt ≠ 0 ∧ (v₃.storage.requests 1).responseCnt ≠ 1 := by
    rw [hv₃.responseCnt]
    decide
  let d : TownCrierVote.Delivery :=
    ⟨SGX3_ADDRESS,1,(TownCrierVote.asked (v₃.credit 0) 1).length,hash,3⟩
  obtain ⟨saved,handover,hcall,hlast⟩ :=
    conclude_call ⟨SGX3_ADDRESS,0,1,0,3⟩ d 3 ((v₃.credit 0).emit (.deliverLog SGX3_ADDRESS 3))
  refine ⟨saved,handover,d,?_,rfl,?_⟩
  · unfold answerCall TownCrierVote.start TownCrierVote.deliver
    dsimp only
    exact (if_neg hv₃.fee).trans ((if_neg (not_not.mpr (.inr (.inr rfl)))).trans
      ((if_neg (not_not.mpr hv₃.paramsHash)).trans ((if_neg hcnt.1).trans ((if_neg hcnt.2).trans
        ((if_pos (.inl hthird.symm)).trans hcall)))))
  · rw [hlast,← hv₃.callbackAddr,← hv₃.callbackFID]
    rfl

end Answered

/-- The first request that TownCrier accepts. -/
theorem start_planted {m : Msg} {data : List Bytes32} (htaken : Taken T m.value) (hvalue : m.value ≠ 0) :
    ∃ v hash, TownCrierVote.start keccak256 (.message m (.request 1 3 TC_CALLBACK_FID data))
      (TownCrierVote.constructor 0) = .done (some 1) v ∧ Planted v hash 0 := by
  have hfee : ¬(m.value < TownCrierVote.MIN_FEE ∨ TownCrierVote.MAX_FEE < m.value) :=
    not_or.mpr ⟨BitVec.not_lt.mpr htaken.1,BitVec.not_lt.mpr htaken.2⟩
  unfold TownCrierVote.start TownCrierVote.request
  dsimp only
  rw [if_neg hfee]
  exact ⟨_,_,rfl,hvalue,rfl,rfl,rfl,rfl⟩

theorem run_done {ok : JointCall → Joint → Prop} {w₀ w w' : Joint} {c : JointCall}
    {r : Option UInt64} (h : (market T pair).Run ok w₀ w) (hc : Foreign pair c) (hok : ok c w)
    (hstart : (market T pair).start c w = .done r w') : (market T pair).Run ok w₀ w' := by
  refine .step (a := some r) h hc hok ?_
  rw [hstart]
  exact .done

theorem foreign_of {A : Addresses} {c : JointCall} {s : Address} (hc : sender? c = some s)
    (hs : s ≠ A.vote ∧ s ≠ A.option) : Foreign A c := fun sender h => by
  cases hc.symm.trans h
  exact hs

/-- The third answer hands over to the option. -/
theorem seen_callback {ok : JointCall → Joint → Prop} {w₀ : Joint} {v : TownCrierVote.World}
    {o : World} {issued : List (UInt64 × ℕ)} {hash : Bytes32}
    (h : (market T pair).Run ok w₀ ⟨v,o,issued⟩) (hv : Planted v hash 0)
    (hok : ∀ m id paramsHash respData w, ok (.inl (.message m (.deliver id paramsHash respData))) w)
    (hsettle : ∀ w, ok (.inr settleCall) w) :
    ∃ handover, (market T pair).Seen ok w₀ (.call (.inr settleCall) ⟨handover,o,issued⟩) := by
  obtain ⟨v₂,h₂,v₃,h₃,saved,handover,d,h₄,hid,hlast⟩ := planted_answered (T := T) hv
  have hfirst := run_done (c := .inl (answerCall hash SGX1_ADDRESS)) h (foreign_of rfl (by decide))
    (hok ..) (congrArg (ofVote ⟨v,o,issued⟩) h₂)
  have hsecond := run_done (c := .inl (answerCall hash SGX2_ADDRESS)) hfirst
    (foreign_of rfl (by decide)) (hok ..) (congrArg (ofVote ⟨v₂,o,issued⟩) h₃)
  have hthird : (market T pair).start (.inl (answerCall hash SGX3_ADDRESS)) ⟨v₃,o,issued⟩ =
      .call ⟨saved,o,issued⟩ ⟨handover,o,issued⟩ (.inl .deliverCallback) :=
    congrArg (ofVote ⟨v₃,o,issued⟩) h₄
  refine ⟨handover,?_⟩
  refine .inside (c := .inl (answerCall hash SGX3_ADDRESS)) hsecond (foreign_of rfl (by decide))
    (hok ..) ?_
  rw [hthird]
  refine .called (.entered ⟨_,_,d,3,hlast,⟨rfl,rfl,rfl⟩,rfl,?_⟩ (hsettle _))
  rw [hid,dispatch_callback]

end

def putCall : Call := .message ⟨7,0,1,9,3⟩ .put fun _ => true

def putting : World :=
  (heldOut.set {heldOut.storage with optionPut := true}).emit (.put 3 9 [0,3])

def asking : World := putting.pay 5 TC_FEE (.tcRequest 1 TC_CALLBACK_FID [0,3])

def askMessage : Msg := ⟨3,TC_FEE,1,0,3⟩

/-- Everything that the option has is gone once it is settled. -/
def exercised : World :=
  ((asking.pay 7 14 (.optionValue 1 3)).emit (.pay 3 14)).pay 6 6 (.remainder 1 3)

theorem start_exercised : start settleCall asking = .done () exercised := rfl

/-- TownCrier where gas has a third of its price, so that the fee of `put` is enough. -/
abbrev cheap : Tariff := tariff (15*10^9)

/-- The buyer puts the option, TownCrier accepts the request, and its answer settles. -/
theorem answers_only_own_pair : ∃ w w',
    (market cheap pair).Seen (Unhooked cheap pair sampleTerms) (initial 0 opened)
      (.call (.inr settleCall) w) ∧
    (market cheap pair).Exec (Unhooked cheap pair sampleTerms)
      (.code w ((market cheap pair).start (.inr settleCall) w)) (some none) w' ∧
    Moves w.option w'.option ∧ w'.option.balance = 0 ∧ settlements w'.option = 1 ∧
    Guarded pair (.inr settleCall) w w' := by
  have hbought : (market cheap pair).Run (Unhooked cheap pair sampleTerms) (initial 0 opened)
      (initial 0 heldOut) :=
    run_done (c := .inr saleCall) .start (foreign_of rfl (by decide)) trivial
      (congrArg (ofOption (initial 0 opened)) start_bought)
  obtain ⟨v,hash,hask,hv⟩ := @start_planted cheap askMessage [0,3] (by decide) (by decide)
  have hput : (market cheap pair).Run (Unhooked cheap pair sampleTerms) (initial 0 opened)
      ⟨v,asking,[(1,(hook cheap v 1).round)]⟩ := by
    have hfree : Unhooked cheap pair sampleTerms (.inr putCall) (initial 0 heldOut) := trivial
    refine .step (a := some none) hbought (foreign_of rfl (by decide)) hfree ?_
    have hstart : (market cheap pair).start (.inr putCall) (initial 0 heldOut) =
        .call (initial 0 (putting.keep 5 TC_FEE (.tcRequest 1 TC_CALLBACK_FID [0,3])))
          (initial 0 asking) (.inr .tcRequest) := by
      rw [market_option]
      rfl
    have hcallee : (market cheap pair).callee (.inr .tcRequest) (initial 0 asking)
        (.inl (.message askMessage (.request 1 3 TC_CALLBACK_FID [0,3]))) :=
      ⟨_,1,TC_CALLBACK_FID,[0,3],rfl,⟨rfl,rfl,rfl⟩,rfl,rfl⟩
    have hasked : (market cheap pair).start
        (.inl (.message askMessage (.request 1 3 TC_CALLBACK_FID [0,3]))) (initial 0 asking) =
          .done (some 1) ⟨v,asking,[]⟩ := congrArg (ofVote (initial 0 asking)) hask
    have hissue : issue cheap (some (some 1)) ⟨v,asking,[]⟩ =
        ⟨v,asking,[(1,(hook cheap v 1).round)]⟩ := by
      rw [issue,if_pos (by decide)]
      rfl
    have hresume : (market cheap pair).resume (.inr .tcRequest) (some (some 1)) ⟨v,asking,[]⟩ =
        .done none ⟨v,asking,[(1,(hook cheap v 1).round)]⟩ := by
      change ofOption (issue cheap (some (some 1)) ⟨v,asking,[]⟩) (.done () asking) = _
      rw [hissue]
      rfl
    rw [hstart]
    refine .resumed (a := some (some 1)) (w := ⟨v,asking,[]⟩) (.inner hcallee ?_ ?_) ?_
    · exact fun hsender => absurd rfl hsender
    · rw [hasked]
      exact .done
    · rw [hresume]
      exact .done
  obtain ⟨handover,hseen⟩ := seen_callback hput hv (fun _ _ _ _ _ => trivial)
    fun _ => trivial
  have hexec : (market cheap pair).Exec (Unhooked cheap pair sampleTerms)
      (.code ⟨handover,asking,[(1,(hook cheap v 1).round)]⟩ ((market cheap pair).start
        (.inr settleCall) ⟨handover,asking,[(1,(hook cheap v 1).round)]⟩)) (some none)
      ⟨handover,exercised,[(1,(hook cheap v 1).round)]⟩ := by
    rw [market_option,start_exercised]
    exact .done
  refine ⟨_,_,hseen,hexec,?_,rfl,rfl,?_⟩
  · exact ⟨⟨7,14,.optionValue 1 3,true⟩,.head _,rfl,by decide⟩
  · exact answers_only_own constructor_opened (by decide) hseen hexec

/-- Everything the option has is gone before it is put. -/
def settled : World :=
  ((heldOut.pay 7 14 (.optionValue 1 3)).emit (.pay 3 14)).pay 6 (6+TC_FEE) (.remainder 1 3)

theorem start_settled : start settleCall heldOut = .done () settled := rfl

/-- A request of nobody involved, which names `settle` of the option. -/
def plantMessage : Msg := ⟨9,MIN_FEE,1,0,0⟩

/-- The answer to a stranger settles what has been bought and not been put. -/
theorem stranger_settles : ∃ w w',
    (market shipped pair).Seen (fun _ _ => True) (initial 0 opened) (.call (.inr settleCall) w) ∧
    (market shipped pair).Exec (fun _ _ => True)
      (.code w ((market shipped pair).start (.inr settleCall) w)) (some none) w' ∧
    w.option.storage.optionPut = false ∧ w.issued = [] ∧ w'.option = settled ∧
    ¬Guarded pair (.inr settleCall) w w' := by
  obtain ⟨v,hash,hask,hv⟩ := @start_planted shipped plantMessage [] (by decide) (by decide)
  have hplanted : (market shipped pair).Run (fun _ _ => True) (initial 0 opened) ⟨v,opened,[]⟩ :=
    run_done (c := .inl (.message plantMessage (.request 1 3 TC_CALLBACK_FID []))) .start
      (foreign_of rfl (by decide)) trivial (congrArg (ofVote (initial 0 opened)) hask)
  have hbought : (market shipped pair).Run (fun _ _ => True) (initial 0 opened) ⟨v,heldOut,[]⟩ :=
    run_done (c := .inr saleCall) hplanted (foreign_of rfl (by decide)) trivial
      (congrArg (ofOption ⟨v,opened,[]⟩) start_bought)
  obtain ⟨handover,hseen⟩ := seen_callback hbought hv (fun _ _ _ _ _ => trivial)
    fun _ => trivial
  have hsettle : (market shipped pair).start (.inr settleCall) ⟨handover,heldOut,[]⟩ =
      .done none ⟨handover,settled,[]⟩ := by
    rw [market_option,start_settled]
    rfl
  refine ⟨⟨handover,heldOut,[]⟩,⟨handover,settled,[]⟩,hseen,?_,rfl,rfl,rfl,?_⟩
  · rw [hsettle]
    exact .done
  · intro h
    have hmoves : Moves heldOut settled := ⟨⟨7,14,.optionValue 1 3,true⟩,.head _,rfl,by decide⟩
    cases (h.settles _ _ _ _ rfl hmoves).2.2.1

end Sample
end TownCrier.PutOption
