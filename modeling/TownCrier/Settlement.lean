import TownCrier.Contract

/-!
# How a request is settled

The invariant of the TownCrier contract. The log says which requests were
accepted, the list of transfers says what happened on behalf of each of them,
and the stored fee has to agree with both. The counter and the balance follow
by adding up over the records.
-/
namespace TownCrier.Contract
open BigEndian CallMachine Evm Ledger

def Event.info? : Event → Option RequestInfo
  | .requestInfo i => some i
  | _ => none

/-- The accepted requests, oldest first. -/
def infos (w : World) : List RequestInfo := w.logs.filterMap Event.info?

def Purpose.requestId? : Purpose → Option UInt64
  | .killedRefund | .underpaidRefund | .withdrawal => none
  | .cancelRefund id => some id
  | .cancellationFee d | .deliveryFee d | .errorRefund d | .callback _ d => some d.requestId

/-- The external calls made on account of one request, oldest first. -/
def trace (w : World) (id : UInt64) : List (Transfer Purpose) :=
  w.sent.filter fun t => t.purpose.requestId? = some id

/-- Sent by the enclave for this request and with its hash. -/
structure Authentic (i : RequestInfo) (d : Delivery) : Prop where
  sender : d.sender = SGX_ADDRESS
  requestId : d.requestId = i.id
  paramsHash : d.paramsHash = i.paramsHash

def refund (i : RequestInfo) (charge : UInt256) : Transfer Purpose :=
  ⟨i.requester,i.fee-charge,.cancelRefund i.id,true⟩

/-- At most one callback, whatever its outcome. -/
def Called (i : RequestInfo) (callbackFID : Bytes4) (d : Delivery)
    (calls : List (Transfer Purpose)) : Prop :=
  calls = [] ∨ ∃ success, calls = [⟨i.callbackAddr,0,.callback callbackFID d,success⟩]

/-- The three ways in which `deliver` closes a request. -/
inductive Settled (i : RequestInfo) (callbackFID : Bytes4) : List (Transfer Purpose) → Prop
  | cancelled (charge : UInt256) (d : Delivery) (hcharge : charge ≤ i.fee)
      (hauth : Authentic i d) :
      Settled i callbackFID
        [refund i charge,⟨SGX_ADDRESS,charge,.cancellationFee d,true⟩]
  | answered (d : Delivery) (calls : List (Transfer Purpose)) (hauth : Authentic i d)
      (herror : d.error < 2) (hcalls : Called i callbackFID d calls) :
      Settled i callbackFID (⟨SGX_ADDRESS,i.fee,.deliveryFee d,true⟩::calls)
  | refunded (d : Delivery) (success : Bool) (calls : List (Transfer Purpose))
      (hauth : Authentic i d) (herror : ¬d.error < 2) (hcalls : Called i callbackFID d calls) :
      Settled i callbackFID (⟨i.requester,i.fee,.errorRefund d,success⟩::calls)

/-- The stored fee and the transfers of a request, under the current fees. -/
inductive Progress (s : Storage) (i : RequestInfo) (callbackFID : Bytes4) :
    UInt256 → List (Transfer Purpose) → Prop
  | outstanding (hfee : s.minFee ≤ i.fee) : Progress s i callbackFID i.fee []
  | cancelled (hcharge : s.cancellationFee ≤ i.fee) :
      Progress s i callbackFID CANCELLED_FEE_FLAG [refund i s.cancellationFee]
  | settled {calls} (h : Settled i callbackFID calls) :
      Progress s i callbackFID DELIVERED_FEE_FLAG calls

/-- What a stored fee still obliges the contract to pay. -/
def owed (cancellationFee fee : UInt256) : ℕ :=
  if fee = DELIVERED_FEE_FLAG then 0
  else if fee = CANCELLED_FEE_FLAG then cancellationFee.toNat
  else fee.toNat

def pending (fee : UInt256) : ℕ := if fee ≠ DELIVERED_FEE_FLAG then 1 else 0

def totalOwed (w : World) : ℕ :=
  total (fun r : Request => owed w.storage.cancellationFee r.fee) w.storage.requests
    w.storage.requestCnt.toNat

def totalPending (w : World) : ℕ :=
  total (fun r : Request => pending r.fee) w.storage.requests w.storage.requestCnt.toNat

structure Entry (keccak : Bytes → Bytes32) (w : World) (i : RequestInfo) : Prop where
  hash : i.paramsHash = keccak (encodePacked i.requestType i.requestData)
  requester : (w.storage.requests i.id).requester = i.requester
  callbackAddr : (w.storage.requests i.id).callbackAddr = i.callbackAddr
  paramsHash : (w.storage.requests i.id).paramsHash = i.paramsHash
  progress : Progress w.storage i (w.storage.requests i.id).callbackFID
    (w.storage.requests i.id).fee (trace w i.id)

structure Inv (keccak : Bytes → Bytes32) (w : World) : Prop where
  count : w.storage.requestCnt.toNat = (infos w).length+1
  numbered : (infos w).map (·.id.toNat) = List.range' 1 (infos w).length
  entries : ∀ i ∈ infos w, Entry keccak w i
  unused : ∀ id, id = 0 ∨ w.storage.requestCnt ≤ id →
    (w.storage.requests id).fee = DELIVERED_FEE_FLAG ∧ trace w id = []
  counter : w.storage.unrespondedCnt.toNat = totalPending w
  solvent : totalOwed w ≤ w.balance
  minFee : 2 ≤ w.storage.minFee
  cancellationFee : 2 ≤ w.storage.cancellationFee

/-- Everything about the requests is as before. -/
structure Agree (w w' : World) : Prop where
  infos : infos w' = infos w
  requestCnt : w'.storage.requestCnt = w.storage.requestCnt
  unrespondedCnt : w'.storage.unrespondedCnt = w.storage.unrespondedCnt
  requests : w'.storage.requests = w.storage.requests
  trace : ∀ id, trace w' id = trace w id

/-- Only the fee of one request is different, and its transfers. -/
structure Moved (w w' : World) (id : UInt64) (fee : UInt256) : Prop where
  infos : infos w' = infos w
  requestCnt : w'.storage.requestCnt = w.storage.requestCnt
  requests : w'.storage.requests = (w.storage.setFee id fee).requests
  minFee : w'.storage.minFee = w.storage.minFee
  cancellationFee : w'.storage.cancellationFee = w.storage.cancellationFee
  trace : ∀ j, j ≠ id → trace w' j = trace w j

theorem Agree.refl (w : World) : Agree w w := ⟨rfl,rfl,rfl,rfl,fun _ => rfl⟩

theorem Agree.trans {w₁ w₂ w₃ : World} (h : Agree w₁ w₂) (h' : Agree w₂ w₃) : Agree w₁ w₃ :=
  ⟨h'.infos.trans h.infos,h'.requestCnt.trans h.requestCnt,
    h'.unrespondedCnt.trans h.unrespondedCnt,h'.requests.trans h.requests,
    fun id => (h'.trace id).trans (h.trace id)⟩

section Simp
variable (w : World)

@[simp] theorem infos_set (s : Storage) : infos (w.set s) = infos w := rfl
@[simp] theorem infos_credit (v : UInt256) : infos (w.credit v) = infos w := rfl
@[simp] theorem infos_pay (r : Address) (v : UInt256) (p : Purpose) :
    infos (w.pay r v p) = infos w := rfl
@[simp] theorem infos_keep (r : Address) (v : UInt256) (p : Purpose) :
    infos (w.keep r v p) = infos w := rfl
@[simp] theorem infos_setFlag (b : Bool) : infos (setFlag w b) = infos w := rfl

@[simp] theorem infos_emit (e : Event) :
    infos (w.emit e) = infos w++(e.info?).toList := by
  rw [infos,infos,Account.logs_emit,List.filterMap_append]
  cases e <;> rfl

@[simp] theorem trace_set (s : Storage) (id : UInt64) : trace (w.set s) id = trace w id := rfl
@[simp] theorem trace_emit (e : Event) (id : UInt64) : trace (w.emit e) id = trace w id := rfl
@[simp] theorem trace_credit (v : UInt256) (id : UInt64) : trace (w.credit v) id = trace w id := rfl
@[simp] theorem trace_setFlag (b : Bool) (id : UInt64) : trace (setFlag w b) id = trace w id := rfl

@[simp] theorem trace_pay (r : Address) (v : UInt256) (p : Purpose) (id : UInt64) :
    trace (w.pay r v p) id =
      trace w id++if p.requestId? = some id then [⟨r,v,p,true⟩] else [] := by
  rw [trace,trace,Account.sent_pay,List.filter_append]
  by_cases h : p.requestId? = some id <;> simp [h]

@[simp] theorem trace_keep (r : Address) (v : UInt256) (p : Purpose) (id : UInt64) :
    trace (w.keep r v p) id =
      trace w id++if p.requestId? = some id then [⟨r,v,p,false⟩] else [] := by
  rw [trace,trace,Account.sent_keep,List.filter_append]
  by_cases h : p.requestId? = some id <;> simp [h]

section Request
variable {p : Purpose} {id j : UInt64} (hp : p.requestId? = some id)
include hp

theorem trace_pay_self (r : Address) (v : UInt256) :
    trace (w.pay r v p) id = trace w id++[⟨r,v,p,true⟩] := by
  rw [trace_pay,if_pos hp]

theorem trace_keep_self (r : Address) (v : UInt256) :
    trace (w.keep r v p) id = trace w id++[⟨r,v,p,false⟩] := by
  rw [trace_keep,if_pos hp]

theorem trace_pay_other (hj : j ≠ id) (r : Address) (v : UInt256) :
    trace (w.pay r v p) j = trace w j := by
  rw [trace_pay,if_neg,List.append_nil]
  exact fun h => hj (Option.some.inj (h.symm.trans hp))

theorem trace_keep_other (hj : j ≠ id) (r : Address) (v : UInt256) :
    trace (w.keep r v p) j = trace w j := by
  rw [trace_keep,if_neg,List.append_nil]
  exact fun h => hj (Option.some.inj (h.symm.trans hp))

end Request

@[simp] theorem setFlag_flag (b : Bool) : (setFlag w b).storage.externalCallFlag = b := rfl
@[simp] theorem setFlag_minFee (b : Bool) :
    (setFlag w b).storage.minFee = w.storage.minFee := rfl
@[simp] theorem setFlag_cancellationFee (b : Bool) :
    (setFlag w b).storage.cancellationFee = w.storage.cancellationFee := rfl
@[simp] theorem setFlag_requests (b : Bool) :
    (setFlag w b).storage.requests = w.storage.requests := rfl
@[simp] theorem setFlag_requestCnt (b : Bool) :
    (setFlag w b).storage.requestCnt = w.storage.requestCnt := rfl
@[simp] theorem setFlag_unrespondedCnt (b : Bool) :
    (setFlag w b).storage.unrespondedCnt = w.storage.unrespondedCnt := rfl
@[simp] theorem setFlag_balance (b : Bool) : (setFlag w b).balance = w.balance := rfl

end Simp

@[simp] theorem owed_delivered (c : UInt256) : owed c DELIVERED_FEE_FLAG = 0 := rfl
@[simp] theorem owed_cancelled (c : UInt256) : owed c CANCELLED_FEE_FLAG = c.toNat := rfl
@[simp] theorem pending_delivered : pending DELIVERED_FEE_FLAG = 0 := rfl
@[simp] theorem pending_cancelled : pending CANCELLED_FEE_FLAG = 1 := rfl

/-- From two wei on a fee is an amount and no flag. -/
theorem ne_delivered {fee : UInt256} (h : 2 ≤ fee) : fee ≠ DELIVERED_FEE_FLAG := by
  rintro rfl
  exact absurd h (by decide)

theorem ne_cancelled {fee : UInt256} (h : 2 ≤ fee) : fee ≠ CANCELLED_FEE_FLAG := by
  rintro rfl
  exact absurd h (by decide)

theorem owed_of_le {c fee : UInt256} (h : 2 ≤ fee) : owed c fee = fee.toNat := by
  rw [owed,if_neg (ne_delivered h),if_neg (ne_cancelled h)]

theorem pending_of_le {fee : UInt256} (h : 2 ≤ fee) : pending fee = 1 := by
  rw [pending,if_pos (ne_delivered h)]

theorem pending_le (fee : UInt256) : pending fee ≤ 1 := by
  unfold pending
  split_ifs <;> omega

theorem pending_eq_zero {fee : UInt256} : pending fee = 0 ↔ fee = DELIVERED_FEE_FLAG := by
  unfold pending
  split_ifs with h
  · simp [h]
  · simpa using h

theorem progress_congr {s s' : Storage} {i : RequestInfo} {callbackFID : Bytes4} {fee : UInt256}
    {calls : List (Transfer Purpose)} (hmin : s'.minFee = s.minFee)
    (hfee : s'.cancellationFee = s.cancellationFee) (h : Progress s i callbackFID fee calls) :
    Progress s' i callbackFID fee calls := by
  cases h with
  | outstanding h => exact .outstanding (hmin ▸ h)
  | cancelled h => exact hfee ▸ .cancelled (hfee ▸ h)
  | settled h => exact .settled h

namespace Inv
variable {keccak : Bytes → Bytes32} {w w' : World}

theorem id_range (hw : Inv keccak w) {i : RequestInfo} (hi : i ∈ infos w) :
    1 ≤ i.id.toNat ∧ i.id.toNat < w.storage.requestCnt.toNat := by
  have hmem : i.id.toNat ∈ (infos w).map (·.id.toNat) := List.mem_map_of_mem hi
  rw [hw.numbered,List.mem_range'_1] at hmem
  rw [hw.count]
  omega

theorem id_injective (hw : Inv keccak w) {i j : RequestInfo} (hi : i ∈ infos w)
    (hj : j ∈ infos w) (h : i.id = j.id) : i = j := by
  have hnodup : ((infos w).map (·.id.toNat)).Nodup := by
    rw [hw.numbered]
    exact List.nodup_range'
  exact List.inj_on_of_nodup_map hnodup hi hj (congrArg UInt64.toNat h)

/-- Every number in use belongs to an accepted request. -/
theorem exists_info (hw : Inv keccak w) {id : UInt64} (hlow : 1 ≤ id.toNat)
    (hhigh : id.toNat < w.storage.requestCnt.toNat) : ∃ i ∈ infos w, i.id = id := by
  have hmem : id.toNat ∈ (infos w).map (·.id.toNat) := by
    rw [hw.numbered,List.mem_range'_1]
    have := hw.count
    omega
  obtain ⟨i,hi,heq⟩ := List.mem_map.mp hmem
  exact ⟨i,hi,UInt64.toNat_inj.mp heq⟩

theorem info_of_fee (hw : Inv keccak w) {id : UInt64}
    (h : (w.storage.requests id).fee ≠ DELIVERED_FEE_FLAG) : ∃ i ∈ infos w, i.id = id := by
  by_cases hid : id = 0 ∨ w.storage.requestCnt ≤ id
  · exact absurd (hw.unused id hid).1 h
  · rw [not_or,UInt64.le_iff_toNat_le,← UInt64.toNat_inj,UInt64.toNat_zero] at hid
    exact hw.exists_info (by omega) (by omega)

theorem cnt_le (w : World) : w.storage.requestCnt.toNat ≤ 2^64 :=
  (UInt64.toNat_lt _).le

/-- An empty counter means that nothing is left to do. -/
theorem all_settled (hw : Inv keccak w) (h : w.storage.unrespondedCnt = 0) (id : UInt64) :
    (w.storage.requests id).fee = DELIVERED_FEE_FLAG := by
  by_contra hne
  obtain ⟨i,hi,rfl⟩ := hw.info_of_fee hne
  have hrange := hw.id_range hi
  have hzero : totalPending w = 0 := by rw [← hw.counter,h]; rfl
  have hle := le_total (fun r : Request => pending r.fee) w.storage.requests hrange.1 hrange.2
  rw [totalPending] at hzero
  exact hne (pending_eq_zero.mp (by omega))

theorem totalOwed_of_settled
    (h : ∀ id, (w.storage.requests id).fee = DELIVERED_FEE_FLAG) : totalOwed w = 0 := by
  rw [totalOwed,total_eq_zero _ (cnt_le w)]
  intro id _ _
  rw [h id,owed_delivered]

/-- The requests did not change; the fees did so only where no request depends on them. -/
theorem rebuild (hw : Inv keccak w) (ha : Agree w w')
    (hprog : ∀ i callbackFID id, Progress w.storage i callbackFID (w.storage.requests id).fee
      (trace w id) → Progress w'.storage i callbackFID (w.storage.requests id).fee (trace w id))
    (hbal : totalOwed w' ≤ w'.balance) (hmin : 2 ≤ w'.storage.minFee)
    (hfee : 2 ≤ w'.storage.cancellationFee) : Inv keccak w' := by
  refine ⟨?_,?_,?_,?_,?_,hbal,hmin,hfee⟩
  · rw [ha.requestCnt,ha.infos,hw.count]
  · rw [ha.infos,hw.numbered]
  · intro i hi
    rw [ha.infos] at hi
    obtain ⟨hhash,hr,hc,hp,hold⟩ := hw.entries i hi
    refine ⟨hhash,by rw [ha.requests,hr],by rw [ha.requests,hc],by rw [ha.requests,hp],?_⟩
    rw [ha.requests,ha.trace]
    exact hprog i _ i.id hold
  · intro id hid
    rw [ha.requestCnt] at hid
    rw [ha.requests,ha.trace]
    exact hw.unused id hid
  · rw [ha.unrespondedCnt,hw.counter,totalPending,totalPending,ha.requests,ha.requestCnt]

/-- The requests did not change and there is enough ether. -/
theorem frame (hw : Inv keccak w) (ha : Agree w w') (hmin : w'.storage.minFee = w.storage.minFee)
    (hfee : w'.storage.cancellationFee = w.storage.cancellationFee)
    (hbal : totalOwed w ≤ w'.balance) : Inv keccak w' := by
  refine hw.rebuild ha (fun i _ id => progress_congr hmin hfee) ?_ ?_ ?_
  · rw [totalOwed,ha.requests,ha.requestCnt,hfee]
    exact hbal
  · rw [hmin]
    exact hw.minFee
  · rw [hfee]
    exact hw.cancellationFee

/-- One accepted request moves on, the others stay. -/
theorem change (hw : Inv keccak w) {i : RequestInfo} (hi : i ∈ infos w) {fee : UInt256}
    (hmoved : Moved w w' i.id fee)
    (hprog : Progress w.storage i (w.storage.requests i.id).callbackFID fee (trace w' i.id))
    (hcounter : w'.storage.unrespondedCnt.toNat+pending (w.storage.requests i.id).fee =
      w.storage.unrespondedCnt.toNat+pending fee)
    (hbal : w.balance+owed w.storage.cancellationFee fee ≤
      w'.balance+owed w.storage.cancellationFee (w.storage.requests i.id).fee) :
    Inv keccak w' := by
  obtain ⟨hinfos,hcnt,hreq,hmin,hfee,htrace⟩ := hmoved
  have hrange := hw.id_range hi
  have hother : ∀ id, id ≠ i.id → w'.storage.requests id = w.storage.requests id := by
    intro id hne
    rw [hreq,setFee_requests,Function.update_of_ne hne]
  have hself : w'.storage.requests i.id = {w.storage.requests i.id with fee := fee} := by
    rw [hreq,setFee_requests,Function.update_self]
  refine ⟨?_,?_,?_,?_,?_,?_,?_,?_⟩
  · rw [hcnt,hinfos,hw.count]
  · rw [hinfos,hw.numbered]
  · intro j hj
    rw [hinfos] at hj
    obtain ⟨hhash,hr,hc,hp,hold⟩ := hw.entries j hj
    by_cases hij : j.id = i.id
    · obtain rfl := hw.id_injective hj hi hij
      refine ⟨hhash,by rw [hself,hr],by rw [hself,hc],by rw [hself,hp],?_⟩
      rw [hself]
      exact progress_congr hmin hfee hprog
    · refine ⟨hhash,by rw [hother _ hij,hr],by rw [hother _ hij,hc],by rw [hother _ hij,hp],?_⟩
      rw [hother _ hij,htrace _ hij]
      exact progress_congr hmin hfee hold
  · intro id hid
    rw [hcnt] at hid
    have hne : id ≠ i.id := by
      rintro rfl
      rcases hid with h | h
      · rw [h] at hrange
        exact absurd hrange.1 (by decide)
      · exact absurd (UInt64.le_iff_toNat_le.mp h) (by omega)
    rw [hother _ hne,htrace _ hne]
    exact hw.unused id hid
  · have htotal := total_write (fun r : Request => pending r.fee) w.storage.requests (cnt_le w)
      {w.storage.requests i.id with fee := fee} hrange.1 hrange.2
    have hold := hw.counter
    rw [totalPending] at hold ⊢
    rw [hreq,hcnt,setFee_requests]
    dsimp only at htotal ⊢
    omega
  · have htotal := total_write (fun r : Request => owed w.storage.cancellationFee r.fee)
      w.storage.requests (cnt_le w) {w.storage.requests i.id with fee := fee} hrange.1 hrange.2
    have hold := hw.solvent
    rw [totalOwed] at hold ⊢
    rw [hreq,hcnt,hfee,setFee_requests]
    dsimp only at htotal ⊢
    omega
  · rw [hmin]
    exact hw.minFee
  · rw [hfee]
    exact hw.cancellationFee

theorem counter_pos (hw : Inv keccak w) {i : RequestInfo} (hi : i ∈ infos w)
    (hne : (w.storage.requests i.id).fee ≠ DELIVERED_FEE_FLAG) :
    1 ≤ w.storage.unrespondedCnt.toNat := by
  have hrange := hw.id_range hi
  have hle := le_total (fun r : Request => pending r.fee) w.storage.requests hrange.1 hrange.2
  have hpos : pending (w.storage.requests i.id).fee ≠ 0 := fun h => hne (pending_eq_zero.mp h)
  rw [hw.counter,totalPending]
  omega

/-- `deliver` closes a request that is not closed yet. -/
theorem close (hw : Inv keccak w) {i : RequestInfo} (hi : i ∈ infos w)
    (hne : (w.storage.requests i.id).fee ≠ DELIVERED_FEE_FLAG)
    (hmoved : Moved w w' i.id DELIVERED_FEE_FLAG)
    (hcounter : w'.storage.unrespondedCnt = w.storage.unrespondedCnt-1)
    (hsettled : Settled i (w.storage.requests i.id).callbackFID (trace w' i.id))
    (hbal : w.balance ≤ w'.balance+owed w.storage.cancellationFee (w.storage.requests i.id).fee) :
    Inv keccak w' := by
  have hpos := hw.counter_pos hi hne
  have hle := pending_le (w.storage.requests i.id).fee
  have hpend : pending (w.storage.requests i.id).fee ≠ 0 := fun h => hne (pending_eq_zero.mp h)
  have hone : (1 : UInt64) ≤ w.storage.unrespondedCnt := UInt64.le_iff_toNat_le.mpr hpos
  refine hw.change hi hmoved (.settled hsettled) ?_ hbal
  rw [hcounter,UInt64.toNat_sub_of_le _ _ hone,UInt64.toNat_one,pending_delivered]
  omega

/-- With everything settled the owner may set any fees of two wei or more. -/
theorem refee (hw : Inv keccak w) (ha : Agree w w') (hzero : w.storage.unrespondedCnt = 0)
    (hmin : 2 ≤ w'.storage.minFee) (hfee : 2 ≤ w'.storage.cancellationFee) : Inv keccak w' := by
  have hall := hw.all_settled hzero
  refine hw.rebuild ha ?_ ?_ hmin hfee
  · intro i callbackFID id hprog
    have hz := hall id
    generalize (w.storage.requests id).fee = fee at hprog hz ⊢
    generalize trace w id = calls at hprog ⊢
    cases hprog with
    | outstanding h => exact absurd hz (ne_delivered (BitVec.le_trans hw.minFee h))
    | cancelled h => exact absurd hz (by decide)
    | settled h => exact .settled h
  · rw [totalOwed_of_settled fun id => by rw [ha.requests]; exact hall id]
    exact Nat.zero_le _

/-- `request` takes the next number into use. -/
theorem recorded (hw : Inv keccak w) {m : Msg} {requestType : UInt8} {callbackAddr : Address}
    {callbackFID : Bytes4} {timestamp : UInt256} {requestData : List Bytes32}
    (hvalue : w.storage.minFee ≤ m.value)
    (hbound : w.storage.requestCnt.toNat+1 < 2^64) :
    Inv keccak (record keccak m requestType callbackAddr callbackFID timestamp requestData
      (w.credit m.value)).2 := by
  have hlow : 1 ≤ w.storage.requestCnt.toNat := by rw [hw.count]; omega
  have hsucc : (w.storage.requestCnt+1).toNat = w.storage.requestCnt.toNat+1 := by
    rw [UInt64.toNat_add,UInt64.toNat_one,Nat.mod_eq_of_lt hbound]
  have hvalue2 : 2 ≤ m.value := BitVec.le_trans hw.minFee hvalue
  have hfresh := hw.unused w.storage.requestCnt (.inr UInt64.le_rfl)
  have hpend : totalPending w ≤ w.storage.requestCnt.toNat-1 :=
    total_le _ (fun r : Request => pending_le r.fee) _ _
  have hsuccU : (w.storage.unrespondedCnt+1).toNat = w.storage.unrespondedCnt.toNat+1 := by
    rw [UInt64.toNat_add,UInt64.toNat_one,Nat.mod_eq_of_lt (by rw [hw.counter]; omega)]
  have hne : ∀ i ∈ infos w, i.id ≠ w.storage.requestCnt := by
    intro i hi heq
    have := hw.id_range hi
    rw [heq] at this
    omega
  refine ⟨?_,?_,?_,?_,?_,?_,hw.minFee,hw.cancellationFee⟩
  · simp only [record,infos_emit,infos_set,infos_credit,Account.storage_emit,Account.storage_set,
      Account.storage_credit,Event.info?,Option.toList_some,List.length_append,List.length_cons,
      List.length_nil]
    rw [hsucc,hw.count]
  · simp only [record,infos_emit,infos_set,infos_credit,Account.storage_credit,Event.info?,
      Option.toList_some,List.map_append,List.map_cons,List.map_nil,List.length_append,
      List.length_cons,List.length_nil,List.range'_concat]
    rw [hw.numbered,hw.count]
    simp [add_comm]
  · intro i hi
    simp only [record,infos_emit,infos_set,infos_credit,Event.info?,Option.toList_some,
      List.mem_append,List.mem_singleton] at hi
    rcases hi with hi | rfl
    · obtain ⟨hhash,hr,hc,hp,hprog⟩ := hw.entries i hi
      refine ⟨hhash,?_,?_,?_,?_⟩ <;>
        simp only [record,Account.storage_emit,Account.storage_set,Account.storage_credit,
          Function.update_of_ne (hne i hi),trace_emit,trace_set,trace_credit]
      · exact hr
      · exact hc
      · exact hp
      · exact progress_congr (by rfl) (by rfl) hprog
    · refine ⟨rfl,?_,?_,?_,?_⟩ <;>
        simp only [record,Account.storage_emit,Account.storage_set,Account.storage_credit,
          Function.update_self,trace_emit,trace_set,trace_credit]
      rw [hfresh.2]
      exact .outstanding hvalue
  · intro id hid
    simp only [record,Account.storage_emit,Account.storage_set,Account.storage_credit,trace_emit,
      trace_set,trace_credit] at hid ⊢
    have hunused : id = 0 ∨ w.storage.requestCnt ≤ id := by
      rcases hid with h | h
      · exact .inl h
      · rw [UInt64.le_iff_toNat_le,hsucc] at h
        exact .inr (UInt64.le_iff_toNat_le.mpr (by omega))
    have hid' : id ≠ w.storage.requestCnt := by
      rintro rfl
      rcases hid with h | h
      · rw [h] at hlow
        exact absurd hlow (by decide)
      · rw [UInt64.le_iff_toNat_le,hsucc] at h
        omega
    rw [Function.update_of_ne hid']
    exact hw.unused id hunused
  · have htotal := total_push (fun r : Request => pending r.fee) w.storage.requests
      ⟨m.sender,m.value,callbackAddr,callbackFID,keccak (encodePacked requestType requestData)⟩ hlow
    simp only [record,totalPending,Account.storage_emit,Account.storage_set,Account.storage_credit,
      hsucc,hsuccU]
    rw [htotal,hw.counter,totalPending,pending_of_le hvalue2]
  · have htotal := total_push (fun r : Request => owed w.storage.cancellationFee r.fee)
      w.storage.requests
      ⟨m.sender,m.value,callbackAddr,callbackFID,keccak (encodePacked requestType requestData)⟩ hlow
    have hold := hw.solvent
    simp only [record,totalOwed,Account.storage_emit,Account.storage_set,Account.storage_credit,
      Account.balance_emit,Account.balance_set,Account.balance_credit,hsucc]
    rw [htotal,owed_of_le hvalue2]
    rw [totalOwed] at hold
    omega

end Inv
end TownCrier.Contract
