import TownCrier.Safety

/-!
# Which settlements are logged

`deliver` logs an answer and an error, the error only after its refund. It logs
nothing when it closes a cancelled request. Between transactions the numbers in
the log of deliveries are those of the settlements by answer and by error.
-/
namespace TownCrier.Contract
open BigEndian CallMachine Evm

def Event.delivered? : Event → Option UInt64
  | .deliverInfo requestId .. => some requestId
  | _ => none

/-- The requests with a `DeliverInfo` event. -/
def delivers (w : World) : List UInt64 := w.logs.filterMap Event.delivered?

def Purpose.answered? : Purpose → Option UInt64
  | .deliveryFee d | .errorRefund d => some d.requestId
  | _ => none

/-- The requests which `deliver` closed with an answer or an error. -/
def answered (w : World) : List UInt64 := w.sent.filterMap fun t => t.purpose.answered?

def Purpose.charged? : Purpose → Option UInt64
  | .cancellationFee d => some d.requestId
  | _ => none

/-- The requests which `deliver` closed after they had been cancelled. -/
def charged (w : World) : List UInt64 := w.sent.filterMap fun t => t.purpose.charged?

/-- No answer is lost, and those not logged yet were so before. -/
structure Logged (e w : World) : Prop where
  kept : ∀ id ∈ answered e, id ∈ answered w
  settled : ∀ id ∈ answered w, id ∉ delivers w → id ∈ answered e ∧ id ∉ delivers e

/-- The same, but for one request whose event is still to come. -/
structure Unlogged (e w : World) (requestId : UInt64) : Prop where
  mem : requestId ∈ answered w
  kept : ∀ id ∈ answered e, id ∈ answered w
  settled : ∀ id ∈ answered w, id ∉ delivers w → id = requestId ∨ id ∈ answered e ∧ id ∉ delivers e

/-- Only settlements are logged. -/
def Logs (w : World) : Prop := ∀ id ∈ delivers w, id ∈ answered w

def logAssertions : Assertions World Kont where
  inv := Logs
  rel := Logged
  held
    | .deliverRefund _ d _, e, h => Unlogged e h d.requestId
    | _, e, h => Logged e h
  failed
    | .deliverRefund _ d _, e, s => Logs s ∧ Unlogged e s d.requestId
    | .deliverCallback, e, s => Logs s ∧ Logged e s
    | _, _, _ => True

variable {keccak : Bytes → Bytes32} {e w w' : World}

section Simp
variable (w : World)

@[simp] theorem delivers_set (s : Storage) : delivers (w.set s) = delivers w := rfl
@[simp] theorem delivers_credit (v : UInt256) : delivers (w.credit v) = delivers w := rfl
@[simp] theorem delivers_setFlag (b : Bool) : delivers (setFlag w b) = delivers w := rfl
@[simp] theorem delivers_pay (r : Address) (v : UInt256) (p : Purpose) :
    delivers (w.pay r v p) = delivers w := rfl
@[simp] theorem delivers_keep (r : Address) (v : UInt256) (p : Purpose) :
    delivers (w.keep r v p) = delivers w := rfl

@[simp] theorem delivers_emit (e : Event) :
    delivers (w.emit e) = delivers w++(e.delivered?).toList := by
  rw [delivers,delivers,Account.logs_emit,List.filterMap_append]
  cases h : e.delivered? <;> simp [h]

@[simp] theorem answered_set (s : Storage) : answered (w.set s) = answered w := rfl
@[simp] theorem answered_emit (e : Event) : answered (w.emit e) = answered w := rfl
@[simp] theorem answered_credit (v : UInt256) : answered (w.credit v) = answered w := rfl
@[simp] theorem answered_setFlag (b : Bool) : answered (setFlag w b) = answered w := rfl

@[simp] theorem answered_pay (r : Address) (v : UInt256) (p : Purpose) :
    answered (w.pay r v p) = answered w++p.answered?.toList := by
  rw [answered,answered,Account.sent_pay,List.filterMap_append]
  cases h : p.answered? <;> simp [h]

@[simp] theorem answered_keep (r : Address) (v : UInt256) (p : Purpose) :
    answered (w.keep r v p) = answered w++p.answered?.toList := by
  rw [answered,answered,Account.sent_keep,List.filterMap_append]
  cases h : p.answered? <;> simp [h]

end Simp

theorem Logged.refl (w : World) : Logged w w := ⟨fun _ h => h,fun _ h h' => ⟨h,h'⟩⟩

theorem Logged.trans {w₁ w₂ w₃ : World} (h : Logged w₁ w₂) (h' : Logged w₂ w₃) : Logged w₁ w₃ where
  kept := fun id hid => h'.kept id (h.kept id hid)
  settled := by
    intro id hid hlog
    obtain ⟨hid,hlog⟩ := h'.settled id hid hlog
    exact h.settled id hid hlog

theorem Unlogged.trans {w₁ w₂ w₃ : World} {id : UInt64} (h : Unlogged w₁ w₂ id)
    (h' : Logged w₂ w₃) : Unlogged w₁ w₃ id where
  mem := h'.kept id h.mem
  kept := fun j hj => h'.kept j (h.kept j hj)
  settled := by
    intro j hj hlog
    obtain ⟨hj,hlog⟩ := h'.settled j hj hlog
    exact h.settled j hj hlog

/-- What neither settles nor logs a settlement. -/
theorem Logs.of_eq (hw : Logs w) (ha : answered w' = answered w) (hd : delivers w' = delivers w) :
    Logs w' := by
  intro id hid
  rw [ha]
  exact hw id (hd ▸ hid)

theorem Logged.of_eq (h : Logged e w) (ha : answered w' = answered w)
    (hd : delivers w' = delivers w) : Logged e w' where
  kept := fun id hid => ha ▸ h.kept id hid
  settled := fun id hid hlog => h.settled id (ha ▸ hid) (hd ▸ hlog)

theorem logs_callback {m : Msg} {d : Delivery} {fee : UInt256} (hw : Logs w)
    (h : Unlogged e w d.requestId) :
    logAssertions.Post (fun _ => True) e (callback m d fee w) := by
  have hlogged : ∀ {w'}, answered w' = answered w → delivers w' = delivers w++[d.requestId] →
      Logs w' ∧ Logged e w' := by
    intro w' ha hd
    constructor
    · intro id hid
      rw [hd,List.mem_append,List.mem_singleton] at hid
      rw [ha]
      rcases hid with hid | rfl
      · exact hw id hid
      · exact h.mem
    · refine ⟨fun id hid => ha ▸ h.kept id hid,fun id hid hlog => ?_⟩
      rw [hd,List.mem_append,List.mem_singleton,not_or] at hlog
      exact (h.settled id (ha ▸ hid) hlog.1).resolve_left hlog.2
  unfold callback
  split_ifs
  · trivial
  · refine Account.post_callOut _ (fun _ _ => ?_) fun hfunds => absurd (Nat.zero_le _) hfunds
    refine and_assoc.mp ⟨hlogged ?_ ?_,hlogged ?_ ?_⟩
    · simp [Purpose.answered?]
    · simp [Event.delivered?]
    · simp [Purpose.answered?]
    · simp [Event.delivered?]

theorem logs_done (hw : Logs w) (h : Logged e w) {r : Option ℤ} (ha : answered w' = answered w)
    (hd : delivers w' = delivers w) : logAssertions.Post (fun _ => True) e (.done r w') :=
  fun _ => ⟨hw.of_eq ha hd,h.of_eq ha hd⟩

/-- A call that settles nothing and has to succeed. -/
theorem logs_callOut {a : World} (hw : Logs w) (ha : answered a = answered w)
    (hd : delivers a = delivers w) {r : Address} {v : UInt256} {p : Purpose} {k : Kont}
    {onFailure : World → Result} (hp : p.answered? = none)
    (hheld : ∀ h, Logged w h → logAssertions.held k w h)
    (hfailed : ∀ s, logAssertions.failed k w s) (hrevert : ∀ w, onFailure w = .revert) :
    logAssertions.Post (fun _ => True) w (a.callOut r v p k onFailure) := by
  refine Account.post_callOut _ (fun _ _ => ?_) fun _ => by rw [hrevert]; trivial
  have hpay : answered (a.pay r v p) = answered w := by simp [hp,ha]
  exact ⟨hw.of_eq hpay hd,hheld _ ((Logged.refl w).of_eq hpay hd),hfailed _⟩

theorem logs_settle {a : World} {p : Purpose} {id : UInt64} (hw : Logs w)
    (ha : answered a = answered w++p.answered?.toList) (hd : delivers a = delivers w)
    (hp : p.answered? = some id) : Logs a ∧ Unlogged w a id := by
  rw [hp] at ha
  refine ⟨fun j hj => ?_,?_,fun j hj => ?_,fun j hj hlog => ?_⟩
  · rw [ha]
    exact List.mem_append_left _ (hw j (hd ▸ hj))
  · simp [ha]
  · rw [ha]
    exact List.mem_append_left _ hj
  · rw [ha,Option.toList_some,List.mem_append,List.mem_singleton] at hj
    exact (hj.imp_left fun hj => ⟨hj,hd ▸ hlog⟩).symm

theorem logs_deliver {m : Msg} {requestId : UInt64} {paramsHash : Bytes32} {error : UInt64}
    {respData : Bytes32} (hw : Logs w) :
    logAssertions.Post (fun _ => True) w (deliver m requestId paramsHash error respData w) := by
  unfold deliver Account.transfer
  dsimp only
  split_ifs
  · exact logs_done hw (.refl w) rfl rfl
  · exact logs_done hw (.refl w) rfl rfl
  · exact logs_done hw (.refl w) (by simp [markDelivered,Purpose.answered?]) rfl
  · trivial
  · have hsettle := logs_settle (p := .deliveryFee ⟨m.sender,requestId,paramsHash,error,respData⟩)
      hw (answered_pay (markDelivered w requestId) SGX_ADDRESS (w.storage.requests requestId).fee _)
      rfl rfl
    exact logs_callback hsettle.1 hsettle.2
  · trivial
  · have hsettle : ∀ {a : World}, answered a = answered w++[requestId] →
        delivers a = delivers w → Logs a ∧ Unlogged w a requestId := fun ha hd =>
      logs_settle (p := .errorRefund ⟨m.sender,requestId,paramsHash,error,respData⟩) hw ha hd rfl
    refine Account.post_callOut _ (fun _ _ => ?_) fun _ => ?_
    · have hpay := hsettle (a := (setFlag (markDelivered w requestId) true).pay
        (w.storage.requests requestId).requester (w.storage.requests requestId).fee
          (.errorRefund ⟨m.sender,requestId,paramsHash,error,respData⟩))
        (by simp [markDelivered,Purpose.answered?]) rfl
      exact ⟨hpay.1,hpay.2,hsettle (by simp [markDelivered,Purpose.answered?]) rfl⟩
    · have hkeep := hsettle (a := setFlag ((setFlag (markDelivered w requestId) true).keep
        (w.storage.requests requestId).requester (w.storage.requests requestId).fee
          (.errorRefund ⟨m.sender,requestId,paramsHash,error,respData⟩)) false)
        (by simp [markDelivered,Purpose.answered?]) rfl
      exact logs_callback hkeep.1 hkeep.2

theorem logs_start (hw : Logs w) (c : Call) :
    logAssertions.Post (fun _ => True) w (start keccak c w) := by
  cases c with
  | forced value => exact logs_done hw (.refl w) rfl rfl
  | message m f =>
      cases f with
      | fallback => exact post_nonPayable (logs_done hw (.refl w) rfl rfl)
      | upgrade =>
          refine post_nonPayable ?_
          unfold upgrade
          split_ifs
          · exact logs_done hw (.refl w) rfl (by simp [Event.delivered?])
          · exact logs_done hw (.refl w) rfl rfl
      | reset =>
          refine post_nonPayable ?_
          unfold reset
          split_ifs
          · exact logs_done hw (.refl w) rfl (by simp [Event.delivered?])
          · exact logs_done hw (.refl w) rfl rfl
      | suspend =>
          refine post_nonPayable ?_
          unfold suspend
          split_ifs
          · exact logs_done hw (.refl w) rfl rfl
          · exact logs_done hw (.refl w) rfl rfl
      | restart =>
          refine post_nonPayable ?_
          unfold restart
          split_ifs
          · exact logs_done hw (.refl w) rfl rfl
          · exact logs_done hw (.refl w) rfl rfl
      | withdraw =>
          refine post_nonPayable ?_
          unfold withdraw
          split_ifs
          · exact logs_callOut hw rfl rfl rfl (fun _ h => h) (fun _ => trivial) fun _ => rfl
          · exact logs_done hw (.refl w) rfl rfl
      | request =>
          unfold start request
          dsimp only
          split_ifs
          · trivial
          · exact logs_callOut (k := .requestKilled) hw (by rfl) (by rfl) (by rfl) (fun _ h => h)
              (fun _ => trivial) fun _ => rfl
          · exact logs_callOut (k := .requestUnderpaid) hw (by rfl) (by rfl) (by rfl)
              (fun _ h => h) (fun _ => trivial) fun _ => rfl
          · exact logs_done hw (.refl w) rfl (by simp [record,Event.delivered?])
      | deliver => exact post_nonPayable (logs_deliver hw)
      | cancel =>
          refine post_nonPayable ?_
          unfold cancel
          dsimp only
          split_ifs
          · trivial
          · exact logs_done hw (.refl w) rfl rfl
          · exact logs_callOut (k := .cancelRefund m _) hw (by rfl) (by rfl) (by rfl)
              (fun _ h => h) (fun _ => trivial) fun _ => rfl
          · exact logs_done hw (.refl w) rfl (by simp [Event.delivered?])

theorem logs_resume {k : Kont} {h : World} (hheld : logAssertions.held k e h) (hrel : Logged h w)
    (hw : Logs w) : logAssertions.Post (fun _ => True) e (resume k (some ()) w) := by
  cases k with
  | requestKilled | requestUnderpaid | withdraw | deliverCallback =>
      exact logs_done hw (Logged.trans hheld hrel) rfl rfl
  | cancelRefund m requestId =>
      exact logs_done hw (Logged.trans hheld hrel) rfl (by simp [Event.delivered?])
  | deliverRefund m d fee =>
      have hunlogged := Unlogged.trans hheld hrel
      exact logs_callback (hw.of_eq rfl rfl)
        ⟨hunlogged.mem,hunlogged.kept,hunlogged.settled⟩

theorem logs_recover {k : Kont} {s : World} (hfailed : logAssertions.failed k e s) :
    logAssertions.Post (fun _ => True) e (resume k none s) := by
  cases k with
  | requestKilled => trivial
  | requestUnderpaid => trivial
  | withdraw => trivial
  | cancelRefund m requestId => trivial
  | deliverRefund m d fee =>
      obtain ⟨hs,hunlogged⟩ := hfailed
      exact logs_callback (hs.of_eq rfl rfl) ⟨hunlogged.mem,hunlogged.kept,hunlogged.settled⟩
  | deliverCallback => exact logs_done hfailed.1 hfailed.2 rfl rfl

theorem logs_sound (keccak : Bytes → Bytes32) {w₀ : World} (hw₀ : Logs w₀) :
    logAssertions.Sound (code keccak) (fun _ => True) w₀ where
  refl := .refl
  trans := .trans
  initial := hw₀
  start := fun c _ hw _ => logs_start hw c
  resume := fun _ _ _ _ _ hheld hrel hw => logs_resume hheld hrel hw
  recover := fun _ _ _ hfailed => logs_recover hfailed

variable {owner : Address} {balance : ℕ} {s : Config World Kont}
variable {allowed : Config World Kont → Action Call Unit → Config World Kont → Prop}

theorem logs_constructor : Logs (constructor owner balance) :=
  fun _ h => absurd h List.not_mem_nil

/-- Between transactions the log of deliveries names the settlements by answer
and by error, and no others. -/
theorem delivers_iff (h : Reach (code keccak) allowed (constructor owner balance) s)
    (hstack : s.stack = []) (id : UInt64) : id ∈ delivers s.world ↔ id ∈ answered s.world := by
  obtain ⟨hlogs,hstacked⟩ := (logs_sound keccak logs_constructor).reach (fun _ _ _ _ => trivial) h
  rw [hstack] at hstacked
  have hlogged : Logged (constructor owner balance) s.world := hstacked
  refine ⟨hlogs id,fun hid => ?_⟩
  by_contra hlog
  exact absurd (hlogged.settled id hid hlog).1 List.not_mem_nil

/-- A transfer that tells the request it is for is found in the trace of that request. -/
theorem mem_filterMap_sent {tells : Purpose → Option UInt64} {id : UInt64}
    (htells : ∀ p, tells p = some id → p.requestId? = some id) :
    id ∈ w.sent.filterMap (fun t => tells t.purpose) ↔
      ∃ t ∈ trace w id, tells t.purpose = some id := by
  rw [List.mem_filterMap]
  constructor
  · rintro ⟨t,ht,hid⟩
    exact ⟨t,List.mem_filter.mpr ⟨ht,decide_eq_true (htells _ hid)⟩,hid⟩
  · rintro ⟨t,ht,hid⟩
    exact ⟨t,(List.mem_filter.mp ht).1,hid⟩

theorem mem_answered {id : UInt64} :
    id ∈ answered w ↔ ∃ t ∈ trace w id, t.purpose.answered? = some id := by
  refine mem_filterMap_sent fun p hp => ?_
  cases p <;> cases hp <;> rfl

theorem mem_charged {id : UInt64} :
    id ∈ charged w ↔ ∃ t ∈ trace w id, t.purpose.charged? = some id := by
  refine mem_filterMap_sent fun p hp => ?_
  cases p <;> cases hp
  rfl

theorem called_silent {i : RequestInfo} {callbackFID : Bytes4} {d : Delivery}
    {calls : List (Transfer Purpose)} (h : Called i callbackFID d calls) :
    ∀ t ∈ calls, t.purpose.answered? = none ∧ t.purpose.charged? = none := by
  rcases h with rfl | ⟨success,rfl⟩
  · exact fun t ht => absurd ht List.not_mem_nil
  · intro t ht
    rw [List.mem_singleton.mp ht]
    exact ⟨rfl,rfl⟩

/-- A closed request was answered or charged for its cancellation, never both. -/
theorem Inv.closed_cases (hw : Inv keccak w) {i : RequestInfo} (hi : i ∈ infos w) :
    ((w.storage.requests i.id).fee ≠ DELIVERED_FEE_FLAG ∧ i.id ∉ answered w ∧ i.id ∉ charged w) ∨
    ((w.storage.requests i.id).fee = DELIVERED_FEE_FLAG ∧ i.id ∈ answered w ∧ i.id ∉ charged w) ∨
    ((w.storage.requests i.id).fee = DELIVERED_FEE_FLAG ∧ i.id ∉ answered w ∧
      i.id ∈ charged w) := by
  have hprog := (hw.entries i hi).progress
  rw [mem_answered,mem_charged]
  generalize (w.storage.requests i.id).fee = fee at hprog
  generalize trace w i.id = calls at hprog
  cases hprog with
  | outstanding hfee =>
      exact .inl ⟨ne_delivered (BitVec.le_trans hw.minFee hfee),by simp,by simp⟩
  | cancelled hcharge =>
      exact .inl ⟨by decide,by simp [refund,Purpose.answered?],by simp [refund,Purpose.charged?]⟩
  | settled hsettled =>
      cases hsettled with
      | cancelled charge d hcharge hauth =>
          refine .inr (.inr ⟨rfl,by simp [refund,Purpose.answered?],?_⟩)
          exact ⟨_,List.mem_cons_of_mem _ List.mem_cons_self,congrArg some hauth.requestId⟩
      | answered d calls hauth herror hcalls =>
          refine .inr (.inl ⟨rfl,⟨_,List.mem_cons_self,congrArg some hauth.requestId⟩,?_⟩)
          rintro ⟨t,ht,hid⟩
          rcases List.mem_cons.mp ht with rfl | ht
          · cases hid
          · cases (called_silent hcalls t ht).2.symm.trans hid
      | refunded d success calls hauth herror hcalls =>
          refine .inr (.inl ⟨rfl,⟨_,List.mem_cons_self,congrArg some hauth.requestId⟩,?_⟩)
          rintro ⟨t,ht,hid⟩
          rcases List.mem_cons.mp ht with rfl | ht
          · cases hid
          · cases (called_silent hcalls t ht).2.symm.trans hid

/-- Only accepted requests have transfers. -/
theorem Inv.info_of_charged (hw : Inv keccak w) {id : UInt64} (h : id ∈ charged w) :
    ∃ i ∈ infos w, i.id = id := by
  obtain ⟨t,ht,-⟩ := mem_charged.mp h
  by_cases hid : id = 0 ∨ w.storage.requestCnt ≤ id
  · rw [(hw.unused id hid).2] at ht
    exact absurd ht List.not_mem_nil
  · rw [not_or,UInt64.le_iff_toNat_le,← UInt64.toNat_inj,UInt64.toNat_zero] at hid
    exact hw.exists_info (by omega) (by omega)

end TownCrier.Contract
