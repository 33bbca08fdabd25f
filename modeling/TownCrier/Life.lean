import TownCrier.ReturnCode

/-!
# The life of a request

The fee of a record is an amount or one of two flags, so it tells the status of
the request only as long as no amount and no threshold comes down to a flag. The
owner may set fees that do. Under the condition that they never matter, each
piece of code moves a request one step forward or leaves it where it is.
-/
namespace TownCrier.Contract
open BigEndian CallMachine Evm

inductive Status where
  | unused
  | outstanding
  | cancelled
  | delivered
  deriving DecidableEq

/-- What the stored fee means, given the requests accepted so far. -/
def status (w : World) (id : UInt64) : Status :=
  let fee := (w.storage.requests id).fee
  if fee = DELIVERED_FEE_FLAG then
    if id ∈ (infos w).map (·.id) then .delivered else .unused
  else if fee = CANCELLED_FEE_FLAG then .cancelled
  else .outstanding

/-- One step forward. -/
inductive Next : Status → Status → Prop
  | accept : Next .unused .outstanding
  | cancel : Next .outstanding .cancelled
  | answer : Next .outstanding .delivered
  | close : Next .cancelled .delivered

/-- One piece of code moves each request by one step at most. -/
def Forward (w w' : World) : Prop :=
  ∀ id, status w' id = status w id ∨ Next (status w id) (status w' id)

/-- Any number of steps forward. -/
def Later (w w' : World) : Prop :=
  ∀ id, Relation.ReflTransGen Next (status w id) (status w' id)

/-- The call takes no amount for a flag and no flag for an amount, and it does
not use the number zero. -/
def Distinct (w : World) : Call → Prop
  | .message m (.request _ _ _ _ _) =>
      w.storage.externalCallFlag = false → w.storage.killswitch = false →
        w.storage.minFee ≤ m.value → 2 ≤ m.value ∧ w.storage.requestCnt ≠ 0
  | .message m (.cancel requestId) =>
      m.value = 0 → w.storage.externalCallFlag = false → w.storage.killswitch = false →
        (w.storage.requests requestId).requester = m.sender →
        w.storage.cancellationFee ≤ (w.storage.requests requestId).fee →
          2 ≤ (w.storage.requests requestId).fee
  | _ => True

/-- The records and the accepted requests are the same. -/
structure Same (w w' : World) : Prop where
  infos : infos w' = infos w
  requestCnt : w'.storage.requestCnt = w.storage.requestCnt
  requests : w'.storage.requests = w.storage.requests

/-- What a piece of code that starts with a call does to the records. -/
inductive Effect (keccak : Bytes → Bytes32) (w : World) : Call → World → Prop
  | same {c w'} (h : Same w w') : Effect keccak w c w'
  | recorded {m requestType callbackAddr callbackFID timestamp requestData w'}
      (hflag : w.storage.externalCallFlag = false) (hkill : w.storage.killswitch = false)
      (hfee : w.storage.minFee ≤ m.value)
      (h : Same (record keccak m requestType callbackAddr callbackFID timestamp requestData
        (w.credit m.value)).2 w') :
      Effect keccak w
        (.message m (.request requestType callbackAddr callbackFID timestamp requestData)) w'
  | cancelled {m requestId w'} (hvalue : m.value = 0)
      (hflag : w.storage.externalCallFlag = false) (hkill : w.storage.killswitch = false)
      (hrequester : (w.storage.requests requestId).requester = m.sender)
      (hfee : w.storage.cancellationFee ≤ (w.storage.requests requestId).fee)
      (h : Same (w.set (w.storage.setFee requestId CANCELLED_FEE_FLAG)) w') :
      Effect keccak w (.message m (.cancel requestId)) w'
  | delivered {m requestId paramsHash error respData w'}
      (hfee : (w.storage.requests requestId).fee ≠ DELIVERED_FEE_FLAG)
      (h : Same (w.set (w.storage.setFee requestId DELIVERED_FEE_FLAG)) w') :
      Effect keccak w (.message m (.deliver requestId paramsHash error respData)) w'

variable {keccak : Bytes → Bytes32} {w w' : World}

theorem Same.refl (w : World) : Same w w := ⟨rfl,rfl,rfl⟩

theorem Same.trans {w₁ w₂ w₃ : World} (h : Same w₁ w₂) (h' : Same w₂ w₃) : Same w₁ w₃ :=
  ⟨h'.infos.trans h.infos,h'.requestCnt.trans h.requestCnt,h'.requests.trans h.requests⟩

theorem same_callback {a : World} (h : Same w a) {m : Msg} {d : Delivery} {fee : UInt256} :
    (callback m d fee a).All (Same w) fun _ => True := by
  unfold callback
  split_ifs
  · trivial
  · refine Account.all_callOut _ (h.trans ?_) (h.trans ?_) trivial (h.trans ?_)
    all_goals exact ⟨by simp [Event.info?],rfl,rfl⟩

theorem same_resume (k : Kont) (answer : Option Unit) :
    (resume k answer w).All (Same w) fun _ => True := by
  cases k with
  | deliverRefund m d fee =>
      apply same_callback
      exact ⟨rfl,rfl,rfl⟩
  | deliverCallback => exact ⟨rfl,rfl,rfl⟩
  | cancelRefund m requestId =>
      cases answer with
      | none => trivial
      | some _ => exact ⟨by simp [Event.info?],rfl,rfl⟩
  | requestKilled | requestUnderpaid | withdraw =>
      cases answer with
      | none => trivial
      | some _ => exact ⟨rfl,rfl,rfl⟩

theorem effect_request {m : Msg} {requestType : UInt8} {callbackAddr : Address}
    {callbackFID : Bytes4} {timestamp : UInt256} {requestData : List Bytes32} :
    (start keccak (.message m (.request requestType callbackAddr callbackFID timestamp requestData))
      w).All (Effect keccak w
        (.message m (.request requestType callbackAddr callbackFID timestamp requestData)))
      fun _ => True := by
  unfold start request
  dsimp only
  split_ifs with hflag hkill hvalue
  · trivial
  · exact Account.all_callOut _ (.same ⟨rfl,rfl,rfl⟩) (.same ⟨rfl,rfl,rfl⟩) trivial trivial
  · exact Account.all_callOut _ (.same ⟨rfl,rfl,rfl⟩) (.same ⟨rfl,rfl,rfl⟩) trivial trivial
  · exact .recorded (by simpa using hflag) (by simpa using hkill) (BitVec.not_lt.mp hvalue) (.refl _)

theorem effect_deliver {m : Msg} {requestId : UInt64} {paramsHash : Bytes32} {error : UInt64}
    {respData : Bytes32} :
    (deliver m requestId paramsHash error respData w).All
      (Effect keccak w (.message m (.deliver requestId paramsHash error respData)))
      fun _ => True := by
  have hclose : ∀ {o : Result}, (w.storage.requests requestId).fee ≠ DELIVERED_FEE_FLAG →
      o.All (Same (w.set (w.storage.setFee requestId DELIVERED_FEE_FLAG))) (fun _ => True) →
      o.All (Effect keccak w (.message m (.deliver requestId paramsHash error respData)))
        fun _ => True := by
    intro o hfee ho
    cases o with
    | done result w' => exact .delivered hfee ho
    | revert => trivial
    | call saved handover k => exact ⟨.delivered hfee ho.1,.delivered hfee ho.2.1,trivial⟩
  unfold deliver Account.transfer
  dsimp only
  split_ifs with hguard hhash hcancelled hfunds herror hfunds
  · exact .same (.refl w)
  · exact .same (.refl w)
  all_goals simp only [not_or] at hguard
  · exact .delivered hguard.2.2.2 ⟨rfl,rfl,rfl⟩
  · trivial
  · apply hclose hguard.2.2.2
    apply same_callback
    exact ⟨rfl,rfl,rfl⟩
  · trivial
  · apply hclose hguard.2.2.2
    refine Account.all_callOut _ ⟨rfl,rfl,rfl⟩ ⟨rfl,rfl,rfl⟩ trivial ?_
    apply same_callback
    exact ⟨rfl,rfl,rfl⟩

theorem effect_cancel {m : Msg} {requestId : UInt64} :
    (start keccak (.message m (.cancel requestId)) w).All
      (Effect keccak w (.message m (.cancel requestId))) fun _ => True := by
  unfold start nonPayable cancel
  dsimp only
  split_ifs with hvalue hflag hkill hopen
  · trivial
  · exact .same (.refl w)
  · have heffect : ∀ {w'}, Same (w.set (w.storage.setFee requestId CANCELLED_FEE_FLAG)) w' →
        Effect keccak w (.message m (.cancel requestId)) w' :=
      .cancelled hvalue (by simpa using hflag) (by simpa using hkill) hopen.1 hopen.2
    exact Account.all_callOut _ (heffect ⟨rfl,rfl,rfl⟩) (heffect ⟨rfl,rfl,rfl⟩) trivial trivial
  · exact .same ⟨by simp [Event.info?],rfl,rfl⟩
  · trivial

theorem effect_withdraw {m : Msg} :
    (withdraw m w).All (Effect keccak w (.message m .withdraw)) fun _ => True := by
  unfold withdraw
  split_ifs
  · exact Account.all_callOut _ (.same ⟨rfl,rfl,rfl⟩) (.same ⟨rfl,rfl,rfl⟩) trivial trivial
  · exact .same (.refl w)

theorem effect_start (c : Call) : (start keccak c w).All (Effect keccak w c) fun _ => True := by
  cases c with
  | forced value => exact .same ⟨rfl,rfl,rfl⟩
  | message m f =>
      by_cases hf : isSetting f = true
      · obtain ⟨w',hw',heq⟩ := start_setting keccak w m hf
        rw [heq]
        exact all_nonPayable (.same ⟨hw'.infos,hw'.requestCnt,hw'.requests⟩)
      cases f with
      | fallback | upgrade | reset | suspend | restart => exact absurd rfl hf
      | withdraw => exact all_nonPayable effect_withdraw
      | request => exact effect_request
      | deliver => exact all_nonPayable effect_deliver
      | cancel => exact effect_cancel

/-- The numbers of the accepted requests have been counted, and only their
records hold a fee. -/
structure Tidy (w : World) : Prop where
  used : ∀ i ∈ infos w, i.id ≠ 0 ∧ (w.storage.requestCnt = 0 ∨ i.id < w.storage.requestCnt)
  unused : ∀ id, id ∉ (infos w).map (·.id) → (w.storage.requests id).fee = DELIVERED_FEE_FLAG

theorem Same.tidy (h : Same w w') (hw : Tidy w) : Tidy w' := by
  obtain ⟨hinfos,hcnt,hrequests⟩ := h
  refine ⟨fun i hi => ?_,fun id hid => ?_⟩
  · rw [hcnt]
    exact hw.used i (hinfos ▸ hi)
  · rw [hrequests]
    exact hw.unused id (hinfos ▸ hid)

theorem Same.status (h : Same w w') (id : UInt64) : status w' id = status w id := by
  unfold Contract.status
  rw [h.infos,h.requests]

theorem Tidy.zero (hw : Tidy w) : status w 0 = .unused := by
  have hid : (0 : UInt64) ∉ (infos w).map (·.id) := by
    rw [List.mem_map]
    rintro ⟨i,hi,h0⟩
    exact (hw.used i hi).1 h0
  unfold status
  rw [hw.unused 0 hid,if_pos rfl,if_neg hid]

theorem status_outstanding {id : UInt64} (h : 2 ≤ (w.storage.requests id).fee) :
    status w id = .outstanding := by
  unfold status
  dsimp only
  rw [if_neg (ne_delivered h),if_neg (ne_cancelled h)]

theorem lt_next {a b : UInt64} (h : a ≤ b) : b+1 = 0 ∨ a < b+1 := by
  rw [← UInt64.toNat_inj,UInt64.lt_iff_toNat_lt,UInt64.toNat_add]
  have hle := UInt64.le_iff_toNat_le.mp h
  have hlt := b.toNat_lt
  simp only [UInt64.toNat_zero,UInt64.toNat_one]
  omega

/-- An amount of two wei or more is recorded under a new number. -/
theorem tidy_record (hw : Tidy w) {m : Msg} {requestType : UInt8} {callbackAddr : Address}
    {callbackFID : Bytes4} {timestamp : UInt256} {requestData : List Bytes32}
    (hvalue : 2 ≤ m.value) (hcnt : w.storage.requestCnt ≠ 0) :
    Tidy (record keccak m requestType callbackAddr callbackFID timestamp requestData
      (w.credit m.value)).2 ∧
    Forward w (record keccak m requestType callbackAddr callbackFID timestamp requestData
      (w.credit m.value)).2 := by
  set w' := (record keccak m requestType callbackAddr callbackFID timestamp requestData
      (w.credit m.value)).2 with hw'
  have hinfos : ∃ i, infos w' = infos w++[i] ∧ i.id = w.storage.requestCnt :=
    ⟨_,by simp only [hw',record,infos_emit,infos_set,infos_credit,Event.info?,Option.toList_some]; rfl,rfl⟩
  obtain ⟨i,hinfos,hid⟩ := hinfos
  have hself : (w'.storage.requests w.storage.requestCnt).fee = m.value := by
    simp [hw',record]
  have hother : ∀ id, id ≠ w.storage.requestCnt → w'.storage.requests id = w.storage.requests id := by
    intro id hne
    exact Function.update_of_ne hne _ _
  have hfresh : w.storage.requestCnt ∉ (infos w).map (·.id) := by
    rw [List.mem_map]
    rintro ⟨j,hj,heq⟩
    rcases (hw.used j hj).2 with h | h
    · exact hcnt h
    · rw [heq] at h
      exact absurd h (UInt64.lt_irrefl _)
  refine ⟨⟨fun j hj => ?_,fun id hid => ?_⟩,fun id => ?_⟩
  · change j.id ≠ 0 ∧ (w.storage.requestCnt+1 = 0 ∨ j.id < w.storage.requestCnt+1)
    rw [hinfos,List.mem_append,List.mem_singleton] at hj
    rcases hj with hj | rfl
    · obtain ⟨hne,hlt⟩ := hw.used j hj
      exact ⟨hne,lt_next (UInt64.le_of_lt (hlt.resolve_left hcnt))⟩
    · rw [hid]
      exact ⟨hcnt,lt_next UInt64.le_rfl⟩
  · rw [hinfos,List.map_append,List.mem_append,not_or] at hid
    rw [hother id (fun h => hid.2 (by simp [h,‹i.id = _›]))]
    exact hw.unused id hid.1
  · by_cases hne : id = w.storage.requestCnt
    · subst hne
      right
      have hbefore : status w w.storage.requestCnt = .unused := by
        unfold status
        rw [hw.unused _ hfresh,if_pos rfl,if_neg hfresh]
      rw [hbefore,status_outstanding (by rw [hself]; exact hvalue)]
      exact .accept
    · left
      have hmem : id ∈ (infos w').map (·.id) ↔ id ∈ (infos w).map (·.id) := by
        rw [hinfos,List.map_append,List.mem_append]
        exact or_iff_left (by simp [hid,hne])
      unfold status
      simp only [hmem]
      rw [hother id hne]

theorem tidy_setFee (hw : Tidy w) {id : UInt64} {fee : UInt256}
    (hne : (w.storage.requests id).fee ≠ DELIVERED_FEE_FLAG)
    (h : Next (status w id) (status (w.set (w.storage.setFee id fee)) id)) :
    Tidy (w.set (w.storage.setFee id fee)) ∧ Forward w (w.set (w.storage.setFee id fee)) := by
  have hother : ∀ j, j ≠ id → (w.storage.setFee id fee).requests j = w.storage.requests j :=
    fun j hj => Function.update_of_ne hj _ _
  refine ⟨⟨hw.used,fun j hj => ?_⟩,fun j => ?_⟩
  · have hj' : j ∉ (infos w).map (·.id) := hj
    by_cases hji : j = id
    · subst hji
      exact absurd (hw.unused j hj') hne
    · rw [Account.storage_set,hother j hji]
      exact hw.unused j hj'
  · by_cases hji : j = id
    · subst hji
      exact .inr h
    · left
      unfold status
      rw [Account.storage_set,hother j hji,infos_set]

theorem Tidy.logged (hw : Tidy w) {id : UInt64}
    (h : (w.storage.requests id).fee ≠ DELIVERED_FEE_FLAG) : id ∈ (infos w).map (·.id) := by
  by_contra hid
  exact h (hw.unused id hid)

theorem tidy_cancelled (hw : Tidy w) {id : UInt64} (h : 2 ≤ (w.storage.requests id).fee) :
    Tidy (w.set (w.storage.setFee id CANCELLED_FEE_FLAG)) ∧
      Forward w (w.set (w.storage.setFee id CANCELLED_FEE_FLAG)) := by
  apply tidy_setFee hw (ne_delivered h)
  have hafter : status (w.set (w.storage.setFee id CANCELLED_FEE_FLAG)) id = .cancelled := by
    simp [status,CANCELLED_FEE_FLAG,DELIVERED_FEE_FLAG]
  rw [status_outstanding h,hafter]
  exact .cancel

theorem tidy_delivered (hw : Tidy w) {id : UInt64}
    (h : (w.storage.requests id).fee ≠ DELIVERED_FEE_FLAG) :
    Tidy (w.set (w.storage.setFee id DELIVERED_FEE_FLAG)) ∧
      Forward w (w.set (w.storage.setFee id DELIVERED_FEE_FLAG)) := by
  apply tidy_setFee hw h
  have hafter : status (w.set (w.storage.setFee id DELIVERED_FEE_FLAG)) id = .delivered := by
    simpa [status] using hw.logged h
  rw [hafter]
  unfold status
  rw [if_neg h]
  split_ifs
  · exact .close
  · exact .answer

/-- Each piece that starts with a call of this kind moves the requests forward. -/
theorem effect_forward (hw : Tidy w) {c : Call} (hc : Distinct w c) (h : Effect keccak w c w') :
    Tidy w' ∧ Forward w w' := by
  have hlast : ∀ {x}, Tidy x ∧ Forward w x → Same x w' → Tidy w' ∧ Forward w w' := by
    rintro x ⟨hx,hforward⟩ hsame
    refine ⟨hsame.tidy hx,fun id => ?_⟩
    rw [hsame.status]
    exact hforward id
  cases h with
  | same h => exact ⟨h.tidy hw,fun id => .inl (h.status id)⟩
  | recorded hflag hkill hfee h =>
      obtain ⟨hvalue,hcnt⟩ := hc hflag hkill hfee
      exact hlast (tidy_record hw hvalue hcnt) h
  | cancelled hvalue hflag hkill hrequester hfee h =>
      exact hlast (tidy_cancelled hw (hc hvalue hflag hkill hrequester hfee)) h
  | delivered hfee h => exact hlast (tidy_delivered hw hfee) h

theorem Forward.later (h : Forward w w') : Later w w' := by
  intro id
  rcases h id with heq | hnext
  · rw [heq]
  · exact .single hnext

/-- Calls that meet the condition keep the records tidy and only move on from `r`. -/
theorem kept_later {r : World} {base : List (Frame World Kont)} :
    Kept ((code keccak).restrict fun c w => Distinct w c) (fun w => Tidy w ∧ Later r w)
      (fun _ => True) base where
  start := by
    rintro c w - ⟨hw,hlater⟩
    simp only [Code.restrict]
    split_ifs with hc
    · have heffect : (start keccak c w).All (Effect keccak w c) fun _ => True := effect_start c
      refine heffect.mono (fun w' h => ?_) fun _ h => h
      obtain ⟨hw',hforward⟩ := effect_forward hw hc h
      exact ⟨hw',fun id => (hlater id).trans (hforward.later id)⟩
    · trivial
  resume := by
    rintro k a w - ⟨hw,hlater⟩
    refine (same_resume k a).mono (fun w' h => ?_) fun _ h => h
    refine ⟨h.tidy hw,fun id => ?_⟩
    rw [h.status]
    exact hlater id

/-- A second `cancel` pays nothing and leaves the records as they are. -/
theorem cancel_settled {m : Msg} {id : UInt64} (hc : Distinct w (.message m (.cancel id)))
    (h : status w id = .cancelled ∨ status w id = .delivered) :
    start keccak (.message m (.cancel id)) w = .revert ∨
      ∃ r w', start keccak (.message m (.cancel id)) w = .done r w' ∧ Same w w' ∧
        w'.sent = w.sent ∧ w'.balance = w.balance := by
  have hfee : ¬(2 : UInt256) ≤ (w.storage.requests id).fee := by
    intro h2
    rw [status_outstanding h2] at h
    rcases h with h | h <;> cases h
  unfold start nonPayable cancel
  dsimp only
  split_ifs with hvalue hflag hkill hopen
  · exact .inl rfl
  · exact .inr ⟨_,_,rfl,.refl w,rfl,rfl⟩
  · have h2 := hc hvalue (by simpa using hflag) (by simpa using hkill) hopen.1 hopen.2
    exact absurd h2 hfee
  · refine .inr ⟨_,_,rfl,?_,rfl,rfl⟩
    exact ⟨by simp [Event.info?],rfl,rfl⟩
  · exact .inl rfl

theorem request_outstanding {m : Msg} {requestType : UInt8} {callbackAddr : Address}
    {callbackFID : Bytes4} {timestamp : UInt256} {requestData : List Bytes32} {r : Option ℤ}
    (hc : Distinct w (.message m (.request requestType callbackAddr callbackFID timestamp
      requestData)))
    (h : start keccak (.message m (.request requestType callbackAddr callbackFID timestamp
      requestData)) w = .done r w') : status w' w.storage.requestCnt = .outstanding := by
  have hrefund : ∀ {a : World} {p : Purpose} {k : Kont} {onFailure : World → Result},
      (∀ w, onFailure w = .revert) → a.callOut m.sender m.value p k onFailure ≠ .done r w' := by
    intro a p k onFailure hrevert
    unfold Account.callOut
    split_ifs
    · nofun
    · rw [hrevert]
      nofun
  unfold start request at h
  dsimp only at h
  split_ifs at h with hflag hkill hvalue
  · exact absurd h (hrefund fun _ => rfl)
  · exact absurd h (hrefund fun _ => rfl)
  · obtain ⟨h2,-⟩ := hc (by simpa using hflag) (by simpa using hkill) (BitVec.not_lt.mp hvalue)
    cases h
    apply status_outstanding
    simpa [record] using h2

/-- Steps whose calls meet the condition. -/
def Meets (s : Config World Kont) (a : Action Call Unit) (_ : Config World Kont) : Prop :=
  ∀ c, a = .call c → Distinct s.world c

variable {owner : Address} {balance : ℕ} {s : Config World Kont}

theorem meets_later {w₀ : World} (hw₀ : Tidy w₀) (h : Reach (code keccak) Meets w₀ s) :
    Above (fun w => Tidy w ∧ Later w₀ w) (fun _ => True) [] s :=
  kept_later.reach ⟨hw₀,fun _ => .refl⟩ (h.restrict fun _ _ _ h => h _ rfl)

theorem tidy_constructor : Tidy (constructor owner balance) where
  used := fun i hi => absurd hi List.not_mem_nil
  unused := fun id _ => ((initial_inv (fun _ => 0) owner balance).unused id (by
    by_cases h : id = 0
    · exact .inl h
    · refine .inr (UInt64.le_iff_toNat_le.mpr (Nat.one_le_iff_ne_zero.mpr ?_))
      rwa [ne_eq,← UInt64.toNat_zero,UInt64.toNat_inj])).1

/-- In a run whose calls all meet the condition, each piece of code moves a
request one step forward at most, the number zero is never used, an accepted
request is outstanding, a second `cancel` does nothing, and from one transaction
to a later one no request ever goes back. -/
theorem life_forward (h : Reach (code keccak) Meets (constructor owner balance) s) :
    status s.world 0 = .unused ∧
    (∀ a w o, (code keccak).piece s a = some (w,o) → Meets s a s →
      o.All (Forward w) fun _ => True) ∧
    (∀ m requestType callbackAddr callbackFID timestamp requestData r w',
      Distinct s.world (.message m (.request requestType callbackAddr callbackFID timestamp
        requestData)) →
      start keccak (.message m (.request requestType callbackAddr callbackFID timestamp
        requestData)) s.world = .done r w' →
      status w' s.world.storage.requestCnt = .outstanding) ∧
    (∀ m id, Distinct s.world (.message m (.cancel id)) →
      status s.world id = .cancelled ∨ status s.world id = .delivered →
      start keccak (.message m (.cancel id)) s.world = .revert ∨
        ∃ r w', start keccak (.message m (.cancel id)) s.world = .done r w' ∧ Same s.world w' ∧
          w'.sent = s.world.sent ∧ w'.balance = s.world.balance) ∧
    (s.stack = [] → ∀ s', Reach (code keccak) Meets s.world s' → Later s.world s'.world) := by
  have habove := meets_later tidy_constructor h
  refine ⟨habove.1.1.zero,?_,fun m _ _ _ _ _ r w' => request_outstanding,
    fun m id => cancel_settled,fun _ s' h' => (meets_later habove.1.1 h').1.2⟩
  intro a w o hp hmeets
  obtain ⟨⟨hw,-⟩,-⟩ := habove.piece hp
  rcases Code.piece_cases hp with ⟨c,hc,-,rfl,rfl⟩ | ⟨-,-,k,-,answer,-,-,-,rfl⟩
  · exact (effect_start c).mono (fun w' h => (effect_forward hw (hmeets c hc) h).2) fun _ h => h
  · exact (same_resume k answer).mono (fun w' h id => .inl (h.status id)) fun _ h => h

theorem requested_meets : Reach (code fun _ => 3) Meets (constructor 5 0) requested := by
  refine .step (.call requestCall) .start rfl ?_
  rintro c ⟨⟩
  intro _ _ _
  exact ⟨by decide,by decide⟩

theorem cancelling_meets : Reach (code fun _ => 3) Meets requested.world cancelling := by
  refine .step (.call cancelCall) .start rfl ?_
  rintro c ⟨⟩
  intro _ _ _ _ _
  decide

theorem life_forward_cancelling :
    status cancelling.world 0 = .unused ∧ Later requested.world cancelling.world := by
  obtain ⟨-,-,-,-,hlater⟩ := life_forward requested_meets
  exact ⟨rfl,hlater rfl cancelling cancelling_meets⟩

/-- The owner sets all fees to zero. -/
def waiveCall : Call := .message ⟨5,0,1,0,0⟩ (.reset 0 0 0)

def waived : Config World Kont :=
  settle (constructor 5 0) [] (start (fun _ => 3) waiveCall (constructor 5 0))

/-- A call of `cancel` that names the record which holds the owner's address. -/
def cancelZero : Call := .message ⟨5,0,1,0,0⟩ (.cancel 0)

def cancellingZero : Config World Kont :=
  settle waived.world [] (start (fun _ => 3) cancelZero waived.world)

/-- Without fees the owner can cancel the request zero, which nobody made. -/
theorem zero_cancelled : ∃ s, FreeRun (fun _ => 3) 5 0 s ∧ s.stack = [] ∧
    status s.world 0 = .cancelled := by
  have hwaived : FreeRun (fun _ => 3) 5 0 waived := .step (.call waiveCall) .start rfl trivial
  have hcancelling : FreeRun (fun _ => 3) 5 0 cancellingZero :=
    .step (.call cancelZero) hwaived rfl trivial
  exact ⟨_,.step (.ret (some ())) hcancelling rfl trivial,rfl,rfl⟩

end TownCrier.Contract
