import TownCrier.Lock

/-!
# What `request` returns

The sign of the number tells an application whether its request was accepted.
A suspended contract answers with a version that is never positive, and an
accepted request with its number. Too small a fee is answered with `FAIL_FLAG`,
which is positive in this version of the language, so that answer looks like a
number.
-/
namespace TownCrier.Contract
open BigEndian CallMachine Evm

/-- One more request, of this sender and with this fee. -/
structure Recorded (e w : World) (m : Msg) : Prop where
  requestCnt : w.storage.requestCnt = e.storage.requestCnt+1
  unrespondedCnt : w.storage.unrespondedCnt = e.storage.unrespondedCnt+1
  requester : (w.storage.requests e.storage.requestCnt).requester = m.sender
  fee : (w.storage.requests e.storage.requestCnt).fee = m.value
  others : ∀ id, id ≠ e.storage.requestCnt → w.storage.requests id = e.storage.requests id

/-- No record and no counter has changed, and the value went back to the sender. -/
structure Returned (e w : World) (m : Msg) : Prop where
  requestCnt : w.storage.requestCnt = e.storage.requestCnt
  unrespondedCnt : w.storage.unrespondedCnt = e.storage.unrespondedCnt
  requests : w.storage.requests = e.storage.requests
  refunded : ∃ purpose, e.sent++[⟨m.sender,m.value,purpose,true⟩] <+: w.sent

/-- The sign of `r` separates the two. -/
structure Separates (e w : World) (m : Msg) (r : ℤ) : Prop where
  accepted : 0 < r ↔ Recorded e w m
  number : Recorded e w m → r = e.storage.requestCnt.toNat ∧ r < 2^64
  rejected : r ≤ 0 ↔ Returned e w m

variable {keccak : Bytes → Bytes32} {e w : World} {m : Msg}

theorem Recorded.not_returned (h : Recorded e w m) : ¬Returned e w m := by
  intro h'
  have hcnt := h.requestCnt.symm.trans h'.requestCnt
  exact absurd hcnt (by simp)

theorem recorded_record (requestType : UInt8) (callbackAddr : Address) (callbackFID : Bytes4)
    (timestamp : UInt256) (requestData : List Bytes32) :
    Recorded e (record keccak m requestType callbackAddr callbackFID timestamp requestData
      (e.credit m.value)).2 m where
  requestCnt := rfl
  unrespondedCnt := rfl
  requester := by simp [record]
  fee := by simp [record]
  others := fun _ hid => Function.update_of_ne hid _ _

/-- No successor was named, or one was, and its negated address is stored. -/
def Versioned (w : World) : Prop := w.storage.newVersion ≤ 0

theorem Versioned.of_eq (hw : Versioned w)
    (h : e.storage.newVersion = w.storage.newVersion) : Versioned e :=
  h.trans_le hw

theorem versioned_callback (hw : Versioned w) {d : Delivery} {fee : UInt256} :
    (callback m d fee w).All Versioned fun _ => True := by
  unfold callback
  split_ifs
  · trivial
  · exact Account.all_callOut _ (hw.of_eq rfl) (hw.of_eq rfl) trivial (hw.of_eq rfl)

theorem versioned_deliver (hw : Versioned w) {requestId : UInt64} {paramsHash : Bytes32}
    {error : UInt64} {respData : Bytes32} :
    (deliver m requestId paramsHash error respData w).All Versioned fun _ => True := by
  unfold deliver Account.transfer
  dsimp only
  split_ifs
  · exact hw
  · exact hw
  · exact hw.of_eq rfl
  · trivial
  · apply versioned_callback
    exact hw.of_eq rfl
  · trivial
  · refine Account.all_callOut _ ?_ ?_ trivial ?_
    · exact hw.of_eq rfl
    · exact hw.of_eq rfl
    · apply versioned_callback
      exact hw.of_eq rfl

theorem kept_versioned {base : List (Frame World Kont)} :
    Kept (code keccak) Versioned (fun _ => True) base where
  start := by
    intro c w _ hw
    cases c with
    | forced value => exact hw.of_eq rfl
    | message m f =>
        by_cases hf : isSetting f = true
        · obtain ⟨w',hw',heq⟩ := start_setting keccak w m hf
          change (start keccak (.message m f) w).All _ _
          rw [heq]
          exact all_nonPayable (hw'.newVersion.elim hw.of_eq id)
        cases f with
        | fallback | upgrade | reset | suspend | restart => exact absurd rfl hf
        | withdraw =>
            refine all_nonPayable ?_
            unfold withdraw
            split_ifs
            · exact Account.all_callOut _ (hw.of_eq rfl) (hw.of_eq rfl) trivial trivial
            · exact hw
        | request =>
            change (request keccak _ _ _ _ _ _ w).All _ _
            unfold request
            dsimp only
            split_ifs
            · trivial
            · exact Account.all_callOut _ (hw.of_eq rfl) (hw.of_eq rfl) trivial trivial
            · exact Account.all_callOut _ (hw.of_eq rfl) (hw.of_eq rfl) trivial trivial
            · exact hw.of_eq rfl
        | deliver =>
            exact all_nonPayable (versioned_deliver hw)
        | cancel =>
            refine all_nonPayable ?_
            unfold cancel
            dsimp only
            split_ifs
            · trivial
            · exact hw
            · exact Account.all_callOut _ (hw.of_eq rfl) (hw.of_eq rfl) trivial trivial
            · exact hw.of_eq rfl
  resume := by
    intro k a w _ hw
    cases k with
    | deliverRefund =>
        apply versioned_callback
        exact hw.of_eq rfl
    | deliverCallback => exact hw.of_eq rfl
    | requestKilled | requestUnderpaid | withdraw | cancelRefund =>
        cases a with
        | none => trivial
        | some _ => exact hw.of_eq rfl

variable {owner : Address} {balance : ℕ} {s : Config World Kont} {rest : List (Frame World Kont)}

/-- A call that has to succeed comes back with what other code left behind. -/
theorem returns_callOut
    {allowed : Config World Kont → Action Call Unit → Config World Kont → Prop} {a : World}
    {r : Address} {v : UInt256} {p : Purpose} {k : Kont} {onFailure : World → Result}
    {result : Option ℤ}
    (h : Returns (code keccak) allowed e rest (a.callOut r v p k onFailure) result w)
    (hrevert : ∀ w, onFailure w = .revert) (hnone : ∀ w, resume k none w = .revert) :
    ∃ x, During (code keccak) allowed ⟨a.pay r v p,.code e (a.keep r v p) k::rest⟩
        ⟨x,.code e (a.keep r v p) k::rest⟩ ∧
      Returns (code keccak) allowed e rest (resume k (some ()) x) result w := by
  unfold Account.callOut at h
  split_ifs at h
  · cases h with
    | @resumed _ _ _ x _ _ answer hduring h' =>
        cases answer with
        | none =>
            change Returns _ _ _ _ (resume k none _) _ _ at h'
            rw [hnone] at h'
            cases h'
        | some _ => exact ⟨x,hduring,h'⟩
  · rw [hrevert] at h
    cases h

/-- A refund that locks comes back with the records as they were handed over. -/
theorem returns_refund {a : World} {r : Address} {v : UInt256} {p : Purpose} {k : Kont}
    {onFailure : World → Result} {result : Option ℤ}
    (h : Returns (code keccak) (fun _ _ _ => True) e rest (a.callOut r v p k onFailure) result w)
    (hrevert : ∀ w, onFailure w = .revert) (hnone : ∀ w, resume k none w = .revert)
    (hflag : a.storage.externalCallFlag = true) (hversion : Versioned a) :
    ∃ x, Shut (a.pay r v p) x ∧ Versioned x ∧
      Returns (code keccak) (fun _ _ _ => True) e rest (resume k (some ()) x) result w := by
  obtain ⟨x,hduring,h'⟩ := returns_callOut h hrevert hnone
  have hkept : Kept (code keccak) (Shut (a.pay r v p)) (fun k => locks k = false)
      (.code e (a.keep r v p) k::rest) := kept_shut (List.cons_ne_nil _ _)
  have hshut := hkept.during ⟨hflag,rfl,rfl,rfl,List.prefix_rfl⟩ hduring
  have hv := kept_versioned.during (hversion.of_eq rfl) hduring
  exact ⟨x,hshut.1,hv.1,h'⟩

theorem returned_shut {purpose : Purpose}
    (h : Shut ((setFlag (e.credit m.value) true).pay m.sender m.value purpose) w) :
    Returned e (setFlag w false) m where
  requestCnt := h.requestCnt
  unrespondedCnt := h.unrespondedCnt
  requests := h.requests
  refunded := ⟨purpose,h.sent⟩

theorem recorded_separates (h : Recorded e w m) :
    Separates e w m (e.storage.requestCnt.toNat : ℤ) ↔ e.storage.requestCnt ≠ 0 := by
  have hlt := e.storage.requestCnt.toNat_lt
  have hzero : e.storage.requestCnt.toNat = 0 ↔ e.storage.requestCnt = 0 := by
    rw [← UInt64.toNat_inj]
    rfl
  constructor
  · intro hsep
    have hpos := hsep.accepted.mpr h
    exact fun h0 => absurd (hzero.mpr h0) (by omega)
  · intro hne
    have hnat : e.storage.requestCnt.toNat ≠ 0 := mt hzero.mp hne
    refine ⟨iff_of_true (by omega) h,fun _ => ⟨rfl,by omega⟩,iff_of_false (by omega) h.not_returned⟩

/-- The sign of what `request` returns tells apart what it did just when the
contract is suspended, or the fee suffices and the number is not zero. -/
theorem return_code_iff (h : FreeRun keccak owner balance s) {requestType : UInt8}
    {callbackAddr : Address} {callbackFID : Bytes4} {timestamp : UInt256}
    {requestData : List Bytes32} {r : ℤ}
    (hret : Returns (code keccak) (fun _ _ _ => True) s.world s.stack
      (start keccak (.message m (.request requestType callbackAddr callbackFID timestamp
        requestData)) s.world) (some r) w) :
    Separates s.world w m r ↔ s.world.storage.killswitch = true ∨
      s.world.storage.minFee ≤ m.value ∧ s.world.storage.requestCnt ≠ 0 := by
  have hversion : Versioned s.world :=
    (kept_versioned.reach (show Versioned (constructor owner balance) from le_rfl) h).1
  unfold start request at hret
  dsimp only at hret
  split_ifs at hret with hflag hkill hvalue
  · cases hret
  · obtain ⟨x,hshut,hx,hret⟩ := returns_refund hret (fun _ => rfl) (fun _ => rfl) rfl
      (hversion.of_eq rfl)
    cases hret
    have hreturned := returned_shut hshut
    refine iff_of_true ⟨iff_of_false ?_ ?_,?_,iff_of_true hx hreturned⟩ (.inl hkill)
    · exact not_lt.mpr hx
    · exact fun h => h.not_returned hreturned
    · exact fun h => absurd hreturned h.not_returned
  · obtain ⟨x,hshut,-,hret⟩ := returns_refund hret (fun _ => rfl) (fun _ => rfl) rfl
      (hversion.of_eq rfl)
    cases hret
    have hreturned := returned_shut hshut
    refine iff_of_false ?_ ?_
    · intro hsep
      exact (hsep.accepted.mp (by decide)).not_returned hreturned
    · rintro (hk | ⟨hle,-⟩)
      · exact hkill hk
      · exact absurd hvalue (BitVec.not_lt.mpr hle)
  · cases hret
    have hle : s.world.storage.minFee ≤ m.value := BitVec.not_lt.mp hvalue
    have hnot : ¬s.world.storage.killswitch = true := hkill
    rw [or_iff_right hnot,and_iff_right hle]
    exact recorded_separates (recorded_record _ _ _ _ _)

theorem requested_returns : Returns (code fun _ => 3) (fun _ _ _ => True) (constructor 5 0) []
    (start (fun _ => 3) requestCall (constructor 5 0)) (some 1) requested.world := .done

theorem return_code_requested :
    Separates (constructor 5 0) requested.world ⟨7,2*10^15,1,0,0⟩ 1 ↔
      (constructor 5 0).storage.killswitch = true ∨
        (constructor 5 0).storage.minFee ≤ (2*10^15 : UInt256) ∧
          (constructor 5 0).storage.requestCnt ≠ 0 :=
  return_code_iff .start requested_returns

def unpaidCall : Call := .message ⟨7,0,1,0,0⟩ (.request 1 9 0 0 [])

/-- A request without any fee is not recorded, yet the answer is a positive number. -/
theorem unpaid_positive : ∃ w r,
    Returns (code fun _ => 3) (fun _ _ _ => True) (constructor 5 0) []
      (start (fun _ => 3) unpaidCall (constructor 5 0)) (some r) w ∧
    0 < r ∧ w.storage.requestCnt = (constructor 5 0).storage.requestCnt ∧
    ¬Separates (constructor 5 0) w ⟨7,0,1,0,0⟩ r := by
  refine ⟨_,_,.resumed (some ()) .start .done,by decide,rfl,fun h => ?_⟩
  exact absurd (h.accepted.mp (by decide)).requestCnt (by decide)

end TownCrier.Contract
