import TownCrier.CallTree
import TownCrier.Guarantees

/-!
# The arithmetic of the fees

`deliver` subtracts the current minimum from a fee that was checked against the
minimum of another time. The owner can change it only when no request is open,
and the refund of an error leaves no gas for such a change, so the difference
never wraps. The same goes for the charge of `cancel`, which is checked where it
is subtracted.
-/
namespace TownCrier.Contract
open BigEndian CallMachine Evm

/-- An accepted request paid this fee, and it covers the minimum. -/
def Covered (w : World) (requestId : UInt64) (fee : UInt256) : Prop :=
  w.storage.minFee ≤ fee ∧ ∃ i ∈ infos w, i.id = requestId ∧ i.fee = fee

/-- The gas promised by a log entry costs no more than the fee has beyond the minimum. -/
def Promised (w : World) : Event → Prop
  | .deliverInfo requestId fee gasPrice _ callbackGas _ _ _ =>
      Covered w requestId fee ∧
        callbackGas.toNat = (fee.toNat-w.storage.minFee.toNat)/gasPrice.toNat ∧
        callbackGas.toNat*gasPrice.toNat+w.storage.minFee.toNat ≤ fee.toNat
  | _ => False

/-- What one piece of code computes from the fees, before it hands over. -/
structure Priced (w handover : World) (k : Kont) : Prop where
  promised : k = .deliverCallback → ∃ e, handover.logs = w.logs++[e] ∧ Promised w e
  refunded : ∀ m requestId, k = .cancelRefund m requestId →
    ∃ value : UInt256, handover.attempts = w.attempts++[(m.sender,value,.cancelRefund requestId)] ∧
      value.toNat+w.storage.cancellationFee.toNat = (w.storage.requests requestId).fee.toNat

/-- The refund of an error waits with a fee that covers the minimum. -/
def Waiting (saved handover : World) (k : Kont) : Prop :=
  ∀ m d fee, k = .deliverRefund m d fee →
    Covered saved d.requestId fee ∧ Covered handover d.requestId fee

/-- Where the refund of an error waits for its recipient, with the stipend for gas. -/
def isRefund : Frame World Kont → Prop
  | .code _ _ (.deliverRefund _ _ _) => True
  | _ => False

/-- Admissible, and without a change as long as such a refund stays open. -/
def Frugal (s : Config World Kont) (a : Action Call Unit) (s' : Config World Kont) : Prop :=
  Admissible s a s' ∧
    ∀ f rest, isRefund f → f::rest <:+ s.stack → f::rest <:+ s'.stack → s'.world = s.world

abbrev FrugalRun (keccak : Bytes → Bytes32) (owner : Address) (balance : ℕ) :
    Config World Kont → Prop :=
  Reach (code keccak) Frugal (constructor owner balance)

variable {keccak : Bytes → Bytes32} {owner : Address} {balance : ℕ} {s : Config World Kont}

theorem frugal_run (h : FrugalRun keccak owner balance s) : Run keccak owner balance s := by
  induction h with
  | start => exact .start
  | step a _ hs ha ih => exact .step a ih hs ha.1

/-- Which calls a piece of code can end in. -/
theorem callOut_call {a saved handover : World} {r : Address} {v : UInt256} {p : Purpose}
    {k k' : Kont} {onFailure : World → Result}
    (hrevert : ∀ w, onFailure w = .revert) (h : a.callOut r v p k onFailure = .call saved handover k') :
    k' = k ∧ saved = a.keep r v p ∧ handover = a.pay r v p ∧ v.toNat ≤ a.balance := by
  unfold Account.callOut at h
  split_ifs at h with hv
  · cases h
    exact ⟨rfl,rfl,rfl,hv⟩
  · rw [hrevert] at h
    cases h

theorem covered_open {w : World} (hw : Inv keccak w) {i : RequestInfo} (hi : i ∈ infos w)
    (hdelivered : (w.storage.requests i.id).fee ≠ DELIVERED_FEE_FLAG)
    (hcancelled : (w.storage.requests i.id).fee ≠ CANCELLED_FEE_FLAG) :
    Covered w i.id (w.storage.requests i.id).fee := by
  have hprog := (hw.entries i hi).progress
  refine ⟨?_,i,hi,rfl,(open_request hw hi hdelivered hcancelled).1.symm⟩
  generalize (w.storage.requests i.id).fee = fee at hprog hdelivered hcancelled
  generalize trace w i.id = calls at hprog
  cases hprog with
  | outstanding h => exact h
  | cancelled _ => exact absurd rfl hcancelled
  | settled _ => exact absurd rfl hdelivered

theorem callback_call {w : World} {m : Msg} {d : Delivery} {fee : UInt256}
    {saved handover : World} {k : Kont} (hfee : Covered w d.requestId fee)
    (h : callback m d fee w = .call saved handover k) :
    Priced w handover k ∧ k = .deliverCallback := by
  unfold callback at h
  split_ifs at h with hgas
  unfold Account.callOut at h
  rw [if_pos (show (0 : UInt256).toNat ≤ _ from Nat.zero_le _)] at h
  cases h
  have hsub : (fee-w.storage.minFee).toNat = fee.toNat-w.storage.minFee.toNat :=
    BitVec.toNat_sub_of_le hfee.1
  have hle : w.storage.minFee.toNat ≤ fee.toNat := hfee.1
  refine ⟨⟨fun _ => ⟨_,rfl,?_⟩,nofun⟩,rfl⟩
  refine ⟨hfee,by rw [BitVec.toNat_udiv,hsub],?_⟩
  rw [BitVec.toNat_udiv,hsub]
  have := Nat.div_mul_le_self (fee.toNat-w.storage.minFee.toNat) m.gasPrice.toNat
  omega

theorem afterErrorRefund_call {w : World} {m : Msg} {d : Delivery} {fee : UInt256}
    {answer : Option Unit} {saved handover : World} {k : Kont}
    (hfee : Covered w d.requestId fee)
    (h : afterErrorRefund m d fee answer w = .call saved handover k) :
    Priced w handover k ∧ k = .deliverCallback := by
  obtain ⟨hpriced,hk⟩ := callback_call (w := setFlag w false) hfee h
  exact ⟨⟨hpriced.promised,hpriced.refunded⟩,hk⟩

theorem deliver_call {w : World} (hw : Inv keccak w) {m : Msg} {requestId : UInt64}
    {paramsHash : Bytes32} {error : UInt64} {respData : Bytes32} {saved handover : World} {k : Kont}
    (h : deliver m requestId paramsHash error respData w = .call saved handover k) :
    Priced w handover k ∧ Waiting saved handover k := by
  unfold deliver at h
  dsimp only at h
  split_ifs at h with hguard hhash hcancelled herror
  all_goals simp only [not_or,not_not] at hguard hhash
  · cases ht : w.transfer SGX_ADDRESS w.storage.cancellationFee
        (.cancellationFee ⟨m.sender,requestId,paramsHash,error,respData⟩) with
    | none => rw [ht] at h; cases h
    | some w' => rw [ht] at h; cases h
  all_goals
    obtain ⟨i,hi,rfl⟩ := hw.info_of_fee hguard.2.2.2
    have hcovered := covered_open hw hi hguard.2.2.2 hcancelled
  · unfold Account.transfer at h
    split_ifs at h with hfunds
    · obtain ⟨hpriced,rfl⟩ := callback_call hcovered h
      exact ⟨⟨hpriced.promised,nofun⟩,nofun⟩
  · unfold Account.callOut at h
    split_ifs at h with hfunds
    · cases h
      refine ⟨⟨nofun,nofun⟩,?_⟩
      rintro m' d' fee' ⟨⟩
      exact ⟨hcovered,hcovered⟩
    · obtain ⟨hpriced,rfl⟩ := afterErrorRefund_call hcovered h
      exact ⟨⟨hpriced.promised,nofun⟩,nofun⟩

theorem cancel_call {w : World} {m : Msg} {requestId : UInt64} {saved handover : World} {k : Kont}
    (h : cancel m requestId w = .call saved handover k) :
    Priced w handover k ∧ Waiting saved handover k := by
  unfold cancel at h
  dsimp only at h
  split_ifs at h with hflag hkill hopen
  obtain ⟨rfl,rfl,rfl,-⟩ := callOut_call (fun _ => rfl) h
  refine ⟨⟨nofun,?_⟩,nofun⟩
  rintro m' id ⟨⟩
  refine ⟨_,Account.attempts_pay _ _ _ _,?_⟩
  have hle : w.storage.cancellationFee.toNat ≤ (w.storage.requests requestId).fee.toNat := hopen.2
  rw [BitVec.toNat_sub_of_le hopen.2]
  omega

theorem request_call {w : World} {m : Msg} {requestType : UInt8} {callbackAddr : Address}
    {callbackFID : Bytes4} {timestamp : UInt256} {requestData : List Bytes32}
    {saved handover : World} {k : Kont}
    (h : request keccak m requestType callbackAddr callbackFID timestamp requestData w =
      .call saved handover k) : Priced w handover k ∧ Waiting saved handover k := by
  unfold request at h
  dsimp only at h
  split_ifs at h with hflag hkill hvalue
  · obtain ⟨rfl,rfl,rfl,-⟩ := callOut_call (fun _ => rfl) h
    exact ⟨⟨nofun,nofun⟩,nofun⟩
  · obtain ⟨rfl,rfl,rfl,-⟩ := callOut_call (fun _ => rfl) h
    exact ⟨⟨nofun,nofun⟩,nofun⟩

theorem withdraw_call {w : World} {m : Msg} {saved handover : World} {k : Kont}
    (h : withdraw m w = .call saved handover k) :
    Priced w handover k ∧ Waiting saved handover k := by
  unfold withdraw at h
  split_ifs at h
  obtain ⟨rfl,rfl,rfl,-⟩ := callOut_call (fun _ => rfl) h
  exact ⟨⟨nofun,nofun⟩,nofun⟩

theorem nonPayable_call {m : Msg} {o : Result} {saved handover : World} {k : Kont}
    (h : nonPayable m o = .call saved handover k) : o = .call saved handover k := by
  unfold nonPayable at h
  split_ifs at h
  exact h

theorem start_call {w : World} (hw : Inv keccak w) {c : Call} {saved handover : World} {k : Kont}
    (h : start keccak c w = .call saved handover k) :
    Priced w handover k ∧ Waiting saved handover k := by
  cases c with
  | forced value => cases h
  | message m f =>
      cases f with
      | request => exact request_call h
      | deliver => exact deliver_call hw (nonPayable_call h)
      | cancel => exact cancel_call (nonPayable_call h)
      | withdraw => exact withdraw_call (nonPayable_call h)
      | fallback => cases nonPayable_call h
      | upgrade =>
          have h := nonPayable_call h
          unfold upgrade at h
          split_ifs at h
      | reset =>
          have h := nonPayable_call h
          unfold reset at h
          split_ifs at h
      | suspend =>
          have h := nonPayable_call h
          unfold suspend at h
          split_ifs at h
      | restart =>
          have h := nonPayable_call h
          unfold restart at h
          split_ifs at h

/-- Only the rest of `deliver` calls out again. -/
theorem resume_call {w saved handover : World} {k k' : Kont} {answer : Option Unit}
    (hk : ∀ m d fee, k = .deliverRefund m d fee → Covered w d.requestId fee)
    (h : resume k answer w = .call saved handover k') :
    Priced w handover k' ∧ k' = .deliverCallback := by
  cases k with
  | deliverRefund m d fee => exact @afterErrorRefund_call w m d fee answer _ _ _ (hk m d fee rfl) h
  | deliverCallback => cases h
  | requestKilled => cases answer <;> cases h
  | requestUnderpaid => cases answer <;> cases h
  | withdraw => cases answer <;> cases h
  | cancelRefund => cases answer <;> cases h

/-- Every refund of `deliver` that is still open has its fee covered. -/
def Open (s : Config World Kont) : Prop :=
  ∀ entry saved m d fee rest, .code entry saved (.deliverRefund m d fee)::rest <:+ s.stack →
    Covered saved d.requestId fee ∧ Covered s.world d.requestId fee

theorem piece_call (hw : Inv keccak s.world) (hopen : Open s) {a : Action Call Unit}
    {w saved handover : World} {k : Kont}
    (hp : (code keccak).piece s a = some (w,.call saved handover k)) :
    Priced w handover k ∧ Waiting saved handover k := by
  rcases Code.piece_cases hp with
    ⟨c,-,-,rfl,hstart⟩ | ⟨e,saved',k',rest,answer,-,hstack,rfl,hresume⟩
  · exact start_call hw hstart.symm
  · have hcovered : ∀ m d fee, k' = .deliverRefund m d fee →
        Covered (if Option.isSome answer then s.world else saved') d.requestId fee := by
      rintro m d fee rfl
      obtain ⟨hsaved,hworld⟩ := hopen e saved' m d fee rest (hstack ▸ List.suffix_rfl)
      split
      · exact hworld
      · exact hsaved
    obtain ⟨hpriced,rfl⟩ := resume_call hcovered hresume.symm
    exact ⟨hpriced,nofun⟩

theorem run_open (h : FrugalRun keccak owner balance s) : Open s := by
  induction h with
  | start =>
      intro entry saved m d fee rest hsuffix
      exact absurd hsuffix.length_le (by simp)
  | @step s s' a h hs ha ih =>
      intro entry saved m d fee rest hsuffix
      rcases Code.step_frame hs hsuffix with hold | ⟨-,w,hp⟩
      · rw [ha.2 (.code entry saved (.deliverRefund m d fee)) rest trivial hold hsuffix]
        exact ih _ _ _ _ _ _ hold
      · exact (piece_call (run_inv (frugal_run h)) ih hp).2 m d fee rfl

/-- No subtraction of the fees wraps, in whatever piece of code it stands. -/
theorem fees_never_wrap (h : FrugalRun keccak owner balance s) {a : Action Call Unit}
    {w saved handover : World} {k : Kont}
    (hp : (code keccak).piece s a = some (w,.call saved handover k)) : Priced w handover k :=
  (piece_call (run_inv (frugal_run h)) (run_open h) hp).1

def deliverCall : Call := .message ⟨SGX_ADDRESS,0,10^9,0,0⟩ (.deliver 1 3 0 42)

theorem requested_frugal : FrugalRun (fun _ => 3) 5 0 requested := by
  refine .step (.call requestCall) .start rfl ⟨⟨by decide,by decide,by decide⟩,?_⟩
  intro f rest _ hsuffix
  exact absurd hsuffix.length_le (by simp)

theorem fees_never_wrap_requested : ∃ w saved handover,
    (code fun _ => 3).piece requested (.call deliverCall) =
      some (w,.call saved handover .deliverCallback) ∧ Priced w handover .deliverCallback :=
  ⟨_,_,_,rfl,fees_never_wrap requested_frugal (a := .call deliverCall) rfl⟩

end TownCrier.Contract
