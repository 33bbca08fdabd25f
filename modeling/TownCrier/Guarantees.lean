import TownCrier.Safety

/-!
# What holds in every run of TownCrier

A run is any sequence of calls by any accounts, with any re-entrance while the
contract waits for other code. Each statement is about all states on the way,
also those inside an external call.
-/
namespace TownCrier.Contract
open BigEndian CallMachine Evm Ledger

variable {keccak : Bytes → Bytes32} {owner : Address} {balance : ℕ} {s : Config World Kont}

/-- An account requests with two million gwei and cancels before the answer. -/
def requestCall : Call := .message ⟨7,2*10^15,1,0,0⟩ (.request 1 9 0 0 [])

def cancelCall : Call := .message ⟨7,0,1,0,0⟩ (.cancel 1)

def requested : Config World Kont :=
  settle (constructor 5 0) [] (start (fun _ => 3) requestCall (constructor 5 0))

def cancelling : Config World Kont :=
  settle requested.world [] (start (fun _ => 3) cancelCall requested.world)

theorem requested_run : Run (fun _ => 3) 5 0 requested :=
  .step (.call requestCall) .start rfl ⟨by decide,by decide,by decide⟩

theorem cancelling_run : Run (fun _ => 3) 5 0 cancelling :=
  .step (.call cancelCall) requested_run rfl ⟨by decide,by decide,by decide⟩

/-- The wei that left the contract in these transfers. -/
def spent (calls : List (Transfer Purpose)) : ℕ :=
  (calls.map fun t => if t.success then t.value.toNat else 0).sum

theorem owed_le_total {w : World} (hw : Inv keccak w) {i : RequestInfo} (hi : i ∈ infos w) :
    owed w.storage.cancellationFee (w.storage.requests i.id).fee ≤ w.balance := by
  have hrange := hw.id_range hi
  exact (le_total (fun r : Request => owed w.storage.cancellationFee r.fee) w.storage.requests
    hrange.1 hrange.2).trans hw.solvent

theorem deliver_funded {w : World} (hw : Inv keccak w) {m : Msg} {requestId : UInt64}
    {paramsHash : Bytes32} {error : UInt64} {respData : Bytes32} (hgas : m.gasPrice ≠ 0) :
    deliver m requestId paramsHash error respData w ≠ .revert := by
  have hcallback : ∀ d fee w, callback m d fee w ≠ .revert := by
    intro d fee w
    rw [callback,if_neg hgas]
    exact Account.callOut_ne_revert _ (.inl (Nat.zero_le _))
  unfold deliver
  dsimp only
  split_ifs with hguard hhash hcancelled herror
  · nofun
  · nofun
  all_goals
    simp only [not_or,not_not] at hguard
    obtain ⟨i,hi,rfl⟩ := hw.info_of_fee hguard.2.2.2
    have howed := owed_le_total hw hi
  · rw [hcancelled,owed_cancelled] at howed
    rw [Account.transfer,if_pos howed]
    nofun
  all_goals
    obtain ⟨hfee,h2,-⟩ := open_request hw hi hguard.2.2.2 hcancelled
    rw [hfee,owed_of_le h2] at howed
  · rw [Account.transfer,hfee,if_pos (show i.fee.toNat ≤ (markDelivered w i.id).balance from howed)]
    exact hcallback _ _ _
  · exact Account.callOut_ne_revert _ (.inr (hcallback _ _ _))

theorem cancel_funded {w : World} (hw : Inv keccak w) {m : Msg} {requestId : UInt64}
    (hflag : w.storage.externalCallFlag = false) : cancel m requestId w ≠ .revert := by
  unfold cancel
  dsimp only
  rw [hflag,if_neg (by decide)]
  split_ifs with hkill hopen
  · nofun
  · obtain ⟨-,hcharge⟩ := hopen
    have h2 : 2 ≤ (w.storage.requests requestId).fee := BitVec.le_trans hw.cancellationFee hcharge
    obtain ⟨i,hi,rfl⟩ := hw.info_of_fee (ne_delivered h2)
    have howed := owed_le_total hw hi
    rw [owed_of_le h2] at howed
    have hfunds : ((w.storage.requests i.id).fee-w.storage.cancellationFee).toNat ≤ w.balance := by
      rw [BitVec.toNat_sub_of_le hcharge]
      omega
    exact Account.callOut_ne_revert _ (.inl hfunds)
  · nofun

/-- The balance covers every fee and charge that is still owed, so neither
`deliver` nor `cancel` ever lacks the funds for its transfer. -/
theorem solvency (h : Run keccak owner balance s) :
    ∑ i ∈ Finset.Ico 1 s.world.storage.requestCnt.toNat,
        owed s.world.storage.cancellationFee (s.world.storage.requests (UInt64.ofNat i)).fee ≤
      s.world.balance ∧
    (∀ m requestId paramsHash error respData, m.value = 0 → m.gasPrice ≠ 0 →
      start keccak (.message m (.deliver requestId paramsHash error respData)) s.world ≠ .revert) ∧
    ∀ m requestId, m.value = 0 → s.world.storage.externalCallFlag = false →
      start keccak (.message m (.cancel requestId)) s.world ≠ .revert := by
  have hw := run_inv h
  refine ⟨hw.solvent,?_,?_⟩
  · intro m requestId paramsHash error respData hvalue hgas
    rw [start,nonPayable,if_pos hvalue]
    exact deliver_funded hw hgas
  · intro m requestId hvalue hflag
    rw [start,nonPayable,if_pos hvalue]
    exact cancel_funded hw hflag

theorem solvency_cancelling : totalOwed cancelling.world ≤ cancelling.world.balance :=
  (solvency cancelling_run).1

/-- The counter is the number of requests without a settlement. While there is
one, it is positive and the owner's operations change nothing. -/
theorem counter_exact (h : Run keccak owner balance s) :
    s.world.storage.unrespondedCnt.toNat =
      ((Finset.Ico 1 s.world.storage.requestCnt.toNat).filter fun i =>
        (s.world.storage.requests (UInt64.ofNat i)).fee ≠ DELIVERED_FEE_FLAG).card ∧
    ∀ i ∈ infos s.world, (s.world.storage.requests i.id).fee ≠ DELIVERED_FEE_FLAG →
      0 < s.world.storage.unrespondedCnt.toNat ∧
      ∀ m, start keccak (.message m .withdraw) s.world = nonPayable m (.done none s.world) ∧
        (∀ newAddr, start keccak (.message m (.upgrade newAddr)) s.world =
          nonPayable m (.done none s.world)) ∧
        ∀ price minGas cancellationGas,
          start keccak (.message m (.reset price minGas cancellationGas)) s.world =
            nonPayable m (.done none s.world) := by
  have hw := run_inv h
  constructor
  · rw [hw.counter]
    exact total_indicator (fun r : Request => r.fee ≠ DELIVERED_FEE_FLAG) _ _
  · intro i hi hne
    have hpos := hw.counter_pos hi hne
    have hzero : s.world.storage.unrespondedCnt ≠ 0 := by
      intro h0
      rw [h0] at hpos
      exact absurd hpos (by decide)
    refine ⟨hpos,fun m => ⟨?_,fun newAddr => ?_,fun price minGas cancellationGas => ?_⟩⟩
    · rw [start,withdraw,if_neg (fun h => hzero h.2)]
    · rw [start,upgrade,if_neg (fun h => hzero h.2)]
    · rw [start,reset,if_neg (fun h => hzero h.2)]

theorem counter_cancelling :
    cancelling.world.storage.unrespondedCnt.toNat =
      ((Finset.Ico 1 cancelling.world.storage.requestCnt.toNat).filter fun i =>
        (cancelling.world.storage.requests (UInt64.ofNat i)).fee ≠ DELIVERED_FEE_FLAG).card :=
  (counter_exact cancelling_run).1

theorem spent_called {i : RequestInfo} {fid : Bytes4} {d : Delivery}
    {calls : List (Transfer Purpose)} (h : Called i fid d calls) : spent calls = 0 := by
  rcases h with rfl | ⟨success,rfl⟩
  · rfl
  · cases success <;> rfl

theorem spent_settled {i : RequestInfo} {fid : Bytes4} {calls : List (Transfer Purpose)}
    (h : Settled i fid calls) : spent calls ≤ i.fee.toNat := by
  cases h with
  | cancelled charge d hcharge _ =>
      have hsub : (i.fee-charge).toNat = i.fee.toNat-charge.toNat := BitVec.toNat_sub_of_le hcharge
      have hle : charge.toNat ≤ i.fee.toNat := hcharge
      simp only [spent,refund,List.map_cons,List.map_nil,if_true,List.sum_cons,List.sum_nil,hsub]
      omega
  | answered d calls _ _ hcalls =>
      have := spent_called hcalls
      simp only [spent,List.map_cons,if_true,List.sum_cons] at this ⊢
      omega
  | refunded d success calls _ _ hcalls =>
      have := spent_called hcalls
      cases success <;> simp only [spent,List.map_cons,List.sum_cons] at this ⊢ <;> simp [this]

/-- What was done for an accepted request is nothing, one refund by `cancel`, or
one settlement by an authentic `deliver`; the wei of both sides add up to at
most the fee, and later transactions only add to it. -/
theorem settled_once (h : Run keccak owner balance s) {i : RequestInfo} (hi : i ∈ infos s.world) :
    i.paramsHash = keccak (encodePacked i.requestType i.requestData) ∧
    (trace s.world i.id = [] ∨
      (∃ charge, charge ≤ i.fee ∧ trace s.world i.id = [refund i charge]) ∨
      Settled i (s.world.storage.requests i.id).callbackFID (trace s.world i.id)) ∧
    spent (trace s.world i.id) ≤ i.fee.toNat ∧
    ∀ s', s.stack = [] → Reach (code keccak) Admissible s.world s' → s'.stack = [] →
      trace s.world i.id <+: trace s'.world i.id := by
  have hw := run_inv h
  have hentry := hw.entries i hi
  have hprog := hentry.progress
  refine ⟨hentry.hash,?_,?_,?_⟩
  · generalize (s.world.storage.requests i.id).fee = fee at hprog
    generalize trace s.world i.id = calls at hprog
    cases hprog with
    | outstanding _ => exact .inl rfl
    | cancelled hcharge => exact .inr (.inl ⟨_,hcharge,rfl⟩)
    | settled hsettled => exact .inr (.inr hsettled)
  · generalize (s.world.storage.requests i.id).fee = fee at hprog
    generalize trace s.world i.id = calls at hprog
    cases hprog with
    | outstanding _ => exact Nat.zero_le _
    | cancelled hcharge =>
        simp only [spent,refund,List.map_cons,List.map_nil,if_true,List.sum_cons,List.sum_nil,
          BitVec.toNat_sub_of_le hcharge,add_zero]
        exact Nat.sub_le _ _
    | settled hsettled => exact spent_settled hsettled
  · intro s' hstack h' hstack'
    exact (run_sent h hstack h' hstack').filter _

theorem settled_cancelling : spent (trace cancelling.world 1) ≤ 2*10^15 :=
  (settled_once cancelling_run (i := ⟨1,1,7,2*10^15,9,3,0,[]⟩) (List.mem_singleton.mpr rfl)).2.2.1

end TownCrier.Contract
