import TownCrier.Evm
import Mathlib.Logic.Function.Basic

/-!
# The FlightInsurance contract

`FlightInsurance.sol`. The contract sells policies, sends the departure data to
TownCrier on demand, and pays when it is called back. Other code answers a call
with an integer, which matters for the request to TownCrier only.
-/
namespace TownCrier.FlightInsurance
open CallMachine Evm

structure Policy where
  requester : Address
  tcId : ℤ
  data : List Bytes32
  fee : UInt256
  premium : UInt256

inductive Event where
  | insure (policyId : Int64) (requester : Address) (length : ℕ) (data : List Bytes32)
      (premium timestamp : UInt256)
  | request (policyId : UInt64) (requester : Address) (requestId : Int64)
  | response (policyId : Int64) (requester : Address) (requestId error : UInt64) (data : UInt256)
  | cancel (policyId : UInt64) (requester : Address) (success : Bool) (timestamp : UInt256)

/-- The place in the source that makes an external call. -/
inductive Purpose where
  | insureRefund
  | tcRequest (policyId : UInt64)
  | requestRefund (policyId : UInt64)
  | payout (policyId : UInt64)
  | premium (policyId : UInt64)
  | premiumRefund (policyId : UInt64)
  | fullRefund (policyId : UInt64)
  | cancelRefund (policyId : UInt64)
  deriving DecidableEq

def MIN_GAS : UInt256 := 30000+20000
def GAS_PRICE : UInt256 := 50000000000
def TC_FEE : UInt256 := MIN_GAS*GAS_PRICE
def ETHER_TO_WEI : UInt256 := 1000000000000000000
def PAYOUT_RATE : UInt256 := 5
def PAYOUT_DELAY : UInt256 := 30
def DAY_EPOCH : UInt256 := 24*60*60

def TC_CALLBACK_FID (keccak : BigEndian.Bytes → Bytes32) : Bytes4 :=
  selector keccak "response(uint64,uint64,bytes32)"

structure Storage where
  tcContract : Address
  owner : Address
  policyCnt : UInt64
  policies : UInt64 → Policy
  idMap : UInt64 → UInt64

abbrev World := Account Storage Event Purpose

/-- The rest of a function after its external call. -/
inductive Kont where
  | insureRefund (m : Msg) (flightInfo : List Bytes32) (payment : UInt256)
  | tcRequest (m : Msg) (policyId : UInt64)
  | requestRefund (m : Msg) (policyId : UInt64)
  | settle (m : Msg) (policyId requestId error : UInt64) (delay : UInt256)
  | cancelRefund (m : Msg) (policyId : UInt64)

abbrev Result := Outcome Unit World Kont

def constructor (sender tcCont : Address) (value : ℕ) : World where
  storage :=
    { tcContract := tcCont, owner := sender, policyCnt := 1
      policies := fun _ => ⟨0,0,[],0,0⟩, idMap := fun _ => 0 }
  balance := value
  logs := []
  sent := []

def Storage.setPolicy (s : Storage) (policyId : UInt64) (p : Policy) : Storage :=
  {s with policies := Function.update s.policies policyId p}

/-- `policies[policyId].fee = 0` -/
def clearFee (w : World) (policyId : UInt64) : World :=
  w.set (w.storage.setPolicy policyId {w.storage.policies policyId with fee := 0})

def afterInsureRefund (m : Msg) (flightInfo : List Bytes32) (payment : UInt256)
    (answer : Option ℤ) (w : World) : Result :=
  if answer.isNone then .revert
  else
    match flightInfo[1]? with
    | none => .revert
    | some departure =>
        .done () (w.emit (.insure (-1) m.sender flightInfo.length flightInfo payment departure))

/-- The branch of `insure` that records the policy. -/
def record (m : Msg) (flightInfo : List Bytes32) (payment : UInt256) (w : World) : World :=
  let policyId := w.storage.policyCnt
  let w := w.set {w.storage.setPolicy policyId
    {w.storage.policies policyId with
      requester := m.sender, tcId := 0, data := flightInfo, fee := m.value-payment,
      premium := payment} with
    policyCnt := policyId+1}
  w.emit (.insure policyId.toInt64 m.sender flightInfo.length flightInfo payment m.timestamp)

/-- Whether the departure is less than a day ahead. -/
def tooLate (m : Msg) (departure : Bytes32) : Prop := m.timestamp+DAY_EPOCH > departure

instance (m : Msg) (departure : Bytes32) : Decidable (tooLate m departure) :=
  inferInstanceAs (Decidable (_ > _))

def insure (m : Msg) (flightInfo : List Bytes32) (payment : UInt256) (w : World) : Result :=
  let w := w.credit m.value
  let payment := payment*ETHER_TO_WEI
  let refund := w.callOut m.sender m.value .insureRefund (.insureRefund m flightInfo payment)
    (afterInsureRefund m flightInfo payment none)
  if m.value < payment+TC_FEE then refund
  else
    match flightInfo[1]? with
    | none => .revert
    | some departure =>
        if tooLate m departure then refund else .done () (record m flightInfo payment w)

def afterRequestRefund (m : Msg) (policyId : UInt64) (answer : Option ℤ) (w : World) : Result :=
  if answer.isNone then .revert else .done () (w.emit (.request policyId m.sender 0))

def afterTcRequest (m : Msg) (policyId : UInt64) (answer : Option ℤ) (w : World) : Result :=
  match answer with
  | none => .revert
  | some tcId =>
      let w := w.set (w.storage.setPolicy policyId {w.storage.policies policyId with tcId := tcId})
      if tcId ≤ 0 then
        let w := clearFee w policyId
        let p := w.storage.policies policyId
        w.callOut m.sender (p.premium+p.fee) (.requestRefund policyId) (.requestRefund m policyId)
          (afterRequestRefund m policyId none)
      else if 2^64 ≤ tcId then .revert
      else
        let w := w.set {w.storage with
          idMap := Function.update w.storage.idMap (UInt64.ofInt tcId) policyId}
        .done () (w.emit (.request policyId m.sender (Int64.ofInt tcId)))

/-- The request to TownCrier has type 1, names `response` and carries the data. -/
def request (m : Msg) (policyId : UInt64) (w : World) : Result :=
  let p := w.storage.policies policyId
  if policyId = 0 ∨ p.requester ≠ m.sender ∨ p.tcId ≠ 0 ∨ p.fee = 0 then
    .done () (w.emit (.request policyId m.sender (-1)))
  else
    w.callOut w.storage.tcContract p.fee (.tcRequest policyId) (.tcRequest m policyId)
      (afterTcRequest m policyId none)

/-- `response` does not look at the outcome of its payment. -/
def afterSettle (m : Msg) (policyId requestId error : UInt64) (delay : UInt256) (_ : Option ℤ)
    (w : World) : Result :=
  .done () (w.emit (.response policyId.toInt64 m.sender requestId error delay))

/-- Whom `response` pays, how much, and from which of its branches. -/
def settlement (s : Storage) (policyId error : UInt64) (delay : UInt256) :
    Address × UInt256 × Purpose :=
  let p := s.policies policyId
  if error = 0 then
    if delay ≥ PAYOUT_DELAY then (p.requester,p.premium*PAYOUT_RATE,.payout policyId)
    else (s.owner,p.premium,.premium policyId)
  else if error = 1 then (p.requester,p.premium,.premiumRefund policyId)
  else (p.requester,p.premium+p.fee,.fullRefund policyId)

def response (m : Msg) (requestId error : UInt64) (respData : Bytes32) (w : World) : Result :=
  if m.sender ≠ w.storage.tcContract then .done () (w.emit (.response (-1) m.sender 0 0 0))
  else
    let policyId := w.storage.idMap requestId
    let delay := respData
    let w := clearFee w policyId
    let (recipient,value,purpose) := settlement w.storage policyId error delay
    w.callOut recipient value purpose (.settle m policyId requestId error delay)
      (afterSettle m policyId requestId error delay none)

def afterCancelRefund (m : Msg) (policyId : UInt64) (answer : Option ℤ) (w : World) : Result :=
  if answer.isNone then .revert else .done () (w.emit (.cancel policyId m.sender true m.timestamp))

def cancel (m : Msg) (policyId : UInt64) (w : World) : Result :=
  let p := w.storage.policies policyId
  match p.data[1]? with
  -- Both branches read the departure time, which is not there.
  | none => .revert
  | some departure =>
      if policyId = 0 ∨ p.requester ≠ m.sender ∨ p.fee = 0 ∨ p.tcId ≠ 0 ∨ tooLate m departure then
        .done () (w.emit (.cancel policyId m.sender false departure))
      else
        let w := clearFee w policyId
        let p := w.storage.policies policyId
        w.callOut m.sender (p.fee+p.premium) (.cancelRefund policyId) (.cancelRefund m policyId)
          (afterCancelRefund m policyId none)

inductive Function where
  | fallback
  | insure (flightInfo : List Bytes32) (payment : UInt256)
  | request (policyId : UInt64)
  | response (requestId error : UInt64) (respData : Bytes32)
  | cancel (policyId : UInt64)

/-- Ether also arrives without a call, from a contract that destroys itself. -/
inductive Call where
  | message (m : Msg) (f : Function)
  | forced (value : UInt256)

def start : Call → World → Result
  | .forced value, w => .done () (w.credit value)
  | .message m .fallback, w => .done () (w.credit m.value)
  | .message m (.insure flightInfo payment), w => insure m flightInfo payment w
  | .message m (.request policyId), w => nonPayable m (request m policyId w)
  | .message m (.response requestId error respData), w =>
      nonPayable m (response m requestId error respData w)
  | .message m (.cancel policyId), w => nonPayable m (cancel m policyId w)

def resume : Kont → Option ℤ → World → Result
  | .insureRefund m flightInfo payment => afterInsureRefund m flightInfo payment
  | .tcRequest m policyId => afterTcRequest m policyId
  | .requestRefund m policyId => afterRequestRefund m policyId
  | .settle m policyId requestId error delay => afterSettle m policyId requestId error delay
  | .cancelRefund m policyId => afterCancelRefund m policyId

def code : Code Call ℤ Unit World Kont where
  start := start
  resume := resume
  reentrant := fun _ => true

end TownCrier.FlightInsurance
