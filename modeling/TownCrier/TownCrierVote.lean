import TownCrier.Evm
import Mathlib.Data.BitVec
import Mathlib.Logic.Function.Basic

/-!
# The TownCrierVote contract

`TownCrier-vote.sol`, function by function. Three accounts of enclaves deliver,
and the third delivery that counts decides on a response. In the version of the
language of this contract every function takes ether, and a division by zero
yields zero. The gas left is not modelled, also not where the log shows it.
-/
namespace TownCrier.TownCrierVote
open BigEndian CallMachine Evm

structure Request where
  fee : UInt256
  callbackAddr : Address
  callbackFID : Bytes4
  paramsHash : Bytes32
  responseCnt : UInt8
  response0 : Bytes32
  response1 : Bytes32

structure RequestInfo where
  id : UInt64
  fee : UInt256
  paramsHash : Bytes32
  requestType : UInt8
  timestamp : UInt256
  requestData : List Bytes32

inductive Event where
  | requestLog (flag : ℤ)
  | requestInfo (info : RequestInfo)
  | deliverLog (sender : Address) (flag : ℤ)
  | deliverInfo (requestId : UInt64) (fee gasPrice callbackGas : UInt256)
      (paramsHash response : Bytes32)

/-- A call of `deliver` that got past its guards. Identifiers come back after
2^64 requests: `round` counts the accepted requests with this one so far. -/
structure Delivery where
  sender : Address
  requestId : UInt64
  round : ℕ
  paramsHash : Bytes32
  respData : Bytes32

/-- The place in the source that makes an external call. -/
inductive Purpose where
  | firstDelivery (d : Delivery)
  | secondDelivery (d : Delivery)
  | abortedDelivery (d : Delivery)
  | lastDelivery (d : Delivery)
  | callback (callbackFID : Bytes4) (d : Delivery) (response : Bytes32)

def SGX1_ADDRESS : Address := 0x9d10ea5ad51e1af69cd8d4dcfa60f577818607b2
def SGX2_ADDRESS : Address := 0xec0907991a5560bfe9ae853adaadb8f7578670af
def SGX3_ADDRESS : Address := 0xed0013df219cab5faae57e579b3c5901d40d43ff

def GAS_PRICE : UInt256 := 5*10^10

/-- The constants of the source that depend on the price of gas. -/
class Tariff where
  MAX_FEE : UInt256
  FIRST_DELIVER_COST : UInt256
  SECOND_DELIVER_COST : UInt256
  LAST_DELIVER_COST : UInt256

abbrev tariff (gasPrice : UInt256) : Tariff where
  MAX_FEE := 3*10^6*gasPrice
  FIRST_DELIVER_COST := 74000*gasPrice
  SECOND_DELIVER_COST := 59000*gasPrice
  LAST_DELIVER_COST := 35500*gasPrice

/-- Where nothing else is said, the constants are those of the source. -/
instance shipped : Tariff := tariff GAS_PRICE

export Tariff (MAX_FEE FIRST_DELIVER_COST SECOND_DELIVER_COST LAST_DELIVER_COST)

section
variable [Tariff]

def MIN_FEE : UInt256 := FIRST_DELIVER_COST+SECOND_DELIVER_COST+LAST_DELIVER_COST

end

structure Storage where
  requestCnt : UInt64
  requests : UInt64 → Request

abbrev World := Account Storage Event Purpose

/-- The rest of a function after its external call. -/
inductive Kont where
  | deliverCallback

abbrev Result := Outcome (Option UInt64) World Kont

def constructor (balance : ℕ) : World where
  storage := {requestCnt := 1, requests := fun _ => ⟨0,0,0,0,0,0,0⟩}
  balance := balance
  logs := []
  sent := []

def isSgx (a : Address) : Prop := a = SGX1_ADDRESS ∨ a = SGX2_ADDRESS ∨ a = SGX3_ADDRESS

instance (a : Address) : Decidable (isSgx a) := inferInstanceAs (Decidable (_ ∨ _))

/-- `send` to an account without code, whose result is not looked at. -/
def send (recipient : Address) (value : UInt256) (purpose : Purpose) (w : World) : World :=
  if value.toNat ≤ w.balance then w.pay recipient value purpose
  else w.keep recipient value purpose

@[simp] theorem storage_send (w : World) (recipient : Address) (value : UInt256)
    (purpose : Purpose) : (send recipient value purpose w).storage = w.storage := by
  unfold send
  split_ifs <;> rfl

def setRequest (requestId : UInt64) (r : Request) (w : World) : World :=
  w.set {w.storage with requests := Function.update w.storage.requests requestId r}

section
variable [Tariff]

/-- The value of an accepted request lies between the bounds of the fee. -/
def accepted (id : UInt64) : Event → Option RequestInfo
  | .requestInfo info =>
      if MIN_FEE ≤ info.fee ∧ info.fee ≤ MAX_FEE ∧ info.id = id then some info else none
  | _ => none

/-- The accepted requests with this identifier. -/
def asked (w : World) (id : UInt64) : List RequestInfo := w.logs.filterMap (accepted id)

def request (keccak : Bytes → Bytes32) (m : Msg) (requestType : UInt8) (callbackAddr : Address)
    (callbackFID : Bytes4) (requestData : List Bytes32) (w : World) : Result :=
  let w := w.emit (.requestLog 0)
  if m.value < MIN_FEE ∨ MAX_FEE < m.value then
    let w := w.emit (.requestInfo
      { id := 0, fee := m.value, paramsHash := 0, requestType, timestamp := m.timestamp,
        requestData })
    .done (some 0) (w.emit (.requestLog (-1)))
  else
    let requestId := w.storage.requestCnt
    let w := w.set {w.storage with requestCnt := w.storage.requestCnt+1}
    let paramsHash := keccak (encodePacked requestType (m.timestamp::requestData))
    let w := setRequest requestId
      {w.storage.requests requestId with
        fee := m.value, callbackAddr, callbackFID, paramsHash, responseCnt := 0} w
    let w := w.emit (.requestInfo
      { id := requestId, fee := m.value, paramsHash, requestType, timestamp := m.timestamp,
        requestData })
    .done (some requestId) (w.emit (.requestLog 1))

def afterCallback (deliverSuccess : Option Unit) (w : World) : Result :=
  .done none (w.emit (.deliverLog 0 (if deliverSuccess.isSome then 32 else -2)))

/-- A call of `deliver` that its guards turn away. -/
def turnAway (m : Msg) (requestId : UInt64) (paramsHash respData : Bytes32) (flag : ℤ)
    (w : World) : Result :=
  let fee := (w.storage.requests requestId).fee
  let w := w.emit (.deliverInfo requestId fee m.gasPrice 0 paramsHash respData)
  .done none (w.emit (.deliverLog m.sender flag))

/-- The end of `deliver`, once `response` has won. -/
def conclude (m : Msg) (d : Delivery) (response : Bytes32) (w : World) : Result :=
  let fee := (w.storage.requests d.requestId).fee
  let w := w.emit (.deliverLog 0 4)
  let w := send m.sender (fee-(FIRST_DELIVER_COST+SECOND_DELIVER_COST)) (.lastDelivery d) w
  let r := w.storage.requests d.requestId
  let w := setRequest d.requestId {r with fee := 0} w
  let callbackGas := (fee-MIN_FEE)/m.gasPrice
  let w := w.emit (.deliverInfo d.requestId fee m.gasPrice callbackGas d.paramsHash response)
  let w := w.emit (.deliverLog 0 8)
  w.callOut r.callbackAddr 0 (.callback r.callbackFID d response) .deliverCallback
    (afterCallback none)

def deliver (m : Msg) (requestId : UInt64) (paramsHash respData : Bytes32) (w : World) :
    Result :=
  let r := w.storage.requests requestId
  if r.fee = 0 then turnAway m requestId paramsHash respData (-1) w
  else if ¬isSgx m.sender then turnAway m requestId paramsHash respData (-2) w
  else if r.paramsHash ≠ paramsHash then turnAway m requestId paramsHash respData (-3) w
  else
    let d : Delivery := ⟨m.sender,requestId,(asked w requestId).length,paramsHash,respData⟩
    if r.responseCnt = 0 then
      let w := setRequest requestId {r with response0 := respData, responseCnt := r.responseCnt+1} w
      let w := w.emit (.deliverLog m.sender 1)
      .done none (send m.sender FIRST_DELIVER_COST (.firstDelivery d) w)
    else if r.responseCnt = 1 then
      let w := setRequest requestId {r with response1 := respData, responseCnt := r.responseCnt+1} w
      let w := w.emit (.deliverLog m.sender 2)
      .done none (send m.sender SECOND_DELIVER_COST (.secondDelivery d) w)
    else
      let w := w.emit (.deliverLog m.sender 3)
      if respData = r.response0 ∨ respData = r.response1 then conclude m d respData w
      else if r.response0 = r.response1 then conclude m d r.response1 w
      else
        -- None of the options won.
        let w := w.emit (.deliverLog 0 (-8))
        .done none (send m.sender LAST_DELIVER_COST (.abortedDelivery d) w)

end

inductive Function where
  | request (requestType : UInt8) (callbackAddr : Address) (callbackFID : Bytes4)
      (requestData : List Bytes32)
  | deliver (requestId : UInt64) (paramsHash respData : Bytes32)

/-- Ether also arrives without a call, from a contract that destroys itself. -/
inductive Call where
  | message (m : Msg) (f : Function)
  | forced (value : UInt256)

def start [Tariff] (keccak : Bytes → Bytes32) : Call → World → Result
  | .forced value, w => .done none (w.credit value)
  | .message m (.request requestType callbackAddr callbackFID requestData), w =>
      request keccak m requestType callbackAddr callbackFID requestData (w.credit m.value)
  | .message m (.deliver requestId paramsHash respData), w =>
      deliver m requestId paramsHash respData (w.credit m.value)

def resume : Kont → Option Unit → World → Result
  | .deliverCallback => afterCallback

/-- The accounts of the enclaves have no code, so they call from outside only. -/
def code [Tariff] (keccak : Bytes → Bytes32) : Code Call Unit (Option UInt64) World Kont where
  start := start keccak
  resume := resume
  reentrant
    | .message m _ => ¬isSgx m.sender
    | .forced _ => true

end TownCrier.TownCrierVote
