import TownCrier.Evm
import Mathlib.Logic.Function.Basic

/-!
# The TownCrier contract

`TownCrier.sol`, function by function. Everything between two external calls is
one piece of code; the continuations stand for the rest of a function after such
a call. The gas passed along and the gas left are not modelled beyond the values
that the log shows, so the cap on `callbackGas` has no effect here.
-/
namespace TownCrier.Contract
open BigEndian CallMachine Evm

structure Request where
  requester : Address
  fee : UInt256
  callbackAddr : Address
  callbackFID : Bytes4
  paramsHash : Bytes32

structure RequestInfo where
  id : UInt64
  requestType : UInt8
  requester : Address
  fee : UInt256
  callbackAddr : Address
  paramsHash : Bytes32
  timestamp : UInt256
  requestData : List Bytes32

inductive Event where
  | upgrade (newAddr : Address)
  | reset (gasPrice minFee cancellationFee : UInt256)
  | requestInfo (info : RequestInfo)
  | deliverInfo (requestId : UInt64) (fee gasPrice gasLeft callbackGas : UInt256)
      (paramsHash : Bytes32) (error : UInt64) (respData : Bytes32)
  | cancel (requestId : UInt64) (canceller requester : Address) (fee : UInt256) (flag : ℤ)

/-- A call of `deliver` that got past its guards. -/
structure Delivery where
  sender : Address
  requestId : UInt64
  paramsHash : Bytes32
  error : UInt64
  respData : Bytes32

/-- The place in the source that makes an external call. -/
inductive Purpose where
  | killedRefund
  | underpaidRefund
  | withdrawal
  | cancelRefund (requestId : UInt64)
  | cancellationFee (d : Delivery)
  | deliveryFee (d : Delivery)
  | errorRefund (d : Delivery)
  | callback (callbackFID : Bytes4) (d : Delivery)

def SGX_ADDRESS : Address := 0x18513702cCd928F2A3eb63d900aDf03c9cc81593
def CANCELLED_FEE_FLAG : UInt256 := 1
def DELIVERED_FEE_FLAG : UInt256 := 0
/-- The sign binds tighter than the power in this version of the language. -/
def FAIL_FLAG : ℤ := (-2)^250
def SUCCESS_FLAG : ℤ := 1

structure Storage where
  gasPrice : UInt256
  minFee : UInt256
  cancellationFee : UInt256
  killswitch : Bool
  externalCallFlag : Bool
  requestCnt : UInt64
  unrespondedCnt : UInt64
  requests : UInt64 → Request
  newVersion : ℤ

abbrev World := Account Storage Event Purpose

/-- The rest of a function after its external call. -/
inductive Kont where
  | requestKilled
  | requestUnderpaid
  | withdraw
  | cancelRefund (m : Msg) (requestId : UInt64)
  | deliverRefund (m : Msg) (d : Delivery) (fee : UInt256)
  | deliverCallback

abbrev Result := Outcome (Option ℤ) World Kont

def constructor (sender : Address) (balance : ℕ) : World where
  storage :=
    { gasPrice := 50000000000, minFee := 30000*50000000000, cancellationFee := 25000*50000000000
      killswitch := false, externalCallFlag := false, requestCnt := 1, unrespondedCnt := 0
      requests := Function.update (fun _ => ⟨0,0,0,0,0⟩) 0 ⟨sender,0,0,0,0⟩
      newVersion := 0 }
  balance := balance
  logs := []
  sent := []

def Storage.setFee (s : Storage) (requestId : UInt64) (fee : UInt256) : Storage :=
  {s with requests := Function.update s.requests requestId {s.requests requestId with fee := fee}}

@[simp] theorem setFee_requests (s : Storage) (requestId : UInt64) (fee : UInt256) :
    (s.setFee requestId fee).requests =
      Function.update s.requests requestId {s.requests requestId with fee := fee} := rfl
@[simp] theorem setFee_minFee (s : Storage) (requestId : UInt64) (fee : UInt256) :
    (s.setFee requestId fee).minFee = s.minFee := rfl
@[simp] theorem setFee_cancellationFee (s : Storage) (requestId : UInt64) (fee : UInt256) :
    (s.setFee requestId fee).cancellationFee = s.cancellationFee := rfl
@[simp] theorem setFee_requestCnt (s : Storage) (requestId : UInt64) (fee : UInt256) :
    (s.setFee requestId fee).requestCnt = s.requestCnt := rfl
@[simp] theorem setFee_unrespondedCnt (s : Storage) (requestId : UInt64) (fee : UInt256) :
    (s.setFee requestId fee).unrespondedCnt = s.unrespondedCnt := rfl
@[simp] theorem setFee_flag (s : Storage) (requestId : UInt64) (fee : UInt256) :
    (s.setFee requestId fee).externalCallFlag = s.externalCallFlag := rfl

def setFlag (w : World) (flag : Bool) : World :=
  w.set {w.storage with externalCallFlag := flag}

def isOwner (m : Msg) (w : World) : Prop := m.sender = (w.storage.requests 0).requester

instance (m : Msg) (w : World) : Decidable (isOwner m w) := inferInstanceAs (Decidable (_ = _))

def upgrade (m : Msg) (newAddr : Address) (w : World) : Result :=
  if isOwner m w ∧ w.storage.unrespondedCnt = 0 then
    let w := w.set {w.storage with newVersion := -newAddr.toNat, killswitch := true}
    .done none (w.emit (.upgrade newAddr))
  else .done none w

def reset (m : Msg) (price minGas cancellationGas : UInt256) (w : World) : Result :=
  if isOwner m w ∧ w.storage.unrespondedCnt = 0 then
    let w := w.set {w.storage with
      gasPrice := price, minFee := price*minGas, cancellationFee := price*cancellationGas}
    .done none (w.emit (.reset price (price*minGas) (price*cancellationGas)))
  else .done none w

def suspend (m : Msg) (w : World) : Result :=
  if isOwner m w then .done none (w.set {w.storage with killswitch := true}) else .done none w

def restart (m : Msg) (w : World) : Result :=
  if isOwner m w ∧ w.storage.newVersion = 0 then
    .done none (w.set {w.storage with killswitch := false})
  else .done none w

def afterWithdraw (answer : Option Unit) (w : World) : Result :=
  if answer.isNone then .revert else .done none w

def withdraw (m : Msg) (w : World) : Result :=
  if isOwner m w ∧ w.storage.unrespondedCnt = 0 then
    w.callOut (w.storage.requests 0).requester (BitVec.ofNat 256 w.balance) .withdrawal .withdraw
      (afterWithdraw none)
  else .done none w

def afterKilled (answer : Option Unit) (w : World) : Result :=
  if answer.isNone then .revert
  else
    let w := setFlag w false
    .done (some w.storage.newVersion) w

def afterUnderpaid (answer : Option Unit) (w : World) : Result :=
  if answer.isNone then .revert else .done (some FAIL_FLAG) (setFlag w false)

/-- The branch of `request` that records; the value has been credited. -/
def record (keccak : Bytes → Bytes32) (m : Msg) (requestType : UInt8) (callbackAddr : Address)
    (callbackFID : Bytes4) (timestamp : UInt256) (requestData : List Bytes32) (w : World) :
    UInt64 × World :=
  let requestId := w.storage.requestCnt
  let paramsHash := keccak (encodePacked requestType requestData)
  let w := w.set {w.storage with
    requestCnt := w.storage.requestCnt+1
    unrespondedCnt := w.storage.unrespondedCnt+1
    requests := Function.update w.storage.requests requestId
      { requester := m.sender, fee := m.value, callbackAddr, callbackFID, paramsHash } }
  (requestId,w.emit (.requestInfo
    { id := requestId, requestType, requester := m.sender, fee := m.value, callbackAddr,
      paramsHash, timestamp, requestData }))

def request (keccak : Bytes → Bytes32) (m : Msg) (requestType : UInt8) (callbackAddr : Address)
    (callbackFID : Bytes4) (timestamp : UInt256) (requestData : List Bytes32) (w : World) :
    Result :=
  let w := w.credit m.value
  if w.storage.externalCallFlag then .revert
  else if w.storage.killswitch then
    (setFlag w true).callOut m.sender m.value .killedRefund .requestKilled (afterKilled none)
  else if m.value < w.storage.minFee then
    (setFlag w true).callOut m.sender m.value .underpaidRefund .requestUnderpaid
      (afterUnderpaid none)
  else
    let (requestId,w) :=
      record keccak m requestType callbackAddr callbackFID timestamp requestData w
    .done (some requestId.toNat) w

def afterCallback (_ : Option Unit) (w : World) : Result := .done none (setFlag w false)

/-- The end of `deliver`, from the computation of `callbackGas` on. -/
def callback (m : Msg) (d : Delivery) (fee : UInt256) (w : World) : Result :=
  -- A division by zero is an invalid instruction.
  if m.gasPrice = 0 then .revert
  else
    let callbackGas := (fee-w.storage.minFee)/m.gasPrice
    let w := w.emit (.deliverInfo d.requestId fee m.gasPrice m.gasLeft callbackGas d.paramsHash
      d.error d.respData)
    let r := w.storage.requests d.requestId
    (setFlag w true).callOut r.callbackAddr 0 (.callback r.callbackFID d) .deliverCallback
      (afterCallback none)

/-- The refund of an error may fail; `deliver` does not look at the outcome. -/
def afterErrorRefund (m : Msg) (d : Delivery) (fee : UInt256) (_ : Option Unit) (w : World) :
    Result :=
  callback m d fee (setFlag w false)

/-- The two assignments that close a request. -/
def markDelivered (w : World) (requestId : UInt64) : World :=
  w.set {w.storage.setFee requestId DELIVERED_FEE_FLAG with
    unrespondedCnt := w.storage.unrespondedCnt-1}

def deliver (m : Msg) (requestId : UInt64) (paramsHash : Bytes32) (error : UInt64)
    (respData : Bytes32) (w : World) : Result :=
  let r := w.storage.requests requestId
  if m.sender ≠ SGX_ADDRESS ∨ requestId ≤ 0 ∨ r.requester = 0 ∨ r.fee = DELIVERED_FEE_FLAG then
    .done none w
  else if r.paramsHash ≠ paramsHash then .done none w
  else
    let d : Delivery := ⟨m.sender,requestId,paramsHash,error,respData⟩
    if r.fee = CANCELLED_FEE_FLAG then
      match w.transfer SGX_ADDRESS w.storage.cancellationFee (.cancellationFee d) with
      | none => .revert
      | some w => .done none (markDelivered w requestId)
    else
      let w := markDelivered w requestId
      if error < 2 then
        match w.transfer SGX_ADDRESS r.fee (.deliveryFee d) with
        | none => .revert
        | some w => callback m d r.fee w
      else
        (setFlag w true).callOut r.requester r.fee (.errorRefund d) (.deliverRefund m d r.fee)
          (afterErrorRefund m d r.fee none)

def afterCancelRefund (m : Msg) (requestId : UInt64) (answer : Option Unit) (w : World) : Result :=
  if answer.isNone then .revert
  else
    let w := setFlag w false
    let r := w.storage.requests requestId
    .done (some SUCCESS_FLAG) (w.emit (.cancel requestId m.sender r.requester r.fee 1))

def cancel (m : Msg) (requestId : UInt64) (w : World) : Result :=
  if w.storage.externalCallFlag then .revert
  else if w.storage.killswitch then .done (some 0) w
  else
    let r := w.storage.requests requestId
    if r.requester = m.sender ∧ w.storage.cancellationFee ≤ r.fee then
      (setFlag (w.set (w.storage.setFee requestId CANCELLED_FEE_FLAG)) true).callOut m.sender
        (r.fee-w.storage.cancellationFee) (.cancelRefund requestId) (.cancelRefund m requestId)
        (afterCancelRefund m requestId none)
    else
      .done (some FAIL_FLAG) (w.emit (.cancel requestId m.sender r.requester r.fee (-1)))

inductive Function where
  | fallback
  | upgrade (newAddr : Address)
  | reset (price minGas cancellationGas : UInt256)
  | suspend
  | restart
  | withdraw
  | request (requestType : UInt8) (callbackAddr : Address) (callbackFID : Bytes4)
      (timestamp : UInt256) (requestData : List Bytes32)
  | deliver (requestId : UInt64) (paramsHash : Bytes32) (error : UInt64) (respData : Bytes32)
  | cancel (requestId : UInt64)

/-- Ether also arrives without a call, from a contract that destroys itself. -/
inductive Call where
  | message (m : Msg) (f : Function)
  | forced (value : UInt256)

def start (keccak : Bytes → Bytes32) : Call → World → Result
  | .forced value, w => .done none (w.credit value)
  | .message m .fallback, w => nonPayable m (.done none w)
  | .message m (.upgrade newAddr), w => nonPayable m (upgrade m newAddr w)
  | .message m (.reset price minGas cancellationGas), w =>
      nonPayable m (reset m price minGas cancellationGas w)
  | .message m .suspend, w => nonPayable m (suspend m w)
  | .message m .restart, w => nonPayable m (restart m w)
  | .message m .withdraw, w => nonPayable m (withdraw m w)
  | .message m (.request requestType callbackAddr callbackFID timestamp requestData), w =>
      request keccak m requestType callbackAddr callbackFID timestamp requestData w
  | .message m (.deliver requestId paramsHash error respData), w =>
      nonPayable m (deliver m requestId paramsHash error respData w)
  | .message m (.cancel requestId), w => nonPayable m (cancel m requestId w)

def resume : Kont → Option Unit → World → Result
  | .requestKilled => afterKilled
  | .requestUnderpaid => afterUnderpaid
  | .withdraw => afterWithdraw
  | .cancelRefund m requestId => afterCancelRefund m requestId
  | .deliverRefund m d fee => afterErrorRefund m d fee
  | .deliverCallback => afterCallback

/-- The enclave's account has no code, so no call of it comes from inside another. -/
def code (keccak : Bytes → Bytes32) : Code Call Unit (Option ℤ) World Kont where
  start := start keccak
  resume := resume
  reentrant
    | .message m _ => m.sender ≠ SGX_ADDRESS
    | .forced _ => true

end TownCrier.Contract
