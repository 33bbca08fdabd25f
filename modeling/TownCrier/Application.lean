import TownCrier.Evm
import Mathlib.Logic.Function.Basic

/-!
# The Application contract

`Application.sol`. The contract passes a request on to TownCrier with all the
ether that came with it, remembers who made it and with how much, and refunds
that user when the request is cancelled or answered with an error. The charge
for a cancellation is a constant here and a variable of TownCrier.
-/
namespace TownCrier.Application
open CallMachine Evm

inductive Event where
  | request (requestId : Int64) (requester : Address) (dataLength : ℕ) (data : List Bytes32)
  | response (requestId : Int64) (requester : Address) (error : UInt64) (data : UInt256)
  | cancel (requestId : UInt64) (requester : Address) (success : Bool)

/-- The place in the source that makes an external call. -/
inductive Purpose where
  | underpaidRefund
  | tcRequest (requestType : UInt8) (requestData : List Bytes32)
  | failedRefund
  | errorRefund (requestId : UInt64)
  | tcCancel (requestId : UInt64)
  | cancelRefund (requestId : UInt64)

def MIN_GAS : UInt256 := 30000+20000
def GAS_PRICE : UInt256 := 50000000000
def TC_FEE : UInt256 := MIN_GAS*GAS_PRICE
def CANCELLATION_FEE : UInt256 := 25000*GAS_PRICE

def TC_CALLBACK_FID (keccak : BigEndian.Bytes → Bytes32) : Bytes4 :=
  selector keccak "response(uint64,uint64,bytes32)"

structure Storage where
  tcContract : Address
  owner : Address
  requesters : UInt64 → Address
  fee : UInt64 → UInt256

abbrev World := Account Storage Event Purpose

/-- The rest of a function after its external call. -/
inductive Kont where
  | underpaidRefund (m : Msg) (requestData : List Bytes32)
  | tcRequest (m : Msg) (requestData : List Bytes32)
  | failedRefund (m : Msg) (requestData : List Bytes32)
  | errorRefund (m : Msg) (requestId error : UInt64)
  | tcCancel (m : Msg) (requestId : UInt64)
  | cancelRefund (m : Msg) (requestId : UInt64)

abbrev Result := Outcome Unit World Kont

def constructor (sender tcCont : Address) (balance : ℕ) : World where
  storage := {tcContract := tcCont, owner := sender, requesters := fun _ => 0, fee := fun _ => 0}
  balance := balance
  logs := []
  sent := []

def setRequester (requestId : UInt64) (requester : Address) (w : World) : World :=
  w.set {w.storage with requesters := Function.update w.storage.requesters requestId requester}

def afterUnderpaid (m : Msg) (requestData : List Bytes32) (answer : Option ℤ) (w : World) :
    Result :=
  if answer.isNone then .revert
  else .done () (w.emit (.request (-1) m.sender requestData.length requestData))

def afterFailed (m : Msg) (requestData : List Bytes32) (answer : Option ℤ) (w : World) : Result :=
  if answer.isNone then .revert
  else .done () (w.emit (.request (-2) m.sender requestData.length requestData))

/-- The branch of `request` that records the user. -/
def record (m : Msg) (requestId : UInt64) (w : World) : World :=
  let w := setRequester requestId m.sender w
  w.set {w.storage with fee := Function.update w.storage.fee requestId m.value}

def afterTcRequest (m : Msg) (requestData : List Bytes32) (answer : Option ℤ) (w : World) :
    Result :=
  match answer with
  | none => .revert
  | some requestId =>
      if requestId ≤ 0 then
        w.callOut m.sender m.value .failedRefund (.failedRefund m requestData)
          (afterFailed m requestData none)
      -- The arrays have 2^64 places.
      else if 2^64 ≤ requestId then .revert
      else
        let w := record m (UInt64.ofInt requestId) w
        .done () (w.emit
          (.request (Int64.ofInt requestId) m.sender requestData.length requestData))

def request (m : Msg) (requestType : UInt8) (requestData : List Bytes32) (w : World) : Result :=
  let w := w.credit m.value
  if m.value < TC_FEE then
    w.callOut m.sender m.value .underpaidRefund (.underpaidRefund m requestData)
      (afterUnderpaid m requestData none)
  else
    w.callOut w.storage.tcContract m.value (.tcRequest requestType requestData)
      (.tcRequest m requestData) (afterTcRequest m requestData none)

/-- `response` does not look at the outcome of its refund. -/
def afterErrorRefund (m : Msg) (requestId error : UInt64) (_ : Option ℤ) (w : World) : Result :=
  .done () (w.emit (.response requestId.toInt64 m.sender error 0))

def response (m : Msg) (requestId error : UInt64) (respData : Bytes32) (w : World) : Result :=
  if m.sender ≠ w.storage.tcContract then .done () (w.emit (.response (-1) m.sender 0 0))
  else
    let requester := w.storage.requesters requestId
    let w := setRequester requestId 0 w
    if error < 2 then
      .done () (w.emit (.response requestId.toInt64 requester error respData))
    else
      w.callOut requester (w.storage.fee requestId) (.errorRefund requestId)
        (.errorRefund m requestId error) (afterErrorRefund m requestId error none)

def afterCancelRefund (m : Msg) (requestId : UInt64) (answer : Option ℤ) (w : World) : Result :=
  if answer.isNone then .revert else .done () (w.emit (.cancel requestId m.sender true))

def afterTcCancel (m : Msg) (requestId : UInt64) (answer : Option ℤ) (w : World) : Result :=
  match answer with
  | none => .revert
  | some tcCancel =>
      if tcCancel = 1 then
        let w := setRequester requestId 0 w
        w.callOut m.sender (w.storage.fee requestId-CANCELLATION_FEE) (.cancelRefund requestId)
          (.cancelRefund m requestId) (afterCancelRefund m requestId none)
      else .done () (w.emit (.cancel requestId m.sender false))

def cancel (m : Msg) (requestId : UInt64) (w : World) : Result :=
  if requestId = 0 ∨ w.storage.requesters requestId ≠ m.sender then
    .done () (w.emit (.cancel requestId m.sender false))
  else
    w.callOut w.storage.tcContract 0 (.tcCancel requestId) (.tcCancel m requestId)
      (afterTcCancel m requestId none)

inductive Function where
  | fallback
  | TC_CONTRACT
  | request (requestType : UInt8) (requestData : List Bytes32)
  | response (requestId error : UInt64) (respData : Bytes32)
  | cancel (requestId : UInt64)

def start (m : Msg) : Function → World → Result
  | .fallback, w => .done () (w.credit m.value)
  | .TC_CONTRACT, w => nonPayable m (.done () w)
  | .request requestType requestData, w => request m requestType requestData w
  | .response requestId error respData, w => nonPayable m (response m requestId error respData w)
  | .cancel requestId, w => nonPayable m (cancel m requestId w)

def resume : Kont → Option ℤ → World → Result
  | .underpaidRefund m requestData => afterUnderpaid m requestData
  | .tcRequest m requestData => afterTcRequest m requestData
  | .failedRefund m requestData => afterFailed m requestData
  | .errorRefund m requestId error => afterErrorRefund m requestId error
  | .tcCancel m requestId => afterTcCancel m requestId
  | .cancelRefund m requestId => afterCancelRefund m requestId

end TownCrier.Application
