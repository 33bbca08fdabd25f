import TownCrier.Evm
import Mathlib.Data.BitVec

/-!
# The put option contracts

`PutOption.sol` and `PutOptionVote.sol` sell the same option and differ in the
oracles which they ask. What they share has the oracles as a parameter. In the
version of the language of these contracts every function takes ether, also a
call of a function that there is not, and `send` leaves its recipient no gas to
call anyone: each call says which of its transfers are accepted.
-/
namespace TownCrier.PutOptions
open CallMachine Evm

structure Storage (O : Type) where
  ISSUER : Address
  oracles : O
  TICKER : Bytes32
  UNIT_PRICE : UInt256
  MAX_UNITS : UInt256
  STRIKE_PRICE : UInt256
  EXPR_DATE : UInt256
  buyer : Address
  units : UInt256
  optionPut : Bool
  cancelled : Bool

/-- What the issuer writes into the option. -/
structure Terms where
  ticker : Bytes32
  unitPrice : UInt256
  maxUnits : UInt256
  strikePrice : UInt256
  exprDate : UInt256

def TC_CALLBACK_FID : Bytes4 := 0x212e78ad

section Shared
variable {O E P K : Type}

/-- `this.balance` -/
def thisBalance (w : Account (Storage O) E P) : UInt256 := BitVec.ofNat 256 w.balance

def send (accepts : P → Bool) (recipient : Address) (value : UInt256) (purpose : P)
    (w : Account (Storage O) E P) : Account (Storage O) E P :=
  if accepts purpose = true ∧ value.toNat ≤ w.balance then w.pay recipient value purpose
  else w.keep recipient value purpose

section Send
variable (accepts : P → Bool) (recipient : Address) (value : UInt256) (purpose : P)
  (w : Account (Storage O) E P)

@[simp] theorem storage_send : (send accepts recipient value purpose w).storage = w.storage := by
  unfold send
  split_ifs <;> rfl

@[simp] theorem logs_send : (send accepts recipient value purpose w).logs = w.logs := by
  unfold send
  split_ifs <;> rfl

theorem balance_send : (send accepts recipient value purpose w).balance = w.balance ∨
    (send accepts recipient value purpose w).balance = w.balance-value.toNat := by
  unfold send
  split_ifs
  · exact .inr rfl
  · exact .inl rfl

theorem sent_send : ∃ b, (send accepts recipient value purpose w).sent =
    w.sent++[⟨recipient,value,purpose,b⟩] := by
  unfold send
  split_ifs
  · exact ⟨true,rfl⟩
  · exact ⟨false,rfl⟩

end Send

/-- `balance` is what the account had before there was a contract. -/
def constructor (fee : UInt256) (m : Msg) (oracles : O) (t : Terms) (balance : ℕ) :
    Option (Account (Storage O) E P) :=
  if m.value < (t.strikePrice-t.unitPrice)*t.maxUnits+fee then none
  else some
    { storage :=
        { ISSUER := m.sender, oracles, TICKER := t.ticker, UNIT_PRICE := t.unitPrice,
          MAX_UNITS := t.maxUnits, STRIKE_PRICE := t.strikePrice, EXPR_DATE := t.exprDate,
          buyer := 0, units := 0, optionPut := false, cancelled := false }
      balance := balance+m.value.toNat
      logs := []
      sent := [] }

/-- `reserve` is kept for the oracles. -/
def buy (reserve : UInt256) (refund : P) (accepts : P → Bool) (m : Msg) (unitsToBuy : UInt256)
    (w : Account (Storage O) E P) : Outcome Unit (Account (Storage O) E P) K :=
  if w.storage.cancelled = true ∨ m.timestamp ≥ w.storage.EXPR_DATE ∨ w.storage.buyer ≠ 0 ∨
      unitsToBuy > w.storage.MAX_UNITS ∨ unitsToBuy*w.storage.UNIT_PRICE ≠ m.value then .revert
  else
    let w := w.set {w.storage with buyer := m.sender, units := unitsToBuy}
    let issuerRefund := thisBalance w-unitsToBuy*w.storage.STRIKE_PRICE-reserve
    .done () (if issuerRefund > 0 then send accepts w.storage.ISSUER issuerRefund refund w else w)

def recover (recovery : P) (accepts : P → Bool) (m : Msg) (w : Account (Storage O) E P) :
    Outcome Unit (Account (Storage O) E P) K :=
  if m.sender ≠ w.storage.ISSUER ∨ w.storage.buyer ≠ 0 ∧ m.timestamp < w.storage.EXPR_DATE ∨
      w.storage.optionPut = true ∨ w.storage.cancelled = true then .revert
  else
    let w := w.set {w.storage with cancelled := true}
    .done () (send accepts w.storage.ISSUER (thisBalance w) recovery w)

end Shared
end TownCrier.PutOptions

namespace TownCrier.PutOption
open CallMachine Evm PutOptions

inductive Event where
  | put (timestamp : Bytes32) (gas : UInt256) (data : List Bytes32)
  | pay (unitPrice : UInt256) (amount : ℤ)

/-- The place in the source that makes an external call. -/
inductive Purpose where
  | issuerRefund
  | tcRequest (requestType : UInt8) (callbackFID : Bytes4) (requestData : List Bytes32)
  | optionValue (requestId : UInt64) (price : UInt256)
  | remainder (requestId : UInt64) (price : UInt256)
  | recovery

def TC_FEE : UInt256 := (35000+18000)*5*10^10

/-- The only oracle is `TC_CONTRACT`. -/
abbrev Storage := PutOptions.Storage Address
abbrev World := Account Storage Event Purpose

def TC_CONTRACT (w : World) : Address := w.storage.oracles

/-- The rest of a function after its external call. -/
inductive Kont where
  | tcRequest

abbrev Result := Outcome Unit World Kont

def constructor (m : Msg) (tcContract : Address) (t : Terms) (balance : ℕ) : Option World :=
  PutOptions.constructor TC_FEE m tcContract t balance

def buy (accepts : Purpose → Bool) (m : Msg) (unitsToBuy : UInt256) (w : World) : Result :=
  PutOptions.buy TC_FEE .issuerRefund accepts m unitsToBuy w

/-- Nothing is done with the number of the request, and a failed call takes all back. -/
def afterTcRequest (answer : Option Unit) (w : World) : Result :=
  if answer.isNone then .revert else .done () w

def put (m : Msg) (w : World) : Result :=
  if m.sender ≠ w.storage.buyer ∨ m.timestamp ≥ w.storage.EXPR_DATE ∨ w.storage.optionPut = true then
    .revert
  else
    let w := w.set {w.storage with optionPut := true}
    let tcData := [w.storage.TICKER,m.timestamp]
    let w := w.emit (.put m.timestamp m.gasLeft tcData)
    w.callOut (TC_CONTRACT w) TC_FEE (.tcRequest 1 TC_CALLBACK_FID tcData) .tcRequest
      (afterTcRequest none)

def settle (accepts : Purpose → Bool) (m : Msg) (requestId : UInt64) (priceBytes : Bytes32)
    (w : World) : Result :=
  if m.sender ≠ TC_CONTRACT w then .revert
  else
    let price : UInt256 := priceBytes
    let w :=
      if price < w.storage.STRIKE_PRICE then
        let optionValue := (w.storage.STRIKE_PRICE-price)*w.storage.units
        let w := send accepts w.storage.buyer optionValue (.optionValue requestId price) w
        w.emit (.pay price optionValue.toInt)
      else w.emit (.pay price 0)
    .done () (send accepts w.storage.ISSUER (thisBalance w) (.remainder requestId price) w)

def recover (accepts : Purpose → Bool) (m : Msg) (w : World) : Result :=
  PutOptions.recover .recovery accepts m w

/-- `view` stands for the public variables and for what is no function. -/
inductive Function where
  | view
  | buy (unitsToBuy : UInt256)
  | put
  | settle (requestId : UInt64) (priceBytes : Bytes32)
  | recover

/-- Ether also arrives without a call, from a contract that destroys itself. -/
inductive Call where
  | message (m : Msg) (f : Function) (accepts : Purpose → Bool)
  | forced (value : UInt256)

def run (m : Msg) (accepts : Purpose → Bool) : Function → World → Result
  | .view => .done ()
  | .buy unitsToBuy => buy accepts m unitsToBuy
  | .put => put m
  | .settle requestId priceBytes => settle accepts m requestId priceBytes
  | .recover => recover accepts m

def start : Call → World → Result
  | .forced value, w => .done () (w.credit value)
  | .message m f accepts, w => run m accepts f (w.credit m.value)

def resume : Kont → Option Unit → World → Result
  | .tcRequest => afterTcRequest

def code : Code Call Unit Unit World Kont where
  start := start
  resume := resume
  reentrant _ := true

end TownCrier.PutOption
