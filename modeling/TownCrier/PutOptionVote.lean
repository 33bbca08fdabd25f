import TownCrier.PutOption

/-!
# The put option with three oracles

`PutOptionVote.sol`. Three TownCrier contracts are asked for the price, and the
first price that two of them give decides. The log has entries which are not on
the chain: where a `Pay` comes from, a call of `settle` that found no ether, and
the ether that comes in.
-/
namespace TownCrier.PutOptionVote
open CallMachine Evm PutOptions

/-- The function that logs a `Pay`. -/
inductive Place where
  | settle (index : Fin 3)
  | checkAndPay

inductive Event where
  | put (flag : ℤ) (tc : Address) (data : List Bytes32)
  | pay (unitPrice : UInt256) (amount : ℤ) (place : Place)
  | ignored (index : Option (Fin 3)) (price : UInt256)
  | received (value : UInt256)

/-- The place in the source that makes an external call. -/
inductive Purpose where
  | issuerRefund
  | tcRequest (index : Fin 3) (requestType : UInt8) (callbackFID : Bytes4)
      (requestData : List Bytes32)
  | optionValue (price units : UInt256)
  | remainder (price : UInt256)
  | recovery

def TC_FEE : UInt256 := (35000+44000)*5*10^10

structure Oracles where
  TC_CONTRACT0 : Address
  TC_CONTRACT1 : Address
  TC_CONTRACT2 : Address
  delivered : Fin 3 → Bool
  prices : Fin 3 → UInt256

abbrev Storage := PutOptions.Storage Oracles
abbrev World := Account Storage Event Purpose

/-- The rest of `put` after its external call. -/
inductive Kont where
  | tcRequest (index : Fin 3)

abbrev Result := Outcome Unit World Kont

def Oracles.contract (o : Oracles) : Fin 3 → Address
  | 0 => o.TC_CONTRACT0
  | 1 => o.TC_CONTRACT1
  | 2 => o.TC_CONTRACT2

/-- Which of the three an account is. -/
def Oracles.index (o : Oracles) (a : Address) : Option (Fin 3) :=
  if a = o.TC_CONTRACT0 then some 0
  else if a = o.TC_CONTRACT1 then some 1
  else if a = o.TC_CONTRACT2 then some 2
  else none

def constructor (m : Msg) (tcContract0 tcContract1 tcContract2 : Address) (t : Terms)
    (balance : ℕ) : Option World :=
  PutOptions.constructor TC_FEE m
    ⟨tcContract0,tcContract1,tcContract2,fun _ => false,fun _ => 0⟩ t balance

def buy (accepts : Purpose → Bool) (m : Msg) (unitsToBuy : UInt256) (w : World) : Result :=
  PutOptions.buy (TC_FEE*3) .issuerRefund accepts m unitsToBuy w

/-- One of the three requests of `put`; a failed call takes all back. -/
def ask (index : Fin 3) (w : World) : Result :=
  let tcData := [w.storage.TICKER]
  let tc := w.storage.oracles.contract index
  let w := w.emit (.put index tc tcData)
  w.callOut tc TC_FEE (.tcRequest index 1 TC_CALLBACK_FID tcData) (.tcRequest index)
    fun _ => .revert

def afterTcRequest (index : Fin 3) (answer : Option Unit) (w : World) : Result :=
  if answer.isNone then .revert
  else match index with
    | 0 => ask 1 w
    | 1 => ask 2 w
    | 2 => .done () w

def put (m : Msg) (w : World) : Result :=
  if m.sender ≠ w.storage.buyer ∨ m.timestamp ≥ w.storage.EXPR_DATE ∨ w.storage.optionPut = true then
    .revert
  else ask 0 (w.set {w.storage with optionPut := true})

def setDelivered (index : Fin 3) (w : World) : World :=
  w.set {w.storage with oracles :=
    {w.storage.oracles with delivered := Function.update w.storage.oracles.delivered index true}}

def setPrice (index : Fin 3) (price : UInt256) (w : World) : World :=
  w.set {w.storage with oracles :=
    {w.storage.oracles with prices := Function.update w.storage.oracles.prices index price}}

/-- Another oracle has given this price, as far as the two arrays tell. -/
def Oracles.Matched (o : Oracles) (index : Fin 3) (price : UInt256) : Prop :=
  o.delivered (index+1) = true ∧ o.prices (index+1) = price ∨
    o.delivered (index+2) = true ∧ o.prices (index+2) = price

instance (o : Oracles) (index : Fin 3) (price : UInt256) : Decidable (o.Matched index price) :=
  inferInstanceAs (Decidable (_ ∨ _))

def payOut (accepts : Purpose → Bool) (price : UInt256) (w : World) : World :=
  let w :=
    if price < w.storage.STRIKE_PRICE then
      let optionValue := (w.storage.STRIKE_PRICE-price)*w.storage.units
      let w := send accepts w.storage.buyer optionValue (.optionValue price w.storage.units) w
      w.emit (.pay price optionValue.toInt .checkAndPay)
    else w.emit (.pay price 0 .checkAndPay)
  send accepts w.storage.ISSUER (thisBalance w) (.remainder price) w

def checkAndPay (accepts : Purpose → Bool) (index : Fin 3) (price : UInt256) (w : World) : Result :=
  if w.storage.oracles.delivered index = true then .revert
  else
    let w := setDelivered index w
    if w.storage.oracles.Matched index price then .done () (payOut accepts price w)
    else .done () (setPrice index price w)

def settle (accepts : Purpose → Bool) (m : Msg) (_requestId : UInt64) (priceBytes : Bytes32)
    (w : World) : Result :=
  let price : UInt256 := priceBytes
  if thisBalance w = 0 then .done () (w.emit (.ignored (w.storage.oracles.index m.sender) price))
  else if m.sender = w.storage.oracles.TC_CONTRACT0 then
    checkAndPay accepts 0 price (w.emit (.pay price (-1) (.settle 0)))
  else if m.sender = w.storage.oracles.TC_CONTRACT1 then
    checkAndPay accepts 1 price (w.emit (.pay price (-2) (.settle 1)))
  else if m.sender = w.storage.oracles.TC_CONTRACT2 then
    checkAndPay accepts 2 price (w.emit (.pay price (-3) (.settle 2)))
  else .revert

def recover (accepts : Purpose → Bool) (m : Msg) (w : World) : Result :=
  PutOptions.recover .recovery accepts m w

inductive Function where
  | view
  | buy (unitsToBuy : UInt256)
  | put
  | settle (requestId : UInt64) (priceBytes : Bytes32)
  | recover

inductive Call where
  | message (m : Msg) (f : Function) (accepts : Purpose → Bool)
  | forced (value : UInt256)

def run (m : Msg) (accepts : Purpose → Bool) : Function → World → Result
  | .view => .done ()
  | .buy unitsToBuy => buy accepts m unitsToBuy
  | .put => put m
  | .settle requestId priceBytes => settle accepts m requestId priceBytes
  | .recover => recover accepts m

def receive (value : UInt256) (w : World) : World := (w.credit value).emit (.received value)

def start : Call → World → Result
  | .forced value, w => .done () (receive value w)
  | .message m f accepts, w => run m accepts f (receive m.value w)

def resume : Kont → Option Unit → World → Result
  | .tcRequest index => afterTcRequest index

def code : Code Call Unit Unit World Kont where
  start := start
  resume := resume
  reentrant _ := true

end TownCrier.PutOptionVote
