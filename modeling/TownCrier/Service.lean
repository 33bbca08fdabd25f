import TownCrier.Authenticity

/-!
# Every open request can be served

An honest host asks the enclave for what the relay makes of a request, and sends the
transaction that it gets. Whatever has happened on the chain and in the enclave
before: the transaction closes the request with what the enclave has found, and
the accounts that it concerns are paid and told.
-/
namespace TownCrier.Service
open Authenticity BigEndian CallMachine Contract Cpp Delivery Ecalls Encoding EthTransaction
open EventHandler Evm FormTransaction HybridCipher Https Keccak Wallet

/-- The callback of a request. -/
def callbackTransfer (w : Contract.World) (i : RequestInfo) (d : Contract.Delivery) (success : Bool) :
    Transfer Purpose :=
  ⟨i.callbackAddr,0,.callback (w.storage.requests i.id).callbackFID d,success⟩

/-- What a delivery for an open request leaves in the list of transfers, in this order. -/
inductive Told (w : Contract.World) (i : RequestInfo) (d : Contract.Delivery) :
    Contract.World → Prop
  | cancelled {w'} (hfee : (w.storage.requests i.id).fee = CANCELLED_FEE_FLAG)
      (hsent : w'.sent =
        w.sent++[⟨SGX_ADDRESS,w.storage.cancellationFee,.cancellationFee d,true⟩]) : Told w i d w'
  | answered {w'} (success : Bool) (hfee : (w.storage.requests i.id).fee = i.fee) (herror : d.error < 2)
      (hsent : w.sent++[⟨SGX_ADDRESS,i.fee,.deliveryFee d,true⟩,callbackTransfer w i d success] <+:
        w'.sent) : Told w i d w'
  /-- While the requester gets the fee back, the owner may withdraw. -/
  | refunded {w'} (paid success : Bool) (more : List (Transfer Purpose))
      (hfee : (w.storage.requests i.id).fee = i.fee) (herror : ¬d.error < 2)
      (hsent : w.sent++⟨i.requester,i.fee,.errorRefund d,paid⟩::(more++[callbackTransfer w i d success]) <+:
        w'.sent) : Told w i d w'

section Chain
variable {keccak : Bytes → Bytes32} {w w' e : Contract.World} {i : RequestInfo}
  {allowed : Config Contract.World Kont → Action Call Unit → Config Contract.World Kont → Prop}
  {rest : List (Frame Contract.World Kont)} {result : Option ℤ} {m : Msg}

/-- The record of a request still has its callback. -/
structure Recorded (w : Contract.World) (i : RequestInfo) (id : UInt64) (a : Contract.World) :
    Prop where
  callbackAddr : (a.storage.requests id).callbackAddr = i.callbackAddr
  callbackFID : (a.storage.requests id).callbackFID = (w.storage.requests i.id).callbackFID

end Chain

section Town
variable {K G : Type} [Field K] [AddCommGroup G] [Module K G] [DecidableEq G]
  {P : Platform K G} {gcm : Gcm} {dispatch : Bytes → Option Contract.Function} {owner : Address}
  {balance : ℕ} {s : Town}

/-- The call that the relay makes for a request. -/
def relayed (i : RequestInfo) (web : Web) (seeded : Bool) (mem : Memory) (nonce : Int32) : Ecall :=
  .handleRequest web seeded mem nonce i.id i.requestType.toUInt64
    (i.requestData.map wordBytes).flatten (i.requestData.map wordBytes).flatten rfl

end Town

end TownCrier.Service
