import TownCrier.Contract
import TownCrier.Keccak
import Mathlib.Data.BitVec

/-!
# The SteamTrade contract

`SteamTrade.sol`. A buyer pays the price and the fee of TownCrier, and `pay` is
meant to give the price to one of the two sides when TownCrier calls back. A call
is matched with a function by the first four bytes of its data; what matches no
public function runs the fallback. The gas limit of `send` is not modelled.
-/
namespace TownCrier.SteamTrade
open BigEndian CallMachine Evm Keccak

inductive Event where
  | UINT (u : UInt256)
  | Buy (buyerId : Bytes32) (time : UInt32) (encSellerApi : Bytes32 × Bytes32) (item : Bytes32)
      (flag : ℤ)

/-- The place in the source that makes an external call. -/
inductive Purpose where
  | refund
  | tcRequest (ID_B : Bytes32) (T_B : UInt32)
  | ownerPayment (requestId : UInt64)
  | buyerPayment (requestId : UInt64)

def TC_FEE : UInt256 := (35000+20000)*5*10^10

/-- The signature has blanks. -/
def TC_CALLBACK_FID : Bytes4 := selector keccak256 "pay(uint64, uint64, bytes32)"

structure Storage where
  owner : Address
  tcContract : Address
  ID_S : Bytes32
  ITEM : Bytes32
  encAPI : Bytes32 × Bytes32
  P : UInt256
  buyers : UInt64 → Address

abbrev World := Account Storage Event Purpose

/-- The rest of a function after its external call. -/
inductive Kont where
  | refund
  | tcRequest (m : Msg)
  | ownerPayment
  | buyerPayment

/-- What a function returns is a word, if anything. -/
abbrev Result := Outcome (Option UInt256) World Kont

def constructor (sender tcCont : Address) (encApiKey0 encApiKey1 item : Bytes32) (p : UInt256)
    (balance : ℕ) : World where
  storage :=
    { owner := sender, tcContract := tcCont, ID_S := 0, ITEM := item
      encAPI := (encApiKey0,encApiKey1), P := p, buyers := fun _ => 0 }
  balance := balance
  logs := []
  sent := []

def afterRefund (answer : Option ℤ) (w : World) : Result :=
  if answer.isNone then .revert else .done (some 0) w

/-- The data of the request to TownCrier, which has type 2. -/
def format (s : Storage) (ID_B : Bytes32) (T_B : UInt32) : List Bytes32 :=
  [s.encAPI.1,s.encAPI.2,ID_B,BitVec.ofNat 256 T_B.toNat,1,s.ITEM]

def afterTcRequest (m : Msg) (answer : Option ℤ) (w : World) : Result :=
  match answer with
  | none => .revert
  | some n =>
      let w := w.set {w.storage with
        buyers := Function.update w.storage.buyers (UInt64.ofInt n) m.sender}
      .done (some 6) (w.emit (.UINT 6))

def purchase (m : Msg) (ID_B : Bytes32) (T_B : UInt32) (w : World) : Result :=
  let w := w.credit m.value
  let s := w.storage
  if m.value ≠ s.P+TC_FEE then
    (w.emit (.Buy ID_B T_B s.encAPI s.ITEM (-1))).callOut m.sender m.value .refund .refund
      (afterRefund none)
  else
    (w.emit (.Buy ID_B T_B s.encAPI s.ITEM 1)).callOut s.tcContract TC_FEE (.tcRequest ID_B T_B)
      (.tcRequest m) (afterTcRequest m none)

def afterOwnerPayment (answer : Option ℤ) (w : World) : Result :=
  if answer.isNone then .revert else .done none (w.emit (.UINT 1))

def afterBuyerPayment (answer : Option ℤ) (w : World) : Result :=
  if answer.isNone then .revert else .done none (w.emit (.UINT 0))

def pay (m : Msg) (requestId : UInt64) (_error : UInt64) (result : Bytes32) (w : World) : Result :=
  let buyer := w.storage.buyers requestId
  if m.sender ≠ w.storage.tcContract then .done none (w.emit (.UINT 666))
  else if buyer = 0 then .done none w
  else if 0 < result then
    w.callOut w.storage.owner w.storage.P (.ownerPayment requestId) .ownerPayment
      (afterOwnerPayment none)
  else
    w.callOut buyer w.storage.P (.buyerPayment requestId) .buyerPayment (afterBuyerPayment none)

inductive Function where
  | fallback
  | TC_CONTRACT
  | ID_S
  | ITEM
  | encAPI (i : UInt256)
  | P
  | purchase (ID_B : Bytes32) (T_B : UInt32)
  | pay (requestId error : UInt64) (result : Bytes32)

/-- The function that a callback of TownCrier runs, with the words that follow
the selector as its arguments. -/
def dispatch (fid : Bytes4) (d : Contract.Delivery) : Function :=
  if fid = selector keccak256 "TC_CONTRACT()" then .TC_CONTRACT
  else if fid = selector keccak256 "ID_S()" then .ID_S
  else if fid = selector keccak256 "ITEM()" then .ITEM
  else if fid = selector keccak256 "encAPI(uint256)" then
    .encAPI (BitVec.ofNat 256 d.requestId.toNat)
  else if fid = selector keccak256 "P()" then .P
  else if fid = selector keccak256 "purchase(bytes32,uint32)" then
    .purchase (BitVec.ofNat 256 d.requestId.toNat) d.error.toUInt32
  else if fid = selector keccak256 "pay(uint64,uint64,bytes32)" then
    .pay d.requestId d.error d.respData
  else .fallback

def start (m : Msg) : Function → World → Result
  | .fallback, w => nonPayable m (.done none w)
  | .TC_CONTRACT, w => nonPayable m (.done (some (w.storage.tcContract.setWidth 256)) w)
  | .ID_S, w => nonPayable m (.done (some w.storage.ID_S) w)
  | .ITEM, w => nonPayable m (.done (some w.storage.ITEM) w)
  | .encAPI i, w => nonPayable m
      -- There are two words, and any other index is invalid.
      (if i = 0 then .done (some w.storage.encAPI.1) w
      else if i = 1 then .done (some w.storage.encAPI.2) w
      else .revert)
  | .P, w => nonPayable m (.done (some w.storage.P) w)
  | .purchase ID_B T_B, w => purchase m ID_B T_B w
  | .pay requestId error result, w => nonPayable m (pay m requestId error result w)

def resume : Kont → Option ℤ → World → Result
  | .refund => afterRefund
  | .tcRequest m => afterTcRequest m
  | .ownerPayment => afterOwnerPayment
  | .buyerPayment => afterBuyerPayment

/-- The selectors of all public functions, and the one that is asked for. -/
theorem selectors :
    ["TC_CONTRACT()","ID_S()","ITEM()","encAPI(uint256)","P()","purchase(bytes32,uint32)",
      "pay(uint64,uint64,bytes32)","pay(uint64, uint64, bytes32)"].map (selector keccak256) =
    [0xedad1978,0xe929f8f2,0x4f7efc45,0x94c3fd73,0x8b8fbd92,0xbd86ff62,0xbfe3ef60,0x943ee044] := by
  have hshort : ∀ s ∈ ["TC_CONTRACT()","ID_S()","ITEM()","encAPI(uint256)","P()",
      "purchase(bytes32,uint32)","pay(uint64,uint64,bytes32)","pay(uint64, uint64, bytes32)"],
      s.toList.length < 136 := by decide
  rw [List.map_congr_left fun s hs => selector_short (hshort s hs)]
  decide +kernel

/-- The callback which `purchase` asks for does not run `pay`. -/
theorem dispatch_callback (d : Contract.Delivery) : dispatch TC_CALLBACK_FID d = .fallback := by
  have h := selectors
  simp only [List.map_cons,List.map_nil,List.cons.injEq] at h
  obtain ⟨h₁,h₂,h₃,h₄,h₅,h₆,h₇,h₈,-⟩ := h
  unfold dispatch TC_CALLBACK_FID
  rw [h₁,h₂,h₃,h₄,h₅,h₆,h₇,h₈]
  rfl

end TownCrier.SteamTrade
