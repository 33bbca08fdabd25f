import TownCrier.FormTransaction
import TownCrier.Settlement

/-!
# A request on its way to the enclave and back

The contract logs a request, the relay passes it on, and the enclave makes a
call of `deliver` from it. The arguments which the contract reads from that
transaction name the request and have the hash that it stored.
-/
namespace TownCrier.Delivery
open BigEndian CallMachine Evm Contract FormTransaction

/-- The message of the relay to the enclave's server. -/
structure ProcessRequest where
  id : UInt64
  type : UInt64
  data : Bytes
  nonce : Int32

/-- `handle_request_event` joins the words of the request. -/
def handleRequestEvent (nonce : Int32) (request : RequestInfo) : ProcessRequest where
  id := request.id
  type := request.requestType.toUInt64
  data := (request.requestData.map wordBytes).flatten
  nonce := nonce

/-- A word of the call data and what comes after it. -/
def word (data : Bytes) : ℕ × Bytes := (value (data.take 32),data.drop 32)

/-- The arguments of a call of `deliver`, which fill the call data exactly. -/
def decodeDeliver (keccak : Bytes → Bytes32) (data : Bytes) : Option Function :=
  if data.length = 132 ∧
      data.take 4 =
        (wordBytes (keccak (Cpp.ascii "deliver(uint64,bytes32,uint64,bytes32)"))).take 4 then
    let (requestId,rest) := word (data.drop 4)
    let (paramsHash,rest) := word rest
    let (error,rest) := word rest
    let (respData,_) := word rest
    if requestId < 2^64 ∧ error < 2^64 then
      some (.deliver (UInt64.ofNat requestId) (BitVec.ofNat 256 paramsHash) (UInt64.ofNat error)
        (BitVec.ofNat 256 respData))
    else none
  else none

theorem word_append {a : Bytes} (h : a.length = 32) (rest : Bytes) :
    word (a++rest) = (value a,rest) := by
  rw [word,List.take_left' h,List.drop_left' h]

theorem ofNat_value_fixed (x : BitVec 256) : BitVec.ofNat 256 (value (fixed 32 x.toNat)) = x := by
  rw [value_fixed_of_lt (by have := x.isLt; omega),BitVec.ofNat_toNat,BitVec.setWidth_eq]

theorem value_fixed_uInt64 (n : UInt64) : value (fixed 32 n.toNat) = n.toNat :=
  value_fixed_of_lt (by have := n.toNat_lt; omega)

/-- Reading the arguments back from the enclave's call data. -/
theorem decodeDeliver_callData (keccak : Bytes → Bytes32) (requestId : UInt64)
    (requestType : UInt8) (requestData : Bytes) (respError : UInt64) {resp : Bytes}
    (h : resp.length = 32) :
    decodeDeliver keccak (callData keccak requestId requestType requestData respError resp) =
      some (.deliver requestId (keccak (requestType::requestData)) respError
        (BitVec.ofNat 256 (value resp))) := by
  have hselector : ((hashBytes keccak DELIVER_CALL_SIGNATURE).take 4).length = 4 := by
    rw [List.length_take,hashBytes_length]
    rfl
  have hlen := @callData_length keccak requestId requestType requestData respError _ h
  have hlast : word resp = (value resp,[]) := by
    rw [word,List.take_of_length_le (by omega),List.drop_eq_nil_of_le (by omega)]
  rw [decodeDeliver,if_pos ⟨hlen,by rw [callData,List.take_left' hselector]; rfl⟩,callData,
    List.drop_left' hselector,word_append (fixed_length _ _)]
  simp only
  rw [word_append (hashBytes_length _ _)]
  simp only
  rw [word_append (fixed_length _ _)]
  simp only
  rw [hlast]
  simp only
  rw [value_fixed_uInt64,value_fixed_uInt64,if_pos ⟨requestId.toNat_lt,respError.toNat_lt⟩,
    UInt64.ofNat_toNat,UInt64.ofNat_toNat,hashBytes,ofNat_value_fixed]

/-- `request` returns at once only from the branch that records. -/
theorem request_done {keccak : Bytes → Bytes32} {m : Msg} {requestType : UInt8}
    {callbackAddr : Address} {callbackFID : Bytes4} {timestamp : UInt256}
    {requestData : List Bytes32} {w w' : World} {result : Option ℤ}
    (h : request keccak m requestType callbackAddr callbackFID timestamp requestData w =
      .done result w') :
    result = some (w.storage.requestCnt.toNat : ℤ) ∧
      w' = (record keccak m requestType callbackAddr callbackFID timestamp requestData
        (w.credit m.value)).2 := by
  unfold request at h
  dsimp only at h
  split_ifs at h
  · unfold Account.callOut at h
    split_ifs at h
    cases h
  · unfold Account.callOut at h
    split_ifs at h
    cases h
  · cases h
    exact ⟨rfl,rfl⟩

/-- The fields of the call that the encoded list holds at position five. -/
theorem items_data (nonce : Int32) (mTo : Encoding.Bytes20) (data : Bytes)
    (signature : UInt8 × BitVec 256 × BitVec 256) :
    ((deliverCall nonce mTo data signature).items true)[5]? = some (.str data) := rfl

theorem deliverCall_fits (nonce : Int32) (mTo : Encoding.Bytes20) {data : Bytes}
    (h : data.length = 132) (signature : UInt8 × BitVec 256 × BitVec 256) (withSig : Bool) :
    Rlp.Fits (.list ((deliverCall nonce mTo data signature).items withSig)) := by
  have hle := EthTransaction.payload_length_le (deliverCall nonce mTo data signature) withSig
    (by rw [deliverCall,h]; norm_num)
  apply EthTransaction.payload_fits
  rw [show (deliverCall nonce mTo data signature).data = data from rfl,h] at hle
  exact hle.trans_lt (by norm_num)

/-- What comes out of the enclave calls `deliver` with the answer. -/
theorem formTransaction_decodes (e : Enclave) {heap : ℕ → UInt8} {nonce : Int32}
    {requestId : UInt64} {requestType : UInt8} {requestData : Bytes} {respError : UInt64}
    {respData resp raw : Bytes} {withSig : Bool}
    (hresp : respB32 heap respError respData = pure resp)
    (hraw : formTransaction e heap nonce requestId requestType requestData respError respData
      withSig = pure (some raw)) :
    ∃ items data, Rlp.parse raw = some (.list items) ∧ items[5]? = some (.str data) ∧
      decodeDeliver e.keccak data = some (.deliver requestId
        (e.keccak (requestType::requestData)) respError (BitVec.ofNat 256 (value resp))) := by
  have hlen := respB32_length hresp
  rw [formTransaction_eq e nonce requestId requestType requestData withSig hresp] at hraw
  cases hto : Encoding.bytes20 (Cpp.cstr e.contractAddress) with
  | error fault =>
      rw [hto] at hraw
      cases hraw
  | ok mTo =>
      rw [hto] at hraw
      obtain ⟨signature,-,rfl⟩ := Option.map_eq_some_iff.mp (Except.ok.inj hraw)
      exact ⟨_,_,Rlp.parse_encode _ (deliverCall_fits nonce mTo (callData_length hlen) signature true),
        items_data _ _ _ _,decodeDeliver_callData _ _ _ _ _ hlen⟩

/-- A transaction comes out whenever the address is well formed and the enclave can sign. -/
theorem formTransaction_signs (e : Enclave) {heap : ℕ → UInt8} (nonce : Int32)
    (requestId : UInt64) (requestType : UInt8) (requestData : Bytes) {respError : UInt64}
    {respData resp : Bytes} {withSig : Bool} (hresp : respB32 heap respError respData = pure resp)
    (hto : ∃ mTo, Encoding.bytes20 (Cpp.cstr e.contractAddress) = pure mTo)
    (hsign : withSig = true → ∀ hash, (e.ecdsaSign hash).isSome) :
    ∃ raw, formTransaction e heap nonce requestId requestType requestData respError respData
      withSig = pure (some raw) := by
  obtain ⟨mTo,hto⟩ := hto
  have hsome : ∀ data, (signature e nonce mTo data withSig).isSome := by
    intro data
    cases withSig with
    | false => rfl
    | true => exact hsign rfl _
  obtain ⟨vrs,hvrs⟩ := Option.isSome_iff_exists.mp (hsome (callData e.keccak requestId requestType
    requestData respError resp))
  rw [formTransaction_eq e nonce requestId requestType requestData withSig hresp]
  simp only [hto,pure_bind,hvrs]
  exact ⟨_,rfl⟩

/-- Every recorded request comes back with its id, its stored hash, the error
and the answer. Besides, a transaction comes out whenever the address is well
formed and the enclave can sign. -/
theorem delivery_matches (e : Enclave) {m : Msg} {requestType : UInt8} {callbackAddr : Address}
    {callbackFID : Bytes4} {timestamp : UInt256} {requestData : List Bytes32} {w w' : World}
    {result : Option ℤ}
    (hrequest : request e.keccak m requestType callbackAddr callbackFID timestamp requestData w =
      .done result w')
    (heap : ℕ → UInt8) (nonce : Int32) (respError : UInt64) {respData : Bytes} (withSig : Bool)
    (hresp : 32 ≤ respData.length) :
    ∃ info, infos w' = infos w++[info] ∧ result = some (info.id.toNat : ℤ) ∧
      info.requestType = requestType ∧ info.requestData = requestData ∧
      let q := handleRequestEvent nonce info
      (∀ raw, formTransaction e heap q.nonce q.id q.type.toUInt8 q.data respError respData withSig =
          pure (some raw) →
        ∃ items data, Rlp.parse raw = some (.list items) ∧ items[5]? = some (.str data) ∧
          decodeDeliver e.keccak data =
            some (.deliver info.id (w'.storage.requests info.id).paramsHash respError
              (if respError = 0 then BitVec.ofNat 256 (value (respData.take 32)) else 0))) ∧
      ((∃ mTo, Encoding.bytes20 (Cpp.cstr e.contractAddress) = pure mTo) →
        (withSig = true → ∀ hash, (e.ecdsaSign hash).isSome) →
        ∃ raw, formTransaction e heap q.nonce q.id q.type.toUInt8 q.data respError respData withSig =
          pure (some raw)) := by
  obtain ⟨rfl,rfl⟩ := request_done hrequest
  refine ⟨⟨w.storage.requestCnt,requestType,m.sender,m.value,callbackAddr,
    e.keccak (encodePacked requestType requestData),timestamp,requestData⟩,?_,rfl,rfl,rfl,?_⟩
  · rw [record,infos_emit,infos_set,infos_credit]
    rfl
  have hresp' := respB32_long heap respError hresp
  have hhash : ((record e.keccak m requestType callbackAddr callbackFID timestamp requestData
      (w.credit m.value)).2.storage.requests w.storage.requestCnt).paramsHash =
        e.keccak (requestType::(requestData.map wordBytes).flatten) := by
    simp only [record,Account.storage_emit,Account.storage_set,Account.storage_credit,
      Function.update_self,encodePacked,List.flatMap_def]
  simp only [handleRequestEvent,UInt8.toUInt8_toUInt64,hhash]
  constructor
  · intro raw hraw
    obtain ⟨items,data,hitems,hdata,hcall⟩ := formTransaction_decodes e hresp' hraw
    refine ⟨items,data,hitems,hdata,hcall.trans ?_⟩
    split_ifs
    · rfl
    · rw [Encoding.bytes32_eq,value_fixed_uInt64]
      rfl
  · exact formTransaction_signs e nonce _ _ _ hresp'

def sampleEnclave : Enclave where
  keccak := fun _ => 3
  ecdsaSign := fun _ => some (27,1,1)
  contractAddress := Cpp.ascii "0x18513702cCd928F2A3eb63d900aDf03c9cc81593"

def sampleWorld : World :=
  (record sampleEnclave.keccak ⟨7,2*10^15,1,0,0⟩ 1 9 0 0 [5]
    ((constructor 5 0).credit (2*10^15))).2

theorem sample_delivered :
    ∃ info raw, infos sampleWorld = [info] ∧
      formTransaction sampleEnclave (fun _ => 0) 4 info.id (handleRequestEvent 4 info).type.toUInt8
        (handleRequestEvent 4 info).data 0 (List.replicate 32 9) true = pure (some raw) := by
  obtain ⟨info,hinfo,-,-,-,-,hraw⟩ := delivery_matches sampleEnclave
    (show request sampleEnclave.keccak ⟨7,2*10^15,1,0,0⟩ 1 9 0 0 [5] (constructor 5 0) =
      .done (some 1) sampleWorld from rfl) (fun _ => 0) 4 0 true
    (show 32 ≤ (List.replicate 32 9).length by decide)
  obtain ⟨raw,hraw⟩ := hraw ⟨⟨_,by decide⟩,rfl⟩ (fun _ _ => rfl)
  exact ⟨info,raw,hinfo,hraw⟩

end TownCrier.Delivery
