import TownCrier.Abi
import TownCrier.EthTransaction
import Mathlib.Data.List.GetD

/-!
# From an answer to a signed transaction

`form_transaction` of the enclave. The hash function, the signing routine and
the address of the contract come from outside. A buffer that is shorter than
what is copied from it continues with whatever the heap holds behind it.
-/
namespace TownCrier.FormTransaction
open BigEndian Cpp Encoding EthTransaction

def GASPRICE : UInt64 := 0x0BA43B7400
def GASLIMIT : UInt64 := 0x2DC6C0
def TX_BUF_SIZE : ℕ := 2048
def DELIVER_CALL_SIGNATURE : Bytes := ascii "deliver(uint64,bytes32,uint64,bytes32)"

structure Enclave where
  keccak : Bytes → BitVec 256
  /-- `ecdsa_sign`, which gives `v`, `r` and `s`; `none` when it fails. -/
  ecdsaSign : Bytes → Option (UInt8 × BitVec 256 × BitVec 256)
  contractAddress : Bytes

def hashBytes (keccak : Bytes → BitVec 256) (input : Bytes) : Bytes := fixed 32 (keccak input).toNat

/-- The byte at a position of a buffer, or of the heap behind it. -/
def byteFrom (buffer : Bytes) (heap : ℕ → UInt8) (i : ℕ) : UInt8 := buffer.getD i (heap i)

/-- `memcpy` of 32 bytes from `&resp_data[0]`, a null pointer if there are none. -/
def respB32 (heap : ℕ → UInt8) (respError : UInt64) (respData : Bytes) : Exec Bytes :=
  if respError ≠ 0 then pure (bytes32 0)
  else if respData = [] then undefined
  else pure ((List.range 32).map (byteFrom respData heap))

/-- The four arguments of `deliver`. -/
def deliverArgs (requestId : UInt64) (paramHash : Bytes) (respError : UInt64) (resp : Bytes) :
    List Abi.Serializable :=
  [.uInt64 requestId,.bytes32 paramHash,.uInt64 respError,.bytes32 resp]

/-- The end of `form_transaction`: encode, sign, encode again. `none` stands for
`TC_INTERNAL_ERROR`; else the bytes are in the buffer of the caller. -/
def signTransaction (e : Enclave) (tx : Transaction) (withSig : Bool) : Exec (Option Bytes) := do
  let unsigned ← catchExn (some <$> tx.rlpEncode [] false) (fun _ => pure none)
  match unsigned with
  | none => pure none
  | some out =>
      match if withSig then e.ecdsaSign (hashBytes e.keccak out) else some (27,0,0) with
      | none => pure none
      | some (v,r,s) =>
          -- This encoding stands outside of the `try` block.
          let out ← {tx with v, r := (writeBinary r).val, s := (writeBinary s).val}.rlpEncode [] true
          if out.length > TX_BUF_SIZE then pure none else pure (some out)

def formTransaction (e : Enclave) (heap : ℕ → UInt8) (nonce : Int32) (requestId : UInt64)
    (requestType : UInt8) (requestData : Bytes) (respError : UInt64) (respData : Bytes)
    (withSig : Bool) : Exec (Option Bytes) := do
  let paramHash := hashBytes e.keccak (requestType::requestData)
  let resp ← respB32 heap respError respData
  match Abi.encode (.genericArray (deliverArgs requestId paramHash respError resp)) [] with
  | none => pure none
  | some encoded =>
      let funcSelector := hashBytes e.keccak DELIVER_CALL_SIGNATURE
      let mTo ← bytes20 (cstr e.contractAddress)
      signTransaction e (construct .messageCall (widen nonce) GASPRICE GASLIMIT mTo 0
        (funcSelector.take 4++encoded) 0) withSig

/-- The call data of the transaction. -/
def callData (keccak : Bytes → BitVec 256) (requestId : UInt64) (requestType : UInt8)
    (requestData : Bytes) (respError : UInt64) (resp : Bytes) : Bytes :=
  (hashBytes keccak DELIVER_CALL_SIGNATURE).take 4++
    (fixed 32 requestId.toNat++(hashBytes keccak (requestType::requestData)++
      (fixed 32 respError.toNat++resp)))

/-- The whole transaction, once the address is read and the signature made. -/
def deliverCall (nonce : Int32) (mTo : Bytes20) (data : Bytes)
    (signature : UInt8 × BitVec 256 × BitVec 256) : MessageCall :=
  { nonce := widen nonce, gasPrice := GASPRICE, gas := GASLIMIT, receiver := mTo, value := 0, data
    v := signature.1, r := writeBinary signature.2.1, s := writeBinary signature.2.2 }

theorem hashBytes_length (keccak : Bytes → BitVec 256) (input : Bytes) :
    (hashBytes keccak input).length = 32 := fixed_length _ _

theorem range_map_byteFrom {buffer : Bytes} (heap : ℕ → UInt8) {n : ℕ} (h : n ≤ buffer.length) :
    (List.range n).map (byteFrom buffer heap) = buffer.take n := by
  apply List.ext_getElem
  · simp [h]
  · intro i h₁ h₂
    have hi : i < buffer.length := by
      rw [List.length_take] at h₂
      omega
    rw [List.getElem_map,List.getElem_range,List.getElem_take,byteFrom,List.getD_eq_getElem _ _ hi]

theorem respB32_long {respData : Bytes} (heap : ℕ → UInt8) (respError : UInt64)
    (h : 32 ≤ respData.length) :
    respB32 heap respError respData =
      pure (if respError = 0 then respData.take 32 else bytes32 0) := by
  unfold respB32
  by_cases hz : respError = 0
  · rw [if_neg (by simpa using hz),if_neg (by rintro rfl; simp at h),if_pos hz,
      range_map_byteFrom heap h]
  · rw [if_pos hz,if_neg hz]

theorem respB32_length {heap : ℕ → UInt8} {respError : UInt64} {respData resp : Bytes}
    (h : respB32 heap respError respData = pure resp) : resp.length = 32 := by
  unfold respB32 at h
  split_ifs at h
  · rw [← Except.ok.inj h,bytes32_eq,fixed_length]
  · cases h
  · rw [← Except.ok.inj h,List.length_map,List.length_range]

theorem encode_deliverArgs (requestId : UInt64) {paramHash : Bytes} (respError : UInt64)
    {resp : Bytes} (hhash : paramHash.length = 32) (hresp : resp.length = 32) :
    Abi.encode (.genericArray (deliverArgs requestId paramHash respError resp)) [] =
      some (fixed 32 requestId.toNat++(paramHash++(fixed 32 respError.toNat++resp))) := by
  have h := @Abi.encode_static [(.uInt64 requestId,fixed 32 requestId.toNat),
    (.bytes32 paramHash,paramHash),(.uInt64 respError,fixed 32 respError.toNat),
    (.bytes32 resp,resp)] ?_ []
  · simpa [deliverArgs] using h
  · intro p hp
    simp only [List.mem_cons,List.not_mem_nil,or_false] at hp
    rcases hp with rfl | rfl | rfl | rfl
    · exact ⟨rfl,Abi.encode_uInt64 _⟩
    · exact ⟨rfl,Abi.encode_bytes32 hhash⟩
    · exact ⟨rfl,Abi.encode_uInt64 _⟩
    · exact ⟨rfl,Abi.encode_bytes32 hresp⟩

theorem callData_length {keccak : Bytes → BitVec 256} {requestId : UInt64} {requestType : UInt8}
    {requestData : Bytes} {respError : UInt64} {resp : Bytes} (hresp : resp.length = 32) :
    (callData keccak requestId requestType requestData respError resp).length = 132 := by
  simp [callData,hashBytes_length,hresp]

theorem construct_eq (nonce : Int32) (mTo : Bytes20) (data : Bytes) :
    construct .messageCall (widen nonce) GASPRICE GASLIMIT mTo 0 data 0 =
      (deliverCall nonce mTo data (0,0,0)).transaction := by
  have hzero : fixed 32 (0 : BitVec 256).toNat = List.replicate 32 0 := fixed_zero 32
  simp only [deliverCall,MessageCall.transaction,construct,writeBinary,hzero]

/-- What is signed, and with which signature. -/
def signature (e : Enclave) (nonce : Int32) (mTo : Bytes20) (data : Bytes) (withSig : Bool) :
    Option (UInt8 × BitVec 256 × BitVec 256) :=
  if withSig then
    e.ecdsaSign (hashBytes e.keccak
      (Rlp.encode (.list ((deliverCall nonce mTo data (0,0,0)).items false))))
  else some (27,0,0)

theorem signTransaction_eq (e : Enclave) (nonce : Int32) (mTo : Bytes20) {data : Bytes}
    (withSig : Bool) (h : data.length = 132) :
    signTransaction e (construct .messageCall (widen nonce) GASPRICE GASLIMIT mTo 0 data 0) withSig =
      pure ((signature e nonce mTo data withSig).map fun signature =>
        Rlp.encode (.list ((deliverCall nonce mTo data signature).items true))) := by
  have hsmall : ∀ signature withSig,
      ((deliverCall nonce mTo data signature).payload withSig).length ≤ 330 := by
    intro signature withSig
    exact (payload_length_le _ _ (by rw [deliverCall,h]; norm_num)).trans_eq
      (by rw [deliverCall,h])
  have hencode : ∀ signature withSig, (deliverCall nonce mTo data signature).transaction.rlpEncode
      [] withSig = pure (Rlp.encode (.list ((deliverCall nonce mTo data signature).items withSig))) :=
    fun signature withSig => rlpEncode_small ((hsmall signature withSig).trans_lt (by norm_num))
  unfold signTransaction
  have hcatch : ∀ out : Bytes, catchExn (some <$> (pure out : Exec Bytes)) (fun _ => pure none) =
      pure (some out) := fun _ => rfl
  rw [construct_eq,hencode,hcatch,pure_bind]
  cases hs : signature e nonce mTo data withSig with
  | none =>
      rw [signature] at hs
      simp only [hs]
      rfl
  | some vrs =>
      rw [signature] at hs
      simp only [hs]
      have hlen : ¬(Rlp.encode (.list ((deliverCall nonce mTo data vrs).items true))).length >
          TX_BUF_SIZE := by
        have h₁ := hsmall vrs true
        have h₂ := encodeList_length_le (h₁.trans_lt (show 330 < 256^8 by norm_num))
        rw [Rlp.encode,TX_BUF_SIZE]
        rw [MessageCall.payload] at h₁ h₂
        omega
      change (do
        let out ← (deliverCall nonce mTo data vrs).transaction.rlpEncode [] true
        if out.length > TX_BUF_SIZE then pure none else pure (some out)) = _
      rw [hencode,pure_bind,if_neg hlen]
      rfl

/-- Everything the function does after the answer has been copied. -/
theorem formTransaction_eq (e : Enclave) {heap : ℕ → UInt8} (nonce : Int32) (requestId : UInt64)
    (requestType : UInt8) (requestData : Bytes) {respError : UInt64} {respData resp : Bytes}
    (withSig : Bool) (hresp : respB32 heap respError respData = pure resp) :
    formTransaction e heap nonce requestId requestType requestData respError respData withSig = (do
      let mTo ← bytes20 (cstr e.contractAddress)
      let data := callData e.keccak requestId requestType requestData respError resp
      pure ((signature e nonce mTo data withSig).map fun signature =>
        Rlp.encode (.list ((deliverCall nonce mTo data signature).items true)))) := by
  have hlen := respB32_length hresp
  unfold formTransaction
  rw [hresp]
  simp only [pure_bind]
  rw [encode_deliverArgs _ _ (hashBytes_length _ _) hlen]
  simp only
  congr 1
  funext mTo
  exact signTransaction_eq e nonce mTo withSig (callData_length hlen)

end TownCrier.FormTransaction
