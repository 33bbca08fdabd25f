import TownCrier.Base64Texts
import TownCrier.Ecdsa
import TownCrier.EncryptedQuery
import TownCrier.Keccak

/-!
# The keys of the enclave

Generation, sealing and provisioning of the two keys, from `eth_ecdsa.cpp`,
`hybrid_cipher.cpp`, `key_utils.cpp` and `tc-keygen.cpp`. Sealing and the
signature itself belong to the platform. The buffer of a sealed key is longer
than what is put into it, and all of it goes into the key file.
-/
namespace TownCrier.Wallet
open BigEndian Cpp Ecdsa HybridCipher Keccak

def SECRETKEY_SEALED_LEN : ℕ := 1024
def PUBKEY_LEN : ℕ := 64

/-- What the enclave takes from mbedtls and from the SDK. -/
structure Platform (K G : Type) [Field K] [AddCommGroup G] [Module K G] where
  curve : Curve K G
  /-- `mbedtls_ecdsa_sign_with_v` of a private key and a digest. -/
  signWithV : ℕ → Bytes → Option (UInt8 × BitVec 256 × BitVec 256)
  /-- `sgx_seal_data` draws its own randomness, the first argument. -/
  sgxSeal : Bytes → Bytes → Bytes
  sgxUnseal : Bytes → Option Bytes
  /-- The header of the sealed data says where they end. -/
  unseal_seal : ∀ seed text rest, sgxUnseal (sgxSeal seed text++rest) = some text
  seal_length : ∀ seed text, text.length = 32 →
    (sgxSeal seed text).length ≤ SECRETKEY_SEALED_LEN

/-- The static variables `g_secret_key` and `g_secret_hybrid_key`; null is `none`. -/
structure Keys where
  secretKey : Option ℕ
  hybridKey : Option ℕ

inductive KeyType where
  | ecdsaKey | hybridEncryptionKey

/-- `boost::algorithm::hex`, in upper case. -/
def hexDigit (n : UInt8) : UInt8 := if n < 10 then n+48 else n-10+65

def bufferToHex (buffer : Bytes) : Bytes :=
  ascii "0x"++buffer.flatMap fun b => [hexDigit (b/16),hexDigit (b%16)]

def KeyType.text (keyType : KeyType) (pubkey address : Bytes) : Option Bytes :=
  match keyType with
  | .ecdsaKey => some (bufferToHex address)
  -- The first byte is not part of the public key that the enclave gives.
  | .hybridEncryptionKey => b64Ntop (4::pubkey) (2*PUBKEY_LEN)

def Keys.set (keys : Keys) (keyType : KeyType) (key : ℕ) : Keys :=
  match keyType with
  | .ecdsaKey => {keys with secretKey := some key}
  | .hybridEncryptionKey => {keys with hybridKey := some key}

section
variable {K G : Type} [Field K] [AddCommGroup G] [Module K G] (P : Platform K G)

/-- `__ecdsa_seckey_to_pubkey`. The multiplication refuses a key out of range. -/
def seckeyToPubkey (seckey : ℕ) : Option (Bytes × Bytes) :=
  if P.curve.Scalar seckey then
    let pubkey := P.curve.coordinates (P.curve.pubkey seckey)
    some (pubkey,(keccak pubkey 32).drop 12)
  else none

def ecdsaKeygenUnseal (secret : Bytes) : Option (Bytes × Bytes) := do
  seckeyToPubkey P (value (← P.sgxUnseal secret))

/-- `tc_provision_ecdsa_key` and `tc_provision_hybrid_key` read the same way. -/
def provision (secret : Bytes) : Option ℕ := (P.sgxUnseal secret).map value

def tcGetAddress (keys : Keys) : Option (Bytes × Bytes) := keys.secretKey.bind (seckeyToPubkey P)

/-- `secretToPubkey` writes the uncompressed form of the point. -/
def tcGetHybridPubkey (keys : Keys) : Option Bytes := do
  let seckey ← keys.hybridKey
  if P.curve.Scalar seckey then some (4::P.curve.coordinates (P.curve.pubkey seckey)) else none

/-- The sealed key, the public key and the address. -/
def ecdsaKeygenSeal (random : {b : Bytes // b.length = 32}) (seed : Bytes) :
    Option (Bytes × Bytes × Bytes) := do
  let secret := value random.val
  let sealedKey := P.sgxSeal seed (fixed 32 secret)
  let (pubkey,address) ← seckeyToPubkey P secret
  some (sealedKey,pubkey,address)

/-- The text of the key file, and what is printed. The sealed key lies in front
of what `stack` held before. -/
def keygen (random : {b : Bytes // b.length = 32}) (seed : Bytes)
    (stack : {b : Bytes // b.length = SECRETKEY_SEALED_LEN}) : Option (Bytes × Bytes × Bytes) := do
  let (sealedKey,pubkey,address) ← ecdsaKeygenSeal P random seed
  let secretSealed := sealedKey++stack.val.drop sealedKey.length
  let b64 ← b64Ntop secretSealed (SECRETKEY_SEALED_LEN*2)
  some (b64++[10],bufferToHex pubkey,bufferToHex address)

def printKey (file : Bytes) : Option (Bytes × Bytes) := do
  let (pubkey,address) ← ecdsaKeygenUnseal P (← b64Pton (cstr file) SECRETKEY_SEALED_LEN)
  some (bufferToHex pubkey,bufferToHex address)

/-- `none` stands for every exception. -/
def unsealKey (sealedKey : Bytes) (keyType : KeyType) : Option Bytes := do
  let (pubkey,address) ← ecdsaKeygenUnseal P (← b64Pton (cstr sealedKey) SECRETKEY_SEALED_LEN)
  keyType.text pubkey address

def provisionKey (keys : Keys) (sealedKey : Bytes) (keyType : KeyType) : Option Keys := do
  let key ← provision P (← b64Pton (cstr sealedKey) SECRETKEY_SEALED_LEN)
  some (keys.set keyType key)

/-- What `main` of the server does with the texts of its configuration: the two
texts that it logs, and the keys of the enclave. -/
def loadKeys (sigKey hybridKey : Bytes) : Option (Bytes × Bytes × Keys) := do
  let walletAddress ← unsealKey P sigKey .ecdsaKey
  let keys ← provisionKey P ⟨none,none⟩ sigKey .ecdsaKey
  let hybridPubkey ← unsealKey P hybridKey .hybridEncryptionKey
  let keys ← provisionKey P keys hybridKey .hybridEncryptionKey
  some (walletAddress,hybridPubkey,keys)

/-- The array that is written to the key file. -/
def secretSealed (random : {b : Bytes // b.length = 32}) (seed : Bytes)
    (stack : {b : Bytes // b.length = SECRETKEY_SEALED_LEN}) : Bytes :=
  P.sgxSeal seed random.val++stack.val.drop (P.sgxSeal seed random.val).length

variable {P} {random : {b : Bytes // b.length = 32}} {seed : Bytes}
  {stack : {b : Bytes // b.length = SECRETKEY_SEALED_LEN}}

theorem secretSealed_length : (secretSealed P random seed stack).length = SECRETKEY_SEALED_LEN := by
  have hlen := P.seal_length seed random.val random.property
  rw [secretSealed,List.length_append,List.length_drop,stack.property]
  omega

theorem keygen_eq : keygen P random seed stack = (seckeyToPubkey P (value random.val)).map fun r =>
    (base64 (secretSealed P random seed stack)++[10],bufferToHex r.1,bufferToHex r.2) := by
  have hfixed := fixed_value random.val
  rw [random.property] at hfixed
  have hb64 : b64Ntop (secretSealed P random seed stack) (SECRETKEY_SEALED_LEN*2) =
      some (base64 (secretSealed P random seed stack)) :=
    b64Ntop_eq (by rw [secretSealed_length,SECRETKEY_SEALED_LEN]; norm_num)
  rw [keygen,ecdsaKeygenSeal,hfixed]
  cases seckeyToPubkey P (value random.val) with
  | none => rfl
  | some r =>
      simp only [Option.bind_eq_bind,Option.bind_some]
      rw [← secretSealed,hb64]
      rfl

/-- Whatever white space the file or the configuration has, the array is read back. -/
theorem b64Pton_keyFile {text : Bytes}
    (h : compact (cstr text) = base64 (secretSealed P random seed stack)) :
    b64Pton (cstr text) SECRETKEY_SEALED_LEN = some (secretSealed P random seed stack) :=
  b64Pton_of_compact h secretSealed_length.le

theorem unseal_secretSealed : P.sgxUnseal (secretSealed P random seed stack) = some random.val :=
  P.unseal_seal ..

theorem ecdsaKeygenUnseal_secretSealed : ecdsaKeygenUnseal P (secretSealed P random seed stack) =
    seckeyToPubkey P (value random.val) := by
  rw [ecdsaKeygenUnseal,unseal_secretSealed]
  rfl

theorem compact_file (src : Bytes) : compact (cstr (base64 src++[10])) = base64 src := by
  have hzero : ∀ x ∈ base64 src++[10], x ≠ 0 := by
    intro x hx
    rcases List.mem_append.mp hx with hx | hx
    · exact base64_ne_zero src x hx
    · rw [List.mem_singleton.mp hx]
      decide
  have hcompact := compact_base64 src
  rw [compact] at hcompact ⊢
  rw [cstr_eq hzero,List.filter_append,hcompact]
  exact List.append_nil _

/-- What a successful generation says about its key. -/
theorem of_keygen {file pubkey address : Bytes}
    (h : keygen P random seed stack = some (file,pubkey,address)) :
    ∃ key : Bytes × Bytes, seckeyToPubkey P (value random.val) = some key ∧
      compact (cstr file) = base64 (secretSealed P random seed stack) ∧
      bufferToHex key.1 = pubkey ∧ bufferToHex key.2 = address := by
  rw [keygen_eq] at h
  obtain ⟨key,hkey,hr⟩ := Option.map_eq_some_iff.mp h
  cases hr
  exact ⟨key,hkey,compact_file _,rfl,rfl⟩

section
variable {text : Bytes} (htext : compact (cstr text) = base64 (secretSealed P random seed stack))
include htext

theorem printKey_keyFile {key : Bytes × Bytes}
    (hkey : seckeyToPubkey P (value random.val) = some key) :
    printKey P text = some (bufferToHex key.1,bufferToHex key.2) := by
  rw [printKey,b64Pton_keyFile htext,Option.bind_eq_bind,Option.bind_some,
    ecdsaKeygenUnseal_secretSealed,hkey]
  rfl

theorem unsealKey_keyFile {key : Bytes × Bytes}
    (hkey : seckeyToPubkey P (value random.val) = some key) (keyType : KeyType) :
    unsealKey P text keyType = keyType.text key.1 key.2 := by
  rw [unsealKey,b64Pton_keyFile htext,Option.bind_eq_bind,Option.bind_some,
    ecdsaKeygenUnseal_secretSealed,hkey]
  rfl

theorem provisionKey_keyFile (keys : Keys) (keyType : KeyType) :
    provisionKey P keys text keyType = some (keys.set keyType (value random.val)) := by
  rw [provisionKey,b64Pton_keyFile htext,Option.bind_eq_bind,Option.bind_some,provision,
    unseal_secretSealed]
  rfl

end

theorem seckeyToPubkey_eq_some {d : ℕ} {key : Bytes × Bytes} (h : seckeyToPubkey P d = some key) :
    P.curve.Scalar d ∧ key.1 = P.curve.coordinates (P.curve.pubkey d) ∧
      key.2 = (keccak key.1 32).drop 12 := by
  rw [seckeyToPubkey] at h
  split_ifs at h with hd
  cases h
  exact ⟨hd,rfl,rfl⟩

/-- The two keys of the server come from two key files, whatever white space the
texts in the configuration have. The address and the encryption key that the
server logs and the enclave answers with are those printed at the generation,
and the logged encryption key can be read back. -/
theorem loadKeys_keygen {r₁ r₂ : {b : Bytes // b.length = 32}} {seed₁ seed₂ : Bytes}
    {stack₁ stack₂ : {b : Bytes // b.length = SECRETKEY_SEALED_LEN}}
    {file₁ pubkey₁ address₁ file₂ pubkey₂ address₂ sigKey hybridKey : Bytes}
    (h₁ : keygen P r₁ seed₁ stack₁ = some (file₁,pubkey₁,address₁))
    (h₂ : keygen P r₂ seed₂ stack₂ = some (file₂,pubkey₂,address₂))
    (hsig : compact (cstr sigKey) = compact (cstr file₁))
    (hhybrid : compact (cstr hybridKey) = compact (cstr file₂)) :
    printKey P sigKey = some (pubkey₁,address₁) ∧ printKey P hybridKey = some (pubkey₂,address₂) ∧
      ∃ (keys : Keys) (pubkey address point : Bytes),
        loadKeys P sigKey hybridKey = some (address₁,base64 point,keys) ∧
        tcGetAddress P keys = some (pubkey,address) ∧
        bufferToHex pubkey = pubkey₁ ∧ bufferToHex address = address₁ ∧
        tcGetHybridPubkey P keys = some point ∧ bufferToHex point.tail = pubkey₂ ∧
        b64Pton (cstr (base64 point)) 65 = some point := by
  obtain ⟨key₁,hkey₁,hfile₁,rfl,rfl⟩ := of_keygen h₁
  obtain ⟨key₂,hkey₂,hfile₂,rfl,rfl⟩ := of_keygen h₂
  rw [hfile₁] at hsig
  rw [hfile₂] at hhybrid
  obtain ⟨hscalar,hpoint,-⟩ := seckeyToPubkey_eq_some hkey₂
  have hlen : key₂.1.length = 64 := by rw [hpoint,P.curve.coordinates_length]
  have hbase : b64Ntop (4::key₂.1) (2*PUBKEY_LEN) = some (base64 (4::key₂.1)) :=
    b64Ntop_eq (by simp [hlen,PUBKEY_LEN])
  refine ⟨?_,?_,⟨some (value r₁.val),some (value r₂.val)⟩,key₁.1,key₁.2,4::key₂.1,?_,hkey₁,rfl,rfl,
    ?_,rfl,?_⟩
  · exact printKey_keyFile hsig hkey₁
  · exact printKey_keyFile hhybrid hkey₂
  · simp only [loadKeys,unsealKey_keyFile hsig hkey₁,unsealKey_keyFile hhybrid hkey₂,
      provisionKey_keyFile hsig,provisionKey_keyFile hhybrid,KeyType.text,Keys.set,hbase,
      Option.bind_eq_bind,Option.bind_some]
  · rw [tcGetHybridPubkey,Option.bind_eq_bind,Option.bind_some,if_pos hscalar,hpoint]
  · rw [cstr_eq (base64_ne_zero _)]
    exact b64Pton_base64 (by rw [List.length_cons,hlen])

end

/-- Sealing that only marks where the text ends. -/
def markEnd (text : Bytes) : Bytes := text.flatMap (fun b => [1,b])++[0]

def untilEnd : Bytes → Option Bytes
  | 0::_ => some []
  | 1::b::rest => (untilEnd rest).map (b::·)
  | _ => none

theorem untilEnd_markEnd (text rest : Bytes) : untilEnd (markEnd text++rest) = some text := by
  induction text with
  | nil => rfl
  | cons b text ih => exact congrArg (Option.map (b::·)) ih

/-- A platform on the curve of seven points. The nonce of a signature is one, or two
where one would give no signature. -/
def sevenPointPlatform : Platform (ZMod 7) (ZMod 7) where
  curve := sevenPoints
  signWithV d digest :=
    if (value digest+d)%7 = 0 then some (27,2,BitVec.ofNat 256 (4*d%7))
    else some (27,1,BitVec.ofNat 256 ((value digest+d)%7))
  sgxSeal _ := markEnd
  sgxUnseal := untilEnd
  unseal_seal _ := untilEnd_markEnd
  seal_length _ text h := by
    have hpairs : (text.flatMap fun b => [1,b]).length = 2*text.length := by
      simp [List.length_flatMap,Nat.mul_comm]
    rw [markEnd,List.length_append,hpairs,h,SECRETKEY_SEALED_LEN]
    norm_num

def smallKey : {b : Bytes // b.length = 32} := ⟨List.replicate 31 0++[3],rfl⟩

def emptyStack : {b : Bytes // b.length = SECRETKEY_SEALED_LEN} :=
  ⟨List.replicate SECRETKEY_SEALED_LEN 0,List.length_replicate⟩

/-- The same file can serve as both keys. -/
theorem loadKeys_sevenPoints : ∃ file pubkey address,
    keygen sevenPointPlatform smallKey [] emptyStack = some (file,pubkey,address) ∧
      printKey sevenPointPlatform file = some (pubkey,address) ∧
      ∃ (keys : Keys) (rawPubkey rawAddress point : Bytes),
        loadKeys sevenPointPlatform file file = some (address,base64 point,keys) ∧
        tcGetAddress sevenPointPlatform keys = some (rawPubkey,rawAddress) ∧
        bufferToHex rawPubkey = pubkey ∧ bufferToHex rawAddress = address ∧
        tcGetHybridPubkey sevenPointPlatform keys = some point ∧ bufferToHex point.tail = pubkey ∧
        b64Pton (cstr (base64 point)) 65 = some point := by
  have hscalar : sevenPointPlatform.curve.Scalar (value smallKey.val) := by decide
  have hgen : keygen sevenPointPlatform smallKey [] emptyStack = _ := keygen_eq
  rw [seckeyToPubkey,if_pos hscalar] at hgen
  obtain ⟨hprint,-,hload⟩ := loadKeys_keygen hgen hgen rfl rfl
  exact ⟨_,_,_,hgen,hprint,hload⟩

end TownCrier.Wallet
