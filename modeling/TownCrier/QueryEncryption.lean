import TownCrier.Wallet

/-!
# From a client's query to its decryption

Encryption and decryption of `hybrid_cipher.cpp`: an ephemeral key, the shared
secret as the key of AES-GCM, and the ciphertext behind the ephemeral public key.
The client has nothing but the text of the encryption key that the server logs.
-/
namespace TownCrier.HybridCipher
open BigEndian Contract Cpp Delivery Ecdsa Evm Wallet

/-- AES-GCM: key, initial vector and text give ciphertext and tag. -/
structure Gcm where
  encrypt : Bytes → Bytes → Bytes → Bytes × Bytes
  /-- `mbedtls_gcm_auth_decrypt`, which fails if the tag does not fit. -/
  decrypt : Bytes → Bytes → Bytes → Bytes → Option Bytes
  tag_length : ∀ key iv data, (encrypt key iv data).2.length = GCM_TAG_LEN
  decrypt_encrypt : ∀ key iv data,
    decrypt key iv (encrypt key iv data).1 (encrypt key iv data).2 = some data

/-- The rest of the array is zero. -/
def iv : Bytes := 0x99::List.replicate 31 0

section
variable {K G : Type} [Field K] [AddCommGroup G] [Module K G] [DecidableEq G]

/-- The private key of the client is `ephemeral`. -/
def hybridEncrypt (C : Curve K G) (gcm : Gcm) (tcPubkey data : Bytes) (ephemeral : ℕ) :
    Option HybridCiphertext := do
  let point ← C.read tcPubkey
  let z ← C.shared ephemeral point
  let (cipher,tag) := gcm.encrypt (fixed 32 z) iv data
  some ⟨4::C.coordinates (C.pubkey ephemeral),iv,tag,cipher⟩

def hybridDecrypt (C : Curve K G) (gcm : Gcm) (secretKey : ℕ) (ciphertext : HybridCiphertext) :
    Option Bytes := do
  let point ← C.read ciphertext.userPubkey
  let z ← C.shared secretKey point
  gcm.decrypt (fixed 32 z) ciphertext.aesIv ciphertext.data ciphertext.gcmTag

/-- The key behind `decrypt_query`. -/
def hybridKey (C : Curve K G) (gcm : Gcm) (keys : Keys) : HybridKey where
  seeded := true
  provisioned := keys.hybridKey.isSome
  decrypt ciphertext := keys.hybridKey.bind fun key => hybridDecrypt C gcm key ciphertext

variable {C : Curve K G} {gcm : Gcm} {d e : ℕ}

theorem hybridEncrypt_sized {tcPubkey data : Bytes} {ciphertext : HybridCiphertext}
    (h : hybridEncrypt C gcm tcPubkey data e = some ciphertext) : ciphertext.Sized := by
  rw [hybridEncrypt] at h
  obtain ⟨point,-,h⟩ := Option.bind_eq_some_iff.mp h
  obtain ⟨z,-,h⟩ := Option.bind_eq_some_iff.mp h
  cases h
  exact ⟨by rw [List.length_cons,C.coordinates_length]; rfl,rfl,gcm.tag_length ..⟩

/-- Both sides use the same secret. -/
theorem hybridDecrypt_hybridEncrypt (hd : C.Scalar d) (he : C.Scalar e) (data : Bytes) :
    ∃ ciphertext, hybridEncrypt C gcm (4::C.coordinates (C.pubkey d)) data e = some ciphertext ∧
      hybridDecrypt C gcm d ciphertext = some data := by
  obtain ⟨z,hz⟩ := Curve.shared_pubkey he hd
  have hz' : C.shared d (C.pubkey e) = some z := by rw [Curve.shared_comm,hz]
  have hread (k : ℕ) (hk : C.Scalar k) := C.read_coordinates _ hk.pubkey_ne_zero
  refine ⟨⟨4::C.coordinates (C.pubkey e),iv,(gcm.encrypt (fixed 32 z) iv data).2,
    (gcm.encrypt (fixed 32 z) iv data).1⟩,?_,?_⟩
  · rw [hybridEncrypt,hread d hd,Option.bind_eq_bind,Option.bind_some,hz,Option.bind_eq_bind,
      Option.bind_some]
  · rw [hybridDecrypt,hread e he,Option.bind_eq_bind,Option.bind_some,hz',Option.bind_eq_bind,
      Option.bind_some,gcm.decrypt_encrypt]

/-- Through the words of a request the relay gives the enclave the ciphertext. -/
theorem decryptQuery_words {key : HybridKey} (hseeded : key.seeded = true)
    (hkey : key.provisioned = true) {ciphertext : HybridCiphertext} (h : ciphertext.Sized)
    {data : Bytes} (hdata : key.decrypt ciphertext = some data) (nonce : Int32)
    (request : RequestInfo) :
    decryptQuery key (handleRequestEvent nonce
      {request with requestData := words (base64 (tmpBuf ciphertext))}).data = pure data := by
  obtain ⟨n,hn⟩ := words_joined (base64 (tmpBuf ciphertext))
  change decryptQuery key ((words _).map wordBytes).flatten = _
  have hdecrypt : key.hybridDecrypt ciphertext = pure data := by
    rw [HybridKey.hybridDecrypt,if_pos hkey,hdata]
  rw [hn,decryptQuery,if_pos hseeded,HybridKey.queryPubkey,if_pos hkey,
    cstr_zeros (base64_ne_zero _),decode_base64 h]
  change catchExn (key.hybridDecrypt ciphertext) _ = _
  rw [hdecrypt]
  rfl

variable {P : Platform K G} {random : {b : Bytes // b.length = 32}} {seed : Bytes}
  {stack : {b : Bytes // b.length = SECRETKEY_SEALED_LEN}}

/-- What a client encrypts to the logged key of a server with this key file is
what the event handler gets, for every length of the query. -/
theorem encrypted_query_decrypts {file pubkey address text pubkeyText : Bytes}
    (hfile : keygen P random seed stack = some (file,pubkey,address))
    (htext : compact (cstr text) = compact (cstr file))
    (hlogged : unsealKey P text .hybridEncryptionKey = some pubkeyText)
    (he : P.curve.Scalar e) (gcm : Gcm) (data : Bytes) :
    ∃ tcPubkey ciphertext s, b64Pton (cstr pubkeyText) 65 = some tcPubkey ∧
      hybridEncrypt P.curve gcm tcPubkey data e = some ciphertext ∧ encode ciphertext = pure s ∧
      ∀ keys keys', provisionKey P keys text .hybridEncryptionKey = some keys' →
        ∀ (nonce : Int32) (request : RequestInfo),
          decryptQuery (hybridKey P.curve gcm keys')
            (handleRequestEvent nonce {request with requestData := words s}).data = pure data := by
  obtain ⟨key,hkey,hcompact,-,-⟩ := of_keygen hfile
  rw [hcompact] at htext
  obtain ⟨hd,hpoint,-⟩ := seckeyToPubkey_eq_some hkey
  have hlen : key.1.length = 64 := by rw [hpoint,P.curve.coordinates_length]
  have hbase : b64Ntop (4::key.1) (2*PUBKEY_LEN) = some (base64 (4::key.1)) :=
    b64Ntop_eq (by simp [hlen,PUBKEY_LEN])
  rw [unsealKey_keyFile htext hkey,KeyType.text,hbase] at hlogged
  cases hlogged
  obtain ⟨ciphertext,hencrypt,hdecrypt⟩ := hybridDecrypt_hybridEncrypt hd he data
  rw [← hpoint] at hencrypt
  have hsized := hybridEncrypt_sized hencrypt
  refine ⟨4::key.1,ciphertext,_,?_,hencrypt,encode_eq hsized,?_⟩
  · rw [cstr_eq (base64_ne_zero _)]
    exact b64Pton_base64 (by rw [List.length_cons,hlen])
  · intro keys keys' hkeys nonce request
    rw [provisionKey_keyFile htext] at hkeys
    cases hkeys
    exact decryptQuery_words rfl rfl hsized hdecrypt nonce request

end

/-- A cipher which leaves the text as it is. -/
def plainGcm : Gcm where
  encrypt _ _ data := (data,List.replicate GCM_TAG_LEN 0)
  decrypt _ _ cipher tag := if tag = List.replicate GCM_TAG_LEN 0 then some cipher else none
  tag_length _ _ _ := List.length_replicate
  decrypt_encrypt _ _ _ := if_pos rfl

/-- A query, and an event whose data a requester replaces by its ciphertext. -/
def sampleQuery : Bytes := ascii "TC0412"

def sampleEvent : RequestInfo := ⟨1,9,7,0,8,0,0,[]⟩

theorem encrypted_query_decrypts_sample : ∃ file pubkey address pubkeyText keys,
    keygen sevenPointPlatform smallKey [] emptyStack = some (file,pubkey,address) ∧
    unsealKey sevenPointPlatform file .hybridEncryptionKey = some pubkeyText ∧
    provisionKey sevenPointPlatform ⟨none,none⟩ file .hybridEncryptionKey = some keys ∧
    ∃ tcPubkey ciphertext s, b64Pton (cstr pubkeyText) 65 = some tcPubkey ∧
      hybridEncrypt sevenPoints plainGcm tcPubkey sampleQuery 2 = some ciphertext ∧
      encode ciphertext = pure s ∧
      decryptQuery (hybridKey sevenPoints plainGcm keys)
        (handleRequestEvent 0 {sampleEvent with requestData := words s}).data = pure sampleQuery := by
  have hgen : keygen sevenPointPlatform smallKey [] emptyStack = _ := keygen_eq
  have hscalar : sevenPointPlatform.curve.Scalar (value smallKey.val) := by decide
  rw [seckeyToPubkey,if_pos hscalar] at hgen
  obtain ⟨key,hkey,hcompact,-,-⟩ := of_keygen hgen
  have hlogged := unsealKey_keyFile hcompact hkey .hybridEncryptionKey
  have hlen : key.1.length = 64 := by
    rw [(seckeyToPubkey_eq_some hkey).2.1,sevenPointPlatform.curve.coordinates_length]
  rw [KeyType.text,b64Ntop_eq (by simp [hlen,PUBKEY_LEN])] at hlogged
  have hkeys := provisionKey_keyFile hcompact ⟨none,none⟩ .hybridEncryptionKey
  obtain ⟨tcPubkey,ciphertext,s,hread,hencrypt,hencode,hdecrypt⟩ :=
    encrypted_query_decrypts (e := 2) hgen rfl hlogged (by decide) plainGcm sampleQuery
  exact ⟨_,_,_,_,_,hgen,hlogged,hkeys,tcPubkey,ciphertext,s,hread,hencrypt,hencode,
    hdecrypt _ _ hkeys 0 sampleEvent⟩

end TownCrier.HybridCipher
