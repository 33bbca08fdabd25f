import TownCrier.Cpp

/-!
# Encrypted queries

`decrypt_query` and the parsing of a ciphertext in `hybrid_cipher.cpp`, with the
base64 decoder it uses. The decryption itself is a parameter.
-/
namespace TownCrier.HybridCipher
open BigEndian Cpp

def base64Alphabet : Bytes :=
  ascii "ABCDEFGHIJKLMNOPQRSTUVWXYZabcdefghijklmnopqrstuvwxyz0123456789+/"

/-- The bytes before `target[tarindex]`, and that byte. -/
structure Target where
  bytes : Bytes
  next : UInt8

/-- The high bits of a character fill up the current byte, the others start the next. -/
def Target.spill (t : Target) (targsize : ℕ) (high low : UInt8) : Option Target :=
  if t.bytes.length ≥ targsize then none
  else if t.bytes.length+1 < targsize ∨ low = 0 then some ⟨t.bytes++[t.next ||| high],low⟩
  else none

/-- The body of the loop, for the character at position `pos` of the alphabet. -/
def b64Step (targsize : ℕ) (state : Fin 4) (t : Target) (pos : UInt8) : Option Target :=
  match state with
  | 0 => if t.bytes.length ≥ targsize then none else some ⟨t.bytes,pos <<< 2⟩
  | 1 => t.spill targsize (pos >>> 4) ((pos &&& 0x0f) <<< 4)
  | 2 => t.spill targsize (pos >>> 2) ((pos &&& 0x03) <<< 6)
  | 3 => if t.bytes.length ≥ targsize then none else some ⟨t.bytes++[t.next ||| pos],0⟩

/-- What may follow the first pad character. -/
def b64Padding (targsize : ℕ) (state : Fin 4) (t : Target) (s : Bytes) : Option Bytes :=
  let finish (s : Bytes) : Option Bytes :=
    if s.all isSpace ∧ ¬(t.bytes.length < targsize ∧ t.next ≠ 0) then some t.bytes else none
  match state with
  | 0 | 1 => none
  | 2 =>
      match s.dropWhile isSpace with
      | 61::s => finish s
      | _ => none
  | 3 => finish s

def b64Loop (targsize : ℕ) : Fin 4 → Target → Bytes → Option Bytes
  | state, t, [] => if state = 0 then some t.bytes else none
  | state, t, c::s =>
      if isSpace c then b64Loop targsize state t s
      else if c = 61 then b64Padding targsize state t s
      else
        match base64Alphabet.idxOf? c with
        | none => none
        | some pos => do b64Loop targsize (state+1) (← b64Step targsize state t (.ofNat pos)) s

/-- `none` stands for the return value `-1`. -/
def b64Pton (src : Bytes) (targsize : ℕ) : Option Bytes := b64Loop targsize 0 ⟨[],0⟩ src

def USER_PUBKEY_LEN : ℕ := 65
def AES_IV_LEN : ℕ := 32
def GCM_TAG_LEN : ℕ := 16
def HEADER_LEN : ℕ := USER_PUBKEY_LEN+AES_IV_LEN+GCM_TAG_LEN

structure HybridCiphertext where
  userPubkey : Bytes
  aesIv : Bytes
  gcmTag : Bytes
  data : Bytes

/-- A header which the decoded bytes do not fill is read from beyond them. -/
def decode (cipherB64 : Bytes) : Exec HybridCiphertext :=
  match b64Pton (cstr cipherB64) cipherB64.length with
  | none => raise .runtimeError
  | some cipher =>
      if cipher.length < HEADER_LEN then undefined
      else pure
        { userPubkey := cipher.take USER_PUBKEY_LEN
          aesIv := (cipher.drop USER_PUBKEY_LEN).take AES_IV_LEN
          gcmTag := (cipher.drop (USER_PUBKEY_LEN+AES_IV_LEN)).take GCM_TAG_LEN
          data := cipher.drop HEADER_LEN }

/-- The key of the enclave, with what it decrypts; `none` when `hybridDecrypt` throws. -/
structure HybridKey where
  /-- `HybridEncryption()` has seeded its random number generator. -/
  seeded : Bool
  provisioned : Bool
  decrypt : HybridCiphertext → Option Bytes

def HybridKey.queryPubkey (key : HybridKey) : Exec Unit :=
  if key.provisioned then pure () else raise .runtimeError

def HybridKey.hybridDecrypt (key : HybridKey) (ciphertext : HybridCiphertext) : Exec Bytes :=
  if key.provisioned then
    match key.decrypt ciphertext with
    | some cleartext => pure cleartext
    | none => raise .runtimeError
  else raise .runtimeError

def decryptQuery (key : HybridKey) (data : Bytes) : Exec Bytes := do
  if key.seeded then pure () else raise .runtimeError
  key.queryPubkey
  catchExn (decode (cstr data) >>= key.hybridDecrypt) fun _ => raise .decryptionException

end TownCrier.HybridCipher
