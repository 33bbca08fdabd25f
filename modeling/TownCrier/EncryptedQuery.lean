import TownCrier.Base64
import TownCrier.Delivery

/-!
# An encrypted query on its way through the chain

A client encodes a ciphertext as text and puts the text into the words of a
request. The relay joins the words, and `decrypt_query` cuts off the zero bytes
of the last one and decodes the text.
-/
namespace TownCrier.HybridCipher
open BigEndian Contract Cpp Delivery Evm

/-- The lengths of the arrays. -/
structure HybridCiphertext.Sized (ciphertext : HybridCiphertext) : Prop where
  userPubkey : ciphertext.userPubkey.length = USER_PUBKEY_LEN
  aesIv : ciphertext.aesIv.length = AES_IV_LEN
  gcmTag : ciphertext.gcmTag.length = GCM_TAG_LEN

def tmpBuf (ciphertext : HybridCiphertext) : Bytes :=
  ciphertext.userPubkey++ciphertext.aesIv++ciphertext.gcmTag++ciphertext.data

/-- The outcome of `b64_ntop` is not looked at; a buffer that it has not
terminated is read all the same. -/
def encode (ciphertext : HybridCiphertext) : Exec Bytes :=
  match b64Ntop (tmpBuf ciphertext) ((tmpBuf ciphertext).length*2) with
  | some b64 => pure (cstr b64)
  | none => undefined

/-- Words of 32 bytes, the last one padded with zero bytes. -/
def words (s : Bytes) : List Bytes32 :=
  (List.range ((s.length+31)/32)).map fun i =>
    let piece := (s.drop (32*i)).take 32
    BitVec.ofNat 256 (value (piece++List.replicate (32-piece.length) 0))

theorem wordBytes_value {piece : Bytes} (h : piece.length = 32) :
    wordBytes (BitVec.ofNat 256 (value piece)) = piece := by
  have hlt := value_lt piece
  rw [h] at hlt
  rw [wordBytes,BitVec.toNat_ofNat,Nat.mod_eq_of_lt (by simpa using hlt),← h,fixed_value]

theorem cstr_zeros {s : Bytes} (h : ∀ x ∈ s, x ≠ 0) (n : ℕ) :
    cstr (s++List.replicate n 0) = s := by
  rw [cstr,List.takeWhile_append_of_pos (by simpa using h)]
  cases n <;> simp [List.replicate_succ]

theorem cstr_eq {s : Bytes} (h : ∀ x ∈ s, x ≠ 0) : cstr s = s := by
  simpa using cstr_zeros h 0

/-- The pieces of the text, padded, are pieces of the padded text. -/
theorem piece_padded (s : Bytes) {i k : ℕ} (hi : i < k) (hk : s.length ≤ 32*k) :
    let piece := (s.drop (32*i)).take 32
    piece++List.replicate (32-piece.length) 0 =
      ((s++List.replicate (32*k-s.length) 0).drop (32*i)).take 32 := by
  dsimp only
  rw [List.drop_append,List.take_append,List.length_drop,List.length_take,List.length_drop,
    List.drop_replicate,List.take_replicate]
  congr 2
  omega

theorem pieces_joined (t : Bytes) (k : ℕ) :
    ((List.range k).map fun i => (t.drop (32*i)).take 32).flatten = t.take (32*k) := by
  induction k with
  | zero => simp
  | succ k ih =>
      rw [List.range_succ,List.map_append,List.flatten_append,ih,Nat.mul_succ,List.take_add]
      simp

/-- Joined again, the words are the text and some zero bytes. -/
theorem words_joined (s : Bytes) :
    ∃ n, ((words s).map wordBytes).flatten = s++List.replicate n 0 := by
  have hk : s.length ≤ 32*((s.length+31)/32) := by omega
  refine ⟨32*((s.length+31)/32)-s.length,?_⟩
  have hwords : (words s).map wordBytes = (List.range ((s.length+31)/32)).map fun i =>
      ((s++List.replicate (32*((s.length+31)/32)-s.length) 0).drop (32*i)).take 32 := by
    rw [words,List.map_map]
    refine List.map_congr_left fun i hi => ?_
    rw [Function.comp_apply,wordBytes_value (by simp)]
    exact piece_padded s (List.mem_range.mp hi) hk
  rw [hwords,pieces_joined,List.take_of_length_le]
  rw [List.length_append,List.length_replicate]
  omega

theorem tmpBuf_length {ciphertext : HybridCiphertext} (h : ciphertext.Sized) :
    (tmpBuf ciphertext).length = HEADER_LEN+ciphertext.data.length := by
  simp only [tmpBuf,List.length_append,h.userPubkey,h.aesIv,h.gcmTag,HEADER_LEN]

/-- Twice the length is enough for the text and its terminator. -/
theorem encode_eq {ciphertext : HybridCiphertext} (h : ciphertext.Sized) :
    encode ciphertext = pure (base64 (tmpBuf ciphertext)) := by
  have hlen := tmpBuf_length h
  have hheader : HEADER_LEN = 113 := rfl
  rw [encode,b64Ntop_eq (by omega)]
  exact congrArg pure (cstr_eq (base64_ne_zero _))

/-- The length of the text is enough for the bytes. -/
theorem decode_base64 {ciphertext : HybridCiphertext} (h : ciphertext.Sized) :
    decode (base64 (tmpBuf ciphertext)) = pure ciphertext := by
  have hlen := tmpBuf_length h
  have hroom : (tmpBuf ciphertext).length ≤ (base64 (tmpBuf ciphertext)).length := by
    rw [base64_length]
    omega
  obtain ⟨userPubkey,aesIv,gcmTag,data⟩ := ciphertext
  obtain ⟨hpubkey,hiv,htag⟩ := h
  dsimp only at hpubkey hiv htag
  have hparts : tmpBuf ⟨userPubkey,aesIv,gcmTag,data⟩ = userPubkey++(aesIv++(gcmTag++data)) := by
    simp only [tmpBuf,List.append_assoc]
  rw [hparts] at hroom hlen ⊢
  have hiv' : (userPubkey++(aesIv++(gcmTag++data))).drop USER_PUBKEY_LEN =
      aesIv++(gcmTag++data) := List.drop_left' hpubkey
  have htag' : (userPubkey++(aesIv++(gcmTag++data))).drop (USER_PUBKEY_LEN+AES_IV_LEN) =
      gcmTag++data := by
    rw [← List.drop_drop,hiv',List.drop_left' hiv]
  have hdata : (userPubkey++(aesIv++(gcmTag++data))).drop HEADER_LEN = data := by
    rw [HEADER_LEN,← List.drop_drop,htag',List.drop_left' htag]
  rw [decode,cstr_eq (base64_ne_zero _),b64Pton_base64 hroom]
  dsimp only
  rw [if_neg (by omega),hiv',htag',hdata,List.take_left' hpubkey,List.take_left' hiv,
    List.take_left' htag]

/-- For every length of the data the enclave decodes the ciphertext that the
client encoded. -/
theorem encrypted_query_survives {ciphertext : HybridCiphertext} (h : ciphertext.Sized) :
    ∃ s, encode ciphertext = pure s ∧ ∀ (nonce : Int32) (request : RequestInfo),
      decode (cstr (handleRequestEvent nonce {request with requestData := words s}).data) =
        pure ciphertext := by
  refine ⟨_,encode_eq h,fun nonce request => ?_⟩
  obtain ⟨n,hn⟩ := words_joined (base64 (tmpBuf ciphertext))
  change decode (cstr ((words _).map wordBytes).flatten) = _
  rw [hn,cstr_zeros (base64_ne_zero _),decode_base64 h]

/-- A ciphertext of a single byte. -/
def shortCiphertext : HybridCiphertext :=
  ⟨List.replicate 65 4,List.replicate 32 1,List.replicate 16 2,[3]⟩

theorem encrypted_query_survives_short :
    ∃ s, encode shortCiphertext = pure s ∧ ∀ (nonce : Int32) (request : RequestInfo),
      decode (cstr (handleRequestEvent nonce {request with requestData := words s}).data) =
        pure shortCiphertext :=
  encrypted_query_survives ⟨rfl,rfl,rfl⟩

end TownCrier.HybridCipher
