import TownCrier.EncryptedQuery

/-!
# Texts that are not ciphertexts

The decoder of a ciphertext looks at the return value of `b64_pton` only to see
whether it failed. It copies the three parts of the header in any case, so a text
that stands for too few bytes is read beyond its end.
-/
namespace TownCrier.HybridCipher
open BigEndian Cpp

/-- The characters before the padding, without the white space. -/
def digits (s : Bytes) : ℕ := ((s.takeWhile fun c => c ≠ 61).filter fun c => ¬isSpace c).length

/-- An exception, or the decoded bytes cut at the fixed places. -/
def Clean (cipherB64 : Bytes) : Prop :=
  (∃ e, decode cipherB64 = raise e) ∨
    ∃ cipher ciphertext, b64Pton (cstr cipherB64) cipherB64.length = some cipher ∧
      HEADER_LEN ≤ cipher.length ∧ decode cipherB64 = .ok ciphertext ∧ ciphertext.Sized ∧
      tmpBuf ciphertext = cipher ∧ ciphertext.data.length = cipher.length-HEADER_LEN

theorem state_cases (state : Fin 4) : state = 0 ∨ state = 1 ∨ state = 2 ∨ state = 3 := by
  revert state
  decide

theorem b64Step_length {targsize : ℕ} {state : Fin 4} {t t' : Target} {pos : UInt8}
    (h : b64Step targsize state t pos = some t') :
    t'.bytes.length = t.bytes.length+if state = 0 then 0 else 1 := by
  have hspill {high low : UInt8} (h : t.spill targsize high low = some t') :
      t'.bytes.length = t.bytes.length+1 := by
    rw [Target.spill] at h
    split_ifs at h
    cases h
    rw [List.length_append,List.length_singleton]
  obtain rfl | rfl | rfl | rfl := state_cases state
  · rw [b64Step] at h
    split_ifs at h
    cases h
    rfl
  · exact hspill h
  · exact hspill h
  · rw [b64Step] at h
    split_ifs at h
    cases h
    rw [List.length_append,List.length_singleton]
    rfl

theorem b64Padding_eq {targsize : ℕ} {state : Fin 4} {t : Target} {s out : Bytes}
    (h : b64Padding targsize state t s = some out) : out = t.bytes := by
  have hfinish {s : Bytes} (h : (if s.all isSpace ∧ ¬(t.bytes.length < targsize ∧ t.next ≠ 0)
      then some t.bytes else none) = some out) : out = t.bytes := by
    split_ifs at h
    cases h
    rfl
  obtain rfl | rfl | rfl | rfl := state_cases state
  · cases h
  · cases h
  · rw [b64Padding] at h
    split at h
    · exact hfinish h
    · cases h
  · exact hfinish h

/-- Three bytes for four characters. -/
theorem b64Loop_length {targsize : ℕ} {state : Fin 4} {t : Target} {s out : Bytes} {n : ℕ}
    (hn : n%4 = state.val) (ht : t.bytes.length = 3*n/4)
    (h : b64Loop targsize state t s = some out) : out.length = 3*(n+digits s)/4 := by
  induction s generalizing state t n with
  | nil =>
      rw [b64Loop] at h
      split_ifs at h
      cases h
      exact ht
  | cons c s ih =>
      rw [b64Loop] at h
      by_cases hspace : isSpace c = true
      · rw [if_pos hspace] at h
        have hc : c ≠ 61 := by
          rintro rfl
          cases hspace
        have hdigits : digits (c::s) = digits s := by simp [digits,hc,hspace]
        rw [hdigits]
        exact ih hn ht h
      · rw [if_neg hspace] at h
        by_cases hpad : c = 61
        · rw [if_pos hpad] at h
          have hdigits : digits (c::s) = 0 := by simp [digits,hpad]
          rw [hdigits,b64Padding_eq h]
          exact ht
        · rw [if_neg hpad] at h
          have hdigits : digits (c::s) = digits s+1 := by simp [digits,hpad,hspace]
          cases hpos : base64Alphabet.idxOf? c with
          | none =>
              rw [hpos] at h
              cases h
          | some pos =>
              rw [hpos] at h
              obtain ⟨t',hstep,hloop⟩ := Option.bind_eq_some_iff.mp h
              have hlength := b64Step_length hstep
              have hnext : (n+1)%4 = (state+1).val ∧ t'.bytes.length = 3*(n+1)/4 := by
                rw [hlength,ht]
                obtain rfl | rfl | rfl | rfl := state_cases state
                · change n%4 = 0 at hn
                  change (n+1)%4 = 1 ∧ 3*n/4+0 = _
                  omega
                · change n%4 = 1 at hn
                  change (n+1)%4 = 2 ∧ 3*n/4+1 = _
                  omega
                · change n%4 = 2 at hn
                  change (n+1)%4 = 3 ∧ 3*n/4+1 = _
                  omega
                · change n%4 = 3 at hn
                  change (n+1)%4 = 0 ∧ 3*n/4+1 = _
                  omega
              rw [ih hnext.1 hnext.2 hloop,hdigits]
              congr 2
              omega

theorem b64Pton_length {src : Bytes} {targsize : ℕ} {out : Bytes}
    (h : b64Pton src targsize = some out) : out.length = 3*digits src/4 := by
  have hlength := b64Loop_length (n := 0) rfl rfl h
  rwa [Nat.zero_add] at hlength

/-- The decoded bytes, cut at the fixed places. -/
def parts (cipher : Bytes) : HybridCiphertext where
  userPubkey := cipher.take USER_PUBKEY_LEN
  aesIv := (cipher.drop USER_PUBKEY_LEN).take AES_IV_LEN
  gcmTag := (cipher.drop (USER_PUBKEY_LEN+AES_IV_LEN)).take GCM_TAG_LEN
  data := cipher.drop HEADER_LEN

theorem parts_sized {cipher : Bytes} (h : 113 ≤ cipher.length) : (parts cipher).Sized := by
  constructor
  · rw [parts,List.length_take]
    exact Nat.min_eq_left (show 65 ≤ cipher.length by omega)
  · rw [parts,List.length_take,List.length_drop]
    exact Nat.min_eq_left (show 32 ≤ cipher.length-65 by omega)
  · rw [parts,List.length_take,List.length_drop]
    exact Nat.min_eq_left (show 16 ≤ cipher.length-(65+32) by omega)

theorem tmpBuf_parts (cipher : Bytes) : tmpBuf (parts cipher) = cipher := by
  simp only [tmpBuf,parts]
  rw [← List.take_add,← List.take_add]
  exact List.take_append_drop _ _

theorem decode_clean_iff (cipherB64 : Bytes) : Clean cipherB64 ↔
    b64Pton (cstr cipherB64) cipherB64.length = none ∨ 151 ≤ digits (cstr cipherB64) := by
  cases hcipher : b64Pton (cstr cipherB64) cipherB64.length with
  | none =>
      refine iff_of_true (.inl ⟨.runtimeError,?_⟩) (.inl rfl)
      rw [decode,hcipher]
  | some cipher =>
      have hlength := b64Pton_length hcipher
      have hlong : HEADER_LEN ≤ cipher.length ↔ 151 ≤ digits (cstr cipherB64) := by
        rw [hlength]
        change 113 ≤ _ ↔ _
        omega
      rw [← hlong]
      by_cases hshort : cipher.length < HEADER_LEN
      · have hdecode : decode cipherB64 = undefined := by
          rw [decode,hcipher]
          exact if_pos hshort
        apply iff_of_false
        · rintro (⟨e,h⟩ | ⟨cipher',ciphertext,h,hlen,-⟩)
          · cases hdecode.symm.trans h
          · cases hcipher.symm.trans h
            omega
        · rintro (h | h)
          · cases h
          · omega
      · have hheader : HEADER_LEN ≤ cipher.length := Nat.not_lt.mp hshort
        have hdecode : decode cipherB64 = .ok (parts cipher) := by
          rw [decode,hcipher]
          exact if_neg hshort
        exact iff_of_true (.inr ⟨cipher,parts cipher,hcipher,hheader,hdecode,parts_sized hheader,
          tmpBuf_parts cipher,List.length_drop⟩) (.inr hheader)

/-- One base64 word is three bytes of a public key. -/
theorem short_text_decoded : decode (ascii "AAAA") = undefined ∧ ¬Clean (ascii "AAAA") := by
  have hcipher : b64Pton (cstr (ascii "AAAA")) (ascii "AAAA").length = some [0,0,0] := by decide
  have hdecode : decode (ascii "AAAA") = undefined := by
    rw [decode,hcipher]
    rfl
  refine ⟨hdecode,?_⟩
  rintro (⟨e,h⟩ | ⟨cipher,ciphertext,h,hlen,-⟩)
  · cases hdecode.symm.trans h
  · cases hcipher.symm.trans h
    exact absurd hlen (by decide)

end TownCrier.HybridCipher
