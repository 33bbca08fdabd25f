import TownCrier.FormTransaction
import TownCrier.Wallet
import Mathlib.Tactic.LinearCombination

/-!
# The sender of a transaction

A node reads the fields of a transaction, hashes all but the signature and
recovers the public key from `v`, `r` and `s`. `ecdsa_sign` checks its signature
before it returns, but `v` takes no part in the check.
-/
namespace TownCrier.Wallet
open BigEndian Cpp Delivery Ecdsa Encoding EthTransaction FormTransaction Keccak

section
variable {K G : Type} [Field K] [AddCommGroup G] [Module K G] [DecidableEq G]

/-- Whether `ecdsa_sign` succeeds, and what it has written by then. -/
def sign (P : Platform K G) (secretKey : Option ℕ) (data : Bytes) :
    Bool × Option (UInt8 × BitVec 256 × BitVec 256) :=
  match secretKey with
  | none => (false,none)
  | some d =>
      if P.curve.Scalar d then
        match P.signWithV d data with
        | none => (false,none)
        | some (v,r,s) =>
            (P.curve.verify (P.curve.pubkey d) (value data) r.toNat s.toNat,some (v,r,s))
      else (false,none)

def ecdsaSign (P : Platform K G) (secretKey : Option ℕ) (data : Bytes) :
    Option (UInt8 × BitVec 256 × BitVec 256) :=
  if (sign P secretKey data).1 then (sign P secretKey data).2 else none

/-- The enclave that `form_transaction` runs in. -/
def enclave (P : Platform K G) (keys : Keys) (contractAddress : Bytes) : Enclave where
  keccak := keccak256
  ecdsaSign := ecdsaSign P keys.secretKey
  contractAddress := contractAddress

def itemBytes : Rlp.Item → Option Bytes
  | .str b => some b
  | .list _ => none

/-- The byte strings of a transaction. -/
def readFields (raw : Bytes) : Option (List Bytes) :=
  match Rlp.parse raw with
  | some (.list items) => items.mapM itemBytes
  | _ => none

/-- What is signed: the fields in front of the signature. -/
def signedText (fields : List Bytes) : Bytes := Rlp.encode (.list (fields.map .str))

/-- The public key that a node finds. -/
def signer (C : Curve K G) (raw : Bytes) : Option G := do
  match ← readFields raw with
  | [nonce,gasPrice,gas,receiver,amount,data,v,r,s] =>
      let digest := hashBytes keccak256 (signedText [nonce,gasPrice,gas,receiver,amount,data])
      if value v = 27 ∨ value v = 28 then
        C.recover (value digest) (value r) (value s) (value v = 28)
      else none
  | _ => none

def sender (C : Curve K G) (raw : Bytes) : Option Bytes :=
  (signer C raw).map fun Q => (keccak (C.coordinates Q) 32).drop 12

variable {P : Platform K G}

theorem ecdsaSign_spec {secretKey : Option ℕ} {data : Bytes} {v : UInt8} {r s : BitVec 256}
    (h : ecdsaSign P secretKey data = some (v,r,s)) :
    ∃ d, secretKey = some d ∧ P.curve.Scalar d ∧ P.signWithV d data = some (v,r,s) ∧
      P.curve.verify (P.curve.pubkey d) (value data) r.toNat s.toNat = true := by
  rw [ecdsaSign] at h
  split_ifs at h with hok
  cases secretKey with
  | none => cases h
  | some d =>
      rw [sign] at hok h
      split_ifs at hok h with hd
      cases hsign : P.signWithV d data with
      | none =>
          rw [hsign] at h
          cases h
      | some w =>
          obtain ⟨v',r',s'⟩ := w
          rw [hsign] at hok h
          cases h
          exact ⟨d,rfl,hd,hsign,hok⟩

theorem ecdsaSign_of_verify {d : ℕ} {data : Bytes} {v : UInt8} {r s : BitVec 256}
    (hd : P.curve.Scalar d) (hsign : P.signWithV d data = some (v,r,s))
    (hverify : P.curve.verify (P.curve.pubkey d) (value data) r.toNat s.toNat = true) :
    ecdsaSign P (some d) data = some (v,r,s) := by
  have h : sign P (some d) data = (true,some (v,r,s)) := by
    rw [sign,if_pos hd,hsign]
    dsimp only
    rw [hverify]
  rw [ecdsaSign,h]
  rfl

theorem mapM_itemBytes (l : List Bytes) : (l.map Rlp.Item.str).mapM itemBytes = some l := by
  induction l with
  | nil => rfl
  | cons b l ih =>
      rw [List.map_cons,List.mapM_cons,ih]
      rfl

theorem readFields_encode {l : List Bytes} (h : Rlp.Fits (.list (l.map .str))) :
    readFields (Rlp.encode (.list (l.map .str))) = some l := by
  rw [readFields,Rlp.parse_encode _ h]
  exact mapM_itemBytes l

/-- The answer to a request is a transaction with a verified signature, over the
bytes that come before the signature. -/
theorem formTransaction_signed {keys : Keys} {contractAddress : Bytes} {heap : ℕ → UInt8}
    {nonce : Int32} {requestId : UInt64} {requestType : UInt8} {requestData : Bytes}
    {respError : UInt64} {respData raw : Bytes}
    (h : formTransaction (enclave P keys contractAddress) heap nonce requestId requestType
      requestData respError respData true = .ok (some raw)) :
    ∃ (mTo : Bytes20) (resp : Bytes) (signature : UInt8 × BitVec 256 × BitVec 256),
      bytes20 (cstr contractAddress) = .ok mTo ∧ respB32 heap respError respData = .ok resp ∧
      let m := deliverCall nonce mTo
        (callData keccak256 requestId requestType requestData respError resp) signature
      ecdsaSign P keys.secretKey (hashBytes keccak256 (signedText (m.fields false))) =
        some signature ∧ raw = Rlp.encode (.list (m.items true)) ∧
        Rlp.Fits (.list (m.items true)) := by
  cases hresp : respB32 heap respError respData with
  | error e =>
      rw [formTransaction,hresp] at h
      cases h
  | ok resp =>
      rw [formTransaction_eq _ nonce requestId requestType requestData true hresp] at h
      cases hto : bytes20 (cstr contractAddress) with
      | error e =>
          rw [enclave,hto] at h
          cases h
      | ok mTo =>
          rw [enclave,hto] at h
          obtain ⟨signature,hsign,hraw⟩ := Option.map_eq_some_iff.mp (Except.ok.inj h)
          refine ⟨mTo,resp,signature,rfl,rfl,hsign,hraw.symm,?_⟩
          exact deliverCall_fits nonce mTo (callData_length (respB32_length hresp)) signature true

/-- What a node finds in a transaction whose signature the enclave has verified. -/
theorem signer_items {m : MessageCall} (h : Rlp.Fits (.list (m.items true))) {v : UInt8}
    {r s : BitVec 256} (hv : m.v = v) (hr : m.r = writeBinary r) (hs : m.s = writeBinary s) :
    signer P.curve (Rlp.encode (.list (m.items true))) =
      if v.toNat = 27 ∨ v.toNat = 28 then
        P.curve.recover (value (hashBytes keccak256 (signedText (m.fields false)))) r.toNat s.toNat
          (v.toNat = 28)
      else none := by
  have hword : ∀ x : BitVec 256, value (writeBinary x).val = x.toNat := by
    intro x
    rw [writeBinary,value_fixed,Nat.mod_eq_of_lt (by have := x.isLt; omega)]
  have hbyte : value [v] = v.toNat := by simp
  rw [signer,MessageCall.items,readFields_encode h,Option.bind_eq_bind,Option.bind_some]
  simp only [MessageCall.fields,hv,hr,hs,if_true,Bool.false_eq_true,if_false,List.append_nil,
    List.cons_append,List.nil_append,hword,hbyte]

theorem recover_iff_parity {C : Curve K G} {Q : G} {z r s : ℕ} (hQ : Q ≠ 0)
    (h : C.verify Q z r s = true) (v : UInt8) :
    (if v.toNat = 27 ∨ v.toNat = 28 then C.recover z r s (v.toNat = 28) else none) = some Q ↔
      v.toNat = 27+(C.odd (C.nonce Q z r s)).toNat ∧ C.x (C.nonce Q z r s) = r := by
  have hrecover := Curve.recover_eq_some_iff hQ h
  by_cases hv : v.toNat = 27 ∨ v.toNat = 28
  · rw [if_pos hv,hrecover,and_comm]
    rcases hv with hv | hv <;> cases C.odd (C.nonce Q z r s) <;> simp [hv]
  · rw [if_neg hv]
    constructor
    · intro hnone
      cases hnone
    · rintro ⟨hodd,-⟩
      cases hb : C.odd (C.nonce Q z r s) <;> rw [hb] at hodd
      · exact absurd (.inl hodd) hv
      · exact absurd (.inr hodd) hv

/-- A node attributes every transaction that the enclave hands out to the wallet
of the enclave exactly if `v` gives the parity of the point of the signature and
`r` is its whole first coordinate. -/
theorem wallet_is_sender_iff {keys : Keys} {contractAddress : Bytes} {heap : ℕ → UInt8}
    {nonce : Int32} {requestId : UInt64} {requestType : UInt8} {requestData : Bytes}
    {respError : UInt64} {respData raw : Bytes}
    (h : formTransaction (enclave P keys contractAddress) heap nonce requestId requestType
      requestData respError respData true = .ok (some raw)) :
    ∃ (d : ℕ) (fields : List Bytes) (v : UInt8) (r s : BitVec 256) (pubkey address : Bytes),
      keys.secretKey = some d ∧ tcGetAddress P keys = some (pubkey,address) ∧
      readFields raw = some (fields++[[v],(writeBinary r).val,(writeBinary s).val]) ∧
      let digest := hashBytes keccak256 (signedText fields)
      let R := P.curve.nonce (P.curve.pubkey d) (value digest) r.toNat s.toNat
      P.signWithV d digest = some (v,r,s) ∧
      (signer P.curve raw = some (P.curve.pubkey d) ↔
        v.toNat = 27+(P.curve.odd R).toNat ∧ P.curve.x R = r.toNat) ∧
      (v.toNat = 27+(P.curve.odd R).toNat → P.curve.x R = r.toNat →
        sender P.curve raw = some address) := by
  obtain ⟨mTo,resp,⟨v,r,s⟩,-,-,hsign,rfl,hfits⟩ := formTransaction_signed h
  obtain ⟨d,hkey,hd,hwith,hverify⟩ := ecdsaSign_spec hsign
  have hsigner := signer_items (P := P) hfits rfl rfl rfl
  dsimp only at hsigner
  have hiff := hsigner ▸ recover_iff_parity hd.pubkey_ne_zero hverify v
  refine ⟨d,_,v,r,s,P.curve.coordinates (P.curve.pubkey d),
    (keccak (P.curve.coordinates (P.curve.pubkey d)) 32).drop 12,hkey,?_,readFields_encode hfits,
    hwith,hiff,?_⟩
  · rw [tcGetAddress,hkey,Option.bind_some,seckeyToPubkey,if_pos hd]
  · intro hv hr
    rw [sender,hiff.mpr ⟨hv,hr⟩]
    rfl

end

/-- On the curve of seven points every key signs every digest. -/
theorem sevenPoints_sign {d : ℕ} (hd : sevenPoints.Scalar d) (digest : Bytes) :
    (ecdsaSign sevenPointPlatform (some d) digest).isSome := by
  have hd' : 0 < d ∧ d < 7 := hd
  have hseven : (7 : ZMod 7) = 0 := by decide
  have hword : ∀ s : ℕ, (BitVec.ofNat 256 (s%7)).toNat = s%7 := by
    intro s
    rw [BitVec.toNat_ofNat,Nat.mod_eq_of_lt (by omega)]
  have hverify : ∀ k r s : ℕ, sevenPoints.Scalar r → sevenPoints.Scalar s →
      (k : ZMod 7) ≠ 0 → sevenPoints.x k%7 = r →
      (s : ZMod 7)*k = value digest+r*d →
      sevenPoints.verify (sevenPoints.pubkey d) (value digest) r s = true := by
    intro k r s hr hs hk hx heq
    have hnonce : (k : ZMod 7) = sevenPoints.nonce (sevenPoints.pubkey d) (value digest) r s := by
      rw [← Curve.nonce_unique hs]
      simpa [Curve.pubkey,sevenPoints] using heq
    rw [Curve.verify_iff,← hnonce]
    exact ⟨hr,hs,hk,hx⟩
  by_cases hz : (value digest+d)%7 = 0
  · have hscalar : sevenPoints.Scalar (4*d%7) := by
      change 0 < _ ∧ _ < 7
      omega
    have hsum := (ZMod.natCast_eq_zero_iff (value digest+d) 7).mpr (Nat.dvd_of_mod_eq_zero hz)
    rw [Nat.cast_add] at hsum
    refine Option.isSome_of_eq_some (ecdsaSign_of_verify hd (if_pos hz) ?_)
    rw [hword]
    refine hverify 2 2 _ (by decide) hscalar (by decide) (by decide) ?_
    rw [ZMod.natCast_mod]
    push_cast
    linear_combination (-1)*hsum+d*hseven
  · have hscalar : sevenPoints.Scalar ((value digest+d)%7) := by
      change 0 < _ ∧ _ < 7
      omega
    refine Option.isSome_of_eq_some (ecdsaSign_of_verify hd (if_neg hz) ?_)
    rw [hword]
    refine hverify 1 1 _ (by decide) hscalar (by decide) (by decide) ?_
    rw [ZMod.natCast_mod]
    push_cast
    ring

def smallKeys : Keys := ⟨some 3,none⟩

def contractText : Bytes := ascii "0x18513702cCd928F2A3eb63d900aDf03c9cc81593"

/-- An input error for the first request. -/
theorem formTransaction_smallKeys (requestType : UInt8) : ∃ raw,
    formTransaction (enclave sevenPointPlatform smallKeys contractText) (fun _ => 0) 0 1 requestType
      [] 1 [] true = .ok (some raw) := by
  have hscalar : sevenPoints.Scalar 3 := by decide
  exact formTransaction_signs (enclave sevenPointPlatform smallKeys contractText) 0 1 requestType []
    (show respB32 (fun _ => 0) 1 [] = .ok (bytes32 0) from rfl) ⟨⟨_,by decide⟩,rfl⟩
    (fun _ digest => sevenPoints_sign hscalar digest)

theorem wallet_is_sender_smallKeys : ∃ raw,
    formTransaction (enclave sevenPointPlatform smallKeys contractText) (fun _ => 0) 0 1 0 [] 1 []
      true = .ok (some raw) ∧
    ∃ (fields : List Bytes) (v : UInt8) (r s : BitVec 256) (pubkey address : Bytes),
      tcGetAddress sevenPointPlatform smallKeys = some (pubkey,address) ∧
      readFields raw = some (fields++[[v],(writeBinary r).val,(writeBinary s).val]) ∧
      let digest := hashBytes keccak256 (signedText fields)
      let R := sevenPoints.nonce (sevenPoints.pubkey 3) (value digest) r.toNat s.toNat
      sevenPointPlatform.signWithV 3 digest = some (v,r,s) ∧
      (signer sevenPoints raw = some (sevenPoints.pubkey 3) ↔
        v.toNat = 27+(sevenPoints.odd R).toNat ∧ sevenPoints.x R = r.toNat) ∧
      (v.toNat = 27+(sevenPoints.odd R).toNat → sevenPoints.x R = r.toNat →
        sender sevenPoints raw = some address) := by
  obtain ⟨raw,h⟩ := formTransaction_smallKeys 0
  obtain ⟨d,fields,v,r,s,pubkey,address,hd,hrest⟩ := wallet_is_sender_iff h
  cases hd
  exact ⟨raw,h,fields,v,r,s,pubkey,address,hrest⟩

end TownCrier.Wallet
