import TownCrier.Automaton
import TownCrier.EventHandler
import TownCrier.QueryEncryption
import TownCrier.Sender

/-!
# What the enclave signs

The ecalls of the enclave and of its self tests, called one after the other by a
host that chooses their order and arguments, and that can write to the buffers
which it shares with the enclave. Every signature that the host gets covers either
the eight bytes of a wall clock or the call data of a delivery: with the key of the
wallet the host can neither move ether nor call another function. The delivery is
one of what the handler has found, or the one of `transaction_rlp_test`.
-/
namespace TownCrier.Ecalls
open BigEndian Cpp Delivery Ecdsa Encoding EthTransaction EventHandler FormTransaction HybridCipher
open Https Keccak Transition Wallet

/-- The key under which `env.cpp` keeps the address of the contract. -/
def TC_ADDR_MAP_KEY : Bytes := ascii "TC_ADDRESS"

/-- The static variables of the enclave. -/
structure State where
  keys : Keys
  environment : Option (Bytes → Option Bytes)

def fresh : State := ⟨⟨none,none⟩,none⟩

def setEnv (env : Bytes → Option Bytes) (key val : Bytes) : Bytes → Option Bytes :=
  Function.update env key (some val)

/-- The request of `transaction_form`. -/
def testRequest : Bytes :=
  [246,141,42,50,207,23,177,49,44,109,179,242,54,163,140,148]++List.replicate 16 0++
    [76,159,146,246,236,30,42,32,161,65,61,10,193,184,103,163]++List.replicate 16 0++
    [31,92,131,160]++List.replicate 28 0++fixed 32 60++fixed 32 1++
    ascii "Portal"++List.replicate 26 0

inductive Ecall where
  /-- With what the sites answer, and whether the generator could be seeded. The text
  stays with the host: `data` is what the handler copies out of it, and `hashed` what
  `form_transaction` copies when the handler is done. -/
  | handleRequest (web : Web) (seeded : Bool) (mem : Memory) (nonce : Int32) (id type : UInt64)
      (data hashed : Bytes) (hlen : hashed.length = data.length)
  | timeCalibrate (wallClock : UInt64)
  | ecdsaKeygenSeal (random : {b : Bytes // b.length = 32}) (seed : Bytes)
  | ecdsaKeygenUnseal (secret : Bytes)
  | tcProvisionEcdsaKey (secret : Bytes)
  | tcProvisionHybridKey (secret : Bytes)
  | tcGetAddress
  | tcGetHybridPubkey
  | initEnclaveKvStore (contractAddress : Bytes)
  | setEnclaveKv (key val : Bytes)
  | transactionRlpTest
  /-- A report, the measurement, and the self tests that know no key of the wallet,
  with what they give back. -/
  | other (given : List Bytes)

/-- What the host gets back. -/
inductive Output where
  | status (ret : ℤ)
  /-- From the buffer, or from the log. -/
  | transaction (raw : Bytes)
  /-- The buffer is copied out whether or not the check after signing fails. -/
  | calibration (ok : Bool) (written : Option (UInt8 × BitVec 256 × BitVec 256))
  | bytes (parts : List Bytes)

def reply : Option (List Bytes) → Output
  | none => .status 1
  | some parts => .bytes parts

/-- The enclave, and what the host has called and got so far. -/
structure Session where
  state : State
  log : List (Ecall × Output)

section
variable {K G : Type} [Field K] [AddCommGroup G] [Module K G] (P : Platform K G) (gcm : Gcm)

/-- The address that a call gives the enclave, and the keys. -/
def configured : Ecall → Option Bytes
  | .initEnclaveKvStore contractAddress => some (cstr contractAddress)
  | .setEnclaveKv key val => if cstr key = TC_ADDR_MAP_KEY then some (cstr val) else none
  | _ => none

def provisioned : Ecall → Option ℕ
  | .tcProvisionEcdsaKey secret => provision P secret
  | _ => none

def provisionedHybrid : Ecall → Option ℕ
  | .tcProvisionHybridKey secret => provision P secret
  | _ => none

/-- What the last of the calls that give something has given. -/
def latest {α : Type} (given : Ecall → Option α) (log : List (Ecall × Output)) : Option α :=
  (log.filterMap fun entry => given entry.1).getLast?

def keysAfter (log : List (Ecall × Output)) : Keys :=
  ⟨latest (provisioned P) log,latest (provisionedHybrid P) log⟩

/-- The keys and the address of the enclave are the latest in the log. -/
structure Traced (s : Session) : Prop where
  keys : s.state.keys = keysAfter P s.log
  address : ∀ env, s.state.environment = some env → env TC_ADDR_MAP_KEY = latest configured s.log

theorem latest_append {α : Type} (given : Ecall → Option α) (log : List (Ecall × Output))
    (call : Ecall) (out : Output) :
    latest given (log++[(call,out)]) = (given call).or (latest given log) := by
  rw [latest,List.filterMap_append,List.getLast?_append,latest]
  congr 1
  cases h : given call <;> simp [h]

theorem traced_fresh : Traced P ⟨fresh,[]⟩ where
  keys := rfl
  address env h := by cases h

variable [DecidableEq G]

/-- On a little-endian machine. -/
def wallClockBytes (wallClock : UInt64) : Bytes := (fixed 8 wallClock.toNat).reverse

/-- `handle_request` while the host has the text of the request. -/
def handleShared (e : Enclave) (w : World) (mem : Memory) (nonce : Int32) (id type : UInt64)
    (data hashed : Bytes) : Exec (Option Bytes) :=
  catchExn (answer w mem type data >>= fun r =>
    formTransaction e mem.heap nonce id type.toUInt8 hashed r.1 r.2 true) fun _ => pure none

/-- A host that leaves the text alone. -/
theorem handleShared_self (e : Enclave) (w : World) (mem : Memory) (nonce : Int32)
    (id type : UInt64) (data : Bytes) : handleShared e w mem nonce id type data data =
      EventHandler.handleRequest e w mem nonce id type data := rfl

/-- `transaction_form` dumps what it has formed, by a length that nobody sets where
it has formed nothing. -/
def transactionForm (e : Enclave) : Exec Bytes :=
  formTransaction e (fun _ => 0) 0 1 2 testRequest 0xee (List.replicate 32 0xdd) true >>= fun raw =>
    raw.elim undefined pure

/-- A null pointer as the environment ends the enclave. -/
def ecall (s : State) : Ecall → Exec (State × Output)
  | .handleRequest web seeded mem nonce id type data hashed _ =>
      match s.environment with
      | none => undefined
      | some env => do
          let e := enclave P s.keys ((env TC_ADDR_MAP_KEY).getD [])
          let w : World := ⟨web,{hybridKey P.curve gcm s.keys with seeded := seeded}⟩
          let raw ← handleShared e w mem nonce id type data hashed
          pure (s,raw.elim (.status TC_INTERNAL_ERROR.toNat) .transaction)
  | .timeCalibrate wallClock =>
      let r := sign P s.keys.secretKey (hashBytes keccak256 (wallClockBytes wallClock))
      pure (s,.calibration r.1 r.2)
  | .ecdsaKeygenSeal random seed =>
      pure (s,reply ((ecdsaKeygenSeal P random seed).map fun r => [r.1,r.2.1,r.2.2]))
  | .ecdsaKeygenUnseal secret =>
      pure (s,reply ((ecdsaKeygenUnseal P secret).map fun r => [r.1,r.2]))
  | .tcProvisionEcdsaKey secret =>
      match provision P secret with
      | none => pure (s,.status 1)
      | some key => pure ({s with keys := s.keys.set .ecdsaKey key},.status 0)
  | .tcProvisionHybridKey secret =>
      match provision P secret with
      | none => pure (s,.status 1)
      | some key => pure ({s with keys := s.keys.set .hybridEncryptionKey key},.status 0)
  | .tcGetAddress => pure (s,reply ((tcGetAddress P s.keys).map fun r => [r.1,r.2]))
  | .tcGetHybridPubkey => pure (s,reply ((tcGetHybridPubkey P s.keys).map fun r => [r]))
  | .initEnclaveKvStore contractAddress =>
      pure (⟨s.keys,some (setEnv (fun _ => none) TC_ADDR_MAP_KEY (cstr contractAddress))⟩,.status 0)
  | .setEnclaveKv key val =>
      pure (⟨s.keys,s.environment.map fun env => setEnv env (cstr key) (cstr val)⟩,.status 0)
  | .transactionRlpTest =>
      match s.environment with
      | none => undefined
      | some env => catchExn ((fun raw => (s,.transaction raw)) <$>
          transactionForm (enclave P s.keys ((env TC_ADDR_MAP_KEY).getD [])))
          fun _ => pure (s,.status (-1))
  | .other given => pure (s,.bytes given)

def Step (s : Session) (call : Ecall) (s' : Session) : Prop :=
  ∃ out, ecall P gcm s.state call = .ok (s'.state,out) ∧ s'.log = s.log++[(call,out)]

/-- Any host. -/
abbrev Reachable : Session → Prop := Run (Step P gcm) (fun _ _ => True) ⟨fresh,[]⟩

/-- The signature that a host can take out of an output. -/
def Output.signature : Output → Option (UInt8 × BitVec 256 × BitVec 256)
  | .calibration _ written => written
  | .transaction raw =>
      match readFields raw with
      | some [_,_,_,_,_,_,[v],r,s] => some (v,BitVec.ofNat 256 (value r),BitVec.ofNat 256 (value s))
      | _ => none
  | _ => none

/-- The latest address of the contract. -/
def Located (log : List (Ecall × Output)) (mTo : Bytes20) : Prop :=
  ∃ address, latest configured log = some address ∧ bytes20 (cstr address) = .ok mTo

/-- A delivery of what the enclave finds for the text that the handler of this call
reads, with the hash of the text that stands there afterwards. -/
def Delivers (log : List (Ecall × Output)) (call : Ecall) (nonce : Int32) (mTo : Bytes20)
    (data : Bytes) : Prop :=
  ∃ web seeded mem id type request hashed hlen errorFlag respData resp,
    call = .handleRequest web seeded mem nonce id type request hashed hlen ∧ Located log mTo ∧
    answer ⟨web,{hybridKey P.curve gcm (keysAfter P log) with seeded := seeded}⟩ mem type request =
      .ok (errorFlag,respData) ∧
    respB32 mem.heap errorFlag respData = .ok resp ∧
    data = callData keccak256 id type.toUInt8 hashed errorFlag resp

/-- The delivery of the self test: an error for request 1. -/
def Tests (log : List (Ecall × Output)) (call : Ecall) (mTo : Bytes20) (data : Bytes) : Prop :=
  call = .transactionRlpTest ∧ Located log mTo ∧
    data = callData keccak256 1 2 testRequest 0xee (bytes32 0)

def Carries (log : List (Ecall × Output)) (call : Ecall) (nonce : Int32) (mTo : Bytes20)
    (data : Bytes) : Prop :=
  Delivers P gcm log call nonce mTo data ∨ nonce = 0 ∧ Tests log call mTo data

/-- What the enclave puts under a signature in a call. -/
def Signs (log : List (Ecall × Output)) (call : Ecall) (text : Bytes) : Prop :=
  (∃ wallClock, call = .timeCalibrate wallClock ∧ text = wallClockBytes wallClock) ∨
  ∃ nonce mTo data, Carries P gcm log call nonce mTo data ∧
    text = signedText ((deliverCall nonce mTo data (0,0,0)).fields false)

/-- Every entry of the log is a call in a state that the entries before it explain. -/
def Explained (s : Session) : Prop :=
  ∀ before call out after, s.log = before++(call,out)::after →
    ∃ state next, Traced P ⟨state,before⟩ ∧ ecall P gcm state call = .ok (next,out)

variable {P gcm}

/-- The self test leaves a transaction in the log, or ends with an exception. -/
theorem transactionRlpTest_eq {s : State} {r : State × Output}
    (h : ecall P gcm s .transactionRlpTest = .ok r) :
    ∃ env, s.environment = some env ∧
      ((∃ raw, transactionForm (enclave P s.keys ((env TC_ADDR_MAP_KEY).getD [])) = .ok raw ∧
        r = (s,.transaction raw)) ∨ r = (s,.status (-1))) := by
  rw [ecall] at h
  cases henv : s.environment with
  | none =>
      rw [henv] at h
      cases h
  | some env =>
      rw [henv] at h
      refine ⟨env,rfl,?_⟩
      dsimp only at h
      cases hform : transactionForm (enclave P s.keys ((env TC_ADDR_MAP_KEY).getD [])) with
      | ok raw =>
          rw [hform] at h
          cases h
          exact .inl ⟨raw,rfl,rfl⟩
      | error fault =>
          rw [hform] at h
          cases fault <;> cases h
          exact .inr rfl

/-- What a call does to the static variables. -/
theorem ecall_state {s s' : State} {call : Ecall} {out : Output}
    (h : ecall P gcm s call = .ok (s',out)) :
    (s' = s ∧ provisioned P call = none ∧ provisionedHybrid P call = none ∧ configured call = none) ∨
    (∃ secret key, call = .tcProvisionEcdsaKey secret ∧ provision P secret = some key ∧
      s' = {s with keys := s.keys.set .ecdsaKey key}) ∨
    (∃ secret key, call = .tcProvisionHybridKey secret ∧ provision P secret = some key ∧
      s' = {s with keys := s.keys.set .hybridEncryptionKey key}) ∨
    (∃ a, call = .initEnclaveKvStore a ∧
      s' = ⟨s.keys,some (setEnv (fun _ => none) TC_ADDR_MAP_KEY (cstr a))⟩) ∨
    ∃ key val, call = .setEnclaveKv key val ∧
      s' = ⟨s.keys,s.environment.map fun env => setEnv env (cstr key) (cstr val)⟩ := by
  cases call with
  | handleRequest web seeded mem nonce id type data hashed =>
      rw [ecall] at h
      cases henv : s.environment with
      | none =>
          rw [henv] at h
          cases h
      | some env =>
          rw [henv] at h
          obtain ⟨raw,-,hs⟩ := bind_eq_ok h
          cases hs
          exact .inl ⟨rfl,rfl,rfl,rfl⟩
  | transactionRlpTest =>
      obtain ⟨env,-,⟨raw,-,hout⟩ | hout⟩ := transactionRlpTest_eq h
      · cases hout
        exact .inl ⟨rfl,rfl,rfl,rfl⟩
      · cases hout
        exact .inl ⟨rfl,rfl,rfl,rfl⟩
  | timeCalibrate | ecdsaKeygenSeal | ecdsaKeygenUnseal | tcGetAddress | tcGetHybridPubkey | other =>
      cases h
      exact .inl ⟨rfl,rfl,rfl,rfl⟩
  | tcProvisionEcdsaKey secret =>
      rw [ecall] at h
      cases hkey : provision P secret <;> rw [hkey] at h <;> cases h
      · exact .inl ⟨rfl,hkey,rfl,rfl⟩
      · exact .inr (.inl ⟨secret,_,rfl,hkey,rfl⟩)
  | tcProvisionHybridKey secret =>
      rw [ecall] at h
      cases hkey : provision P secret <;> rw [hkey] at h <;> cases h
      · exact .inl ⟨rfl,rfl,hkey,rfl⟩
      · exact .inr (.inr (.inl ⟨secret,_,rfl,hkey,rfl⟩))
  | initEnclaveKvStore a =>
      cases h
      exact .inr (.inr (.inr (.inl ⟨a,rfl,rfl⟩)))
  | setEnclaveKv key val =>
      cases h
      exact .inr (.inr (.inr (.inr ⟨key,val,rfl,rfl⟩)))

theorem setEnv_address (env : Bytes → Option Bytes) (key val : Bytes) :
    setEnv env key val TC_ADDR_MAP_KEY =
      (if key = TC_ADDR_MAP_KEY then some val else none).or (env TC_ADDR_MAP_KEY) := by
  rw [setEnv]
  split_ifs with h
  · rw [h,Function.update_self]
    rfl
  · rw [Function.update_of_ne (Ne.symm h)]
    rfl

theorem traced_step {s s' : Session} {call : Ecall} (ht : Traced P s)
    (h : Step P gcm s call s') : Traced P s' := by
  obtain ⟨out,hcall,hlog⟩ := h
  obtain ⟨hkeys,haddress⟩ := ht
  have hkeysAfter : keysAfter P s'.log = ⟨(provisioned P call).or s.state.keys.secretKey,
      (provisionedHybrid P call).or s.state.keys.hybridKey⟩ := by
    rw [keysAfter,hlog,latest_append,latest_append,hkeys]
    rfl
  constructor
  · rw [hkeysAfter]
    obtain ⟨hs,hkey,hhybrid,-⟩ | ⟨secret,key,rfl,hkey,hs⟩ | ⟨secret,key,rfl,hkey,hs⟩ |
      ⟨a,rfl,hs⟩ | ⟨key,val,rfl,hs⟩ := ecall_state hcall
    · rw [hs,hkey,hhybrid]
      rfl
    · rw [hs,provisioned,hkey]
      rfl
    · rw [hs,provisionedHybrid,hkey]
      rfl
    · rw [hs]
      rfl
    · rw [hs]
      rfl
  · intro env' henv
    rw [hlog,latest_append]
    obtain ⟨hs,-,-,hnone⟩ | ⟨secret,key,rfl,hkey,hs⟩ | ⟨secret,key,rfl,hkey,hs⟩ |
      ⟨a,rfl,hs⟩ | ⟨key,val,rfl,hs⟩ := ecall_state hcall <;> rw [hs] at henv
    · rw [hnone]
      exact haddress env' henv
    · exact haddress env' henv
    · exact haddress env' henv
    · cases henv
      rw [setEnv,Function.update_self]
      rfl
    · obtain ⟨env,hold,rfl⟩ := Option.map_eq_some_iff.mp henv
      rw [setEnv_address,haddress env hold]
      rfl

theorem explained_step {s s' : Session} {call : Ecall} (ht : Traced P s)
    (hs : Explained P gcm s) (h : Step P gcm s call s') : Explained P gcm s' := by
  obtain ⟨out,hcall,hlog⟩ := h
  intro before call' out' after hsplit
  rw [hlog] at hsplit
  rcases List.append_eq_append_iff.mp hsplit with ⟨l,hbefore,hl⟩ | ⟨l,hbefore,hl⟩
  · cases l with
    | nil =>
        obtain ⟨hentry,-⟩ := List.cons.inj hl
        cases hentry
        rw [hbefore,List.append_nil]
        exact ⟨_,_,ht,hcall⟩
    | cons entry l => simp at hl
  · cases l with
    | nil =>
        obtain ⟨hentry,-⟩ := List.cons.inj hl
        cases hentry
        rw [List.append_nil] at hbefore
        rw [← hbefore]
        exact ⟨_,_,ht,hcall⟩
    | cons entry l =>
        obtain ⟨hentry,-⟩ := List.cons.inj hl
        rw [← hentry] at hbefore
        exact hs _ _ _ _ hbefore

theorem explained_of_reachable {s : Session} (h : Reachable P gcm s) : Explained P gcm s := by
  have hboth := h.kept (I := fun s => Traced P s ∧ Explained P gcm s)
    ⟨traced_fresh P,fun before call out after h => by simp at h⟩
    (fun s call s' hs hstep _ => ⟨traced_step hs.1 hstep,explained_step hs.1 hs.2 hstep⟩)
  exact hboth.2

theorem sign_spec {secretKey : Option ℕ} {data : Bytes} {v : UInt8} {r s : BitVec 256}
    (h : (sign P secretKey data).2 = some (v,r,s)) :
    ∃ d, secretKey = some d ∧ P.signWithV d data = some (v,r,s) := by
  cases secretKey with
  | none => cases h
  | some d =>
      rw [sign] at h
      split_ifs at h with hd
      cases hsign : P.signWithV d data with
      | none =>
          rw [hsign] at h
          cases h
      | some w =>
          rw [hsign] at h
          cases h
          exact ⟨d,rfl,hsign⟩

theorem signature_items {m : MessageCall} (h : Rlp.Fits (.list (m.items true))) {v : UInt8}
    {r s : BitVec 256} (hv : m.v = v) (hr : m.r = writeBinary r) (hs : m.s = writeBinary s) :
    (Output.transaction (Rlp.encode (.list (m.items true)))).signature = some (v,r,s) := by
  have hword : ∀ x : BitVec 256, BitVec.ofNat 256 (value (writeBinary x).val) = x := by
    intro x
    rw [writeBinary,value_fixed,Nat.mod_eq_of_lt (by have := x.isLt; omega),BitVec.ofNat_toNat,
      BitVec.setWidth_eq]
  rw [Output.signature,MessageCall.items,readFields_encode h]
  simp only [MessageCall.fields,hv,hr,hs,if_true,List.cons_append,List.nil_append,hword]

theorem handleShared_formed {e : Enclave} {w : World} {mem : Memory} {nonce : Int32}
    {id type : UInt64} {data hashed raw : Bytes}
    (h : handleShared e w mem nonce id type data hashed = .ok (some raw)) :
    ∃ errorFlag respData, answer w mem type data = .ok (errorFlag,respData) ∧
      formTransaction e mem.heap nonce id type.toUInt8 hashed errorFlag respData true =
        .ok (some raw) := by
  cases hdo : answer w mem type data >>= fun r =>
      formTransaction e mem.heap nonce id type.toUInt8 hashed r.1 r.2 true with
  | error fault =>
      rw [handleShared,hdo] at h
      cases fault <;> cases h
  | ok raw' =>
      rw [handleShared,hdo] at h
      cases h
      obtain ⟨r,hanswer,hform⟩ := bind_eq_ok hdo
      exact ⟨r.1,r.2,hanswer,hform⟩

theorem transactionForm_formed {e : Enclave} {raw : Bytes} (h : transactionForm e = .ok raw) :
    formTransaction e (fun _ => 0) 0 1 2 testRequest 0xee (List.replicate 32 0xdd) true =
      .ok (some raw) := by
  obtain ⟨formed,hform,hraw⟩ := bind_eq_ok h
  cases formed with
  | none => cases hraw
  | some formed =>
      cases hraw
      exact hform

/-- What is under the signature of a transaction that the enclave has formed. -/
theorem formed_signs {s : State} {log : List (Ecall × Output)} (ht : Traced P ⟨s,log⟩)
    {env : Bytes → Option Bytes} (henv : s.environment = some env) {heap : ℕ → UInt8} {nonce : Int32}
    {id error : UInt64} {type : UInt8} {request respData raw : Bytes}
    (hform : formTransaction (enclave P s.keys ((env TC_ADDR_MAP_KEY).getD [])) heap nonce id type
      request error respData true = .ok (some raw)) {v : UInt8} {r sig : BitVec 256}
    (hsig : (Output.transaction raw).signature = some (v,r,sig)) :
    ∃ d mTo resp, latest (provisioned P) log = some d ∧ Located log mTo ∧
      respB32 heap error respData = .ok resp ∧
      P.signWithV d (hashBytes keccak256 (signedText ((deliverCall nonce mTo
        (callData keccak256 id type request error resp) (0,0,0)).fields false))) =
          some (v,r,sig) := by
  obtain ⟨hkeys,haddress⟩ := ht
  dsimp only at hkeys haddress
  obtain ⟨mTo,resp,signature,hto,hresp,hsign,rfl,hfits⟩ := formTransaction_signed hform
  cases (signature_items hfits rfl rfl rfl).symm.trans hsig
  obtain ⟨d,hd,-,hwith,-⟩ := ecdsaSign_spec hsign
  rw [hkeys] at hd
  rw [haddress env henv] at hto
  cases hlast : latest configured log with
  | none =>
      rw [hlast] at hto
      cases hto
  | some address =>
      rw [hlast] at hto
      exact ⟨d,mTo,resp,hd,⟨address,hlast,hto⟩,hresp,hwith⟩

theorem reply_signature (parts : Option (List Bytes)) : (reply parts).signature = none := by
  cases parts <;> rfl

/-- What is signed in one call. -/
theorem ecall_signs {s next : State} {log : List (Ecall × Output)} {call : Ecall} {out : Output}
    (ht : Traced P ⟨s,log⟩) (h : ecall P gcm s call = .ok (next,out)) {v : UInt8}
    {r sig : BitVec 256} (hsig : out.signature = some (v,r,sig)) :
    ∃ d text, latest (provisioned P) log = some d ∧
      P.signWithV d (hashBytes keccak256 text) = some (v,r,sig) ∧ Signs P gcm log call text := by
  cases call with
  | handleRequest web seeded mem nonce id type request hashed hlen =>
      rw [ecall] at h
      cases henv : s.environment with
      | none =>
          rw [henv] at h
          cases h
      | some env =>
          rw [henv] at h
          obtain ⟨raw,hraw,hs⟩ := bind_eq_ok h
          cases hs
          cases raw with
          | none => cases hsig
          | some raw =>
              obtain ⟨errorFlag,respData,hanswer,hform⟩ := handleShared_formed hraw
              obtain ⟨d,mTo,resp,hd,hlocated,hresp,hsign⟩ := formed_signs ht henv hform hsig
              rw [show s.keys = keysAfter P log from ht.keys] at hanswer
              exact ⟨d,_,hd,hsign,.inr ⟨nonce,mTo,_,.inl ⟨web,seeded,mem,id,type,request,hashed,hlen,
                errorFlag,respData,resp,rfl,hlocated,hanswer,hresp,rfl⟩,rfl⟩⟩
  | transactionRlpTest =>
      obtain ⟨env,henv,⟨raw,hraw,hout⟩ | hout⟩ := transactionRlpTest_eq h
      · cases hout
        obtain ⟨d,mTo,resp,hd,hlocated,hresp,hsign⟩ :=
          formed_signs ht henv (transactionForm_formed hraw) hsig
        cases hresp
        exact ⟨d,_,hd,hsign,.inr ⟨0,mTo,_,.inr ⟨rfl,rfl,hlocated,rfl⟩,rfl⟩⟩
      · cases hout
        cases hsig
  | timeCalibrate wallClock =>
      cases h
      obtain ⟨d,hd,hsign⟩ := sign_spec hsig
      rw [show s.keys = keysAfter P log from ht.keys] at hd
      exact ⟨d,_,hd,hsign,.inl ⟨wallClock,rfl,rfl⟩⟩
  | tcProvisionEcdsaKey secret | tcProvisionHybridKey secret =>
      rw [ecall] at h
      cases hkey : provision P secret <;> rw [hkey] at h <;> cases h <;> cases hsig
  | initEnclaveKvStore | setEnclaveKv | other =>
      cases h
      cases hsig
  | ecdsaKeygenSeal random seed =>
      cases h
      rw [reply_signature] at hsig
      cases hsig
  | ecdsaKeygenUnseal secret =>
      cases h
      rw [reply_signature] at hsig
      cases hsig
  | tcGetAddress | tcGetHybridPubkey =>
      cases h
      rw [reply_signature] at hsig
      cases hsig

/-- The six fields of a transaction take more than the eight bytes of a wall clock,
unless its gas fits a byte. -/
theorem nine_le_signedText {nonce gasPrice gas receiver amount data : Bytes}
    (h : 256 ≤ value gas) :
    9 ≤ (signedText [nonce,gasPrice,gas,receiver,amount,data]).length := by
  have hpos : ∀ b : Bytes, 1 ≤ (Rlp.encodeStr b).length := fun b => Rlp.encode_length_pos (.str b)
  have hgas : 3 ≤ (Rlp.encodeStr gas).length := by
    have hlt := value_lt gas
    have hlen : 2 ≤ gas.length := by
      by_contra hshort
      have hpow : 256^gas.length ≤ 256^1 := Nat.pow_le_pow_right (by norm_num) (by omega)
      omega
    rw [Rlp.encodeStr,if_neg (by omega),List.length_append]
    have := List.length_pos_of_ne_nil (Rlp.header_ne_nil 0x80 gas.length)
    omega
  have hheader (n : ℕ) := List.length_pos_of_ne_nil (Rlp.header_ne_nil 0xc0 n)
  rw [signedText,Rlp.encode,Rlp.encodeList,List.length_append]
  have := hheader (Rlp.encodeAll ([nonce,gasPrice,gas,receiver,amount,data].map .str)).length
  simp only [List.map_cons,List.map_nil,Rlp.encodeAll,Rlp.encode,List.length_append,
    List.length_nil] at this ⊢
  have h₁ := hpos nonce
  have h₂ := hpos gasPrice
  have h₃ := hpos receiver
  have h₄ := hpos amount
  have h₅ := hpos data
  omega

theorem Carries.length {log : List (Ecall × Output)} {call : Ecall} {nonce : Int32} {mTo : Bytes20}
    {data : Bytes} (h : Carries P gcm log call nonce mTo data) : data.length = 132 := by
  obtain ⟨_,_,_,_,_,_,_,_,_,_,_,-,-,-,hresp,rfl⟩ | ⟨-,-,-,rfl⟩ := h
  · exact callData_length (respB32_length hresp)
  · exact callData_length (by decide)

/-- A transaction that can be read from what is signed is a delivery without ether:
the network accepts none with as little gas as a wall clock leaves room for. -/
theorem Signs.parse {log : List (Ecall × Output)} {call : Ecall} {text : Bytes}
    (h : Signs P gcm log call text) {nonce gasPrice gas receiver amount data : Bytes}
    (hgas : 256 ≤ value gas)
    (hparse : Rlp.parse text =
      some (.list ([nonce,gasPrice,gas,receiver,amount,data].map .str))) :
    amount = [] ∧ ∃ (n : Int32) (mTo : Bytes20), Carries P gcm log call n mTo data ∧
      receiver = mTo.val ∧ value nonce = (widen n).toNat ∧ value gasPrice = GASPRICE.toNat ∧
      value gas = GASLIMIT.toNat := by
  obtain ⟨htext,hfits⟩ := Rlp.parse_iff.mp hparse
  obtain ⟨wallClock,-,hclock⟩ | ⟨n,mTo,callBytes,hcarries,hdeliver⟩ := h
  · have hlen : 9 ≤ (signedText [nonce,gasPrice,gas,receiver,amount,data]).length :=
      nine_le_signedText hgas
    rw [signedText,← htext,hclock,wallClockBytes,List.length_reverse,fixed_length] at hlen
    omega
  · have hread := Rlp.parse_encode _ (deliverCall_fits n mTo hcarries.length (0,0,0) false)
    rw [MessageCall.items,← signedText,← hdeliver,hparse] at hread
    have hitems := items_injective (Rlp.Item.list.inj (Option.some.inj hread))
    simp only [MessageCall.fields,deliverCall,Bool.false_eq_true,if_false,List.append_nil,
      List.cons.injEq,and_true] at hitems
    obtain ⟨rfl,rfl,rfl,rfl,rfl,rfl⟩ := hitems
    exact ⟨rfl,n,mTo,hcarries,rfl,value_minimal _,value_minimal _,value_minimal _⟩

end

/-- The enclave with its key and the address of the contract. -/
def setUp : State := ⟨smallKeys,some (setEnv (fun _ => none) TC_ADDR_MAP_KEY (cstr contractText))⟩

/-- A request of this type without data. -/
def emptyRequest (type : UInt64) : Ecall :=
  .handleRequest (fun _ => .response ⟨500,[]⟩) true ⟨0,0,0,fun _ => 0⟩ 0 1 type [] [] rfl

/-- The type does not fit a byte, so that there is no handler for it. -/
def unknownRequest : Ecall := emptyRequest 257

theorem ecall_emptyRequest {type : UInt64} (htype : type.toUInt8 = 1)
    (hanswer : ∀ w mem, answer w mem type [] = .ok (1,[])) {raw : Bytes}
    (h : formTransaction (enclave sevenPointPlatform smallKeys contractText) (fun _ => 0) 0 1 1 [] 1
      [] true = .ok (some raw)) :
    ecall sevenPointPlatform plainGcm setUp (emptyRequest type) = .ok (setUp,.transaction raw) := by
  have haddress : (setEnv (fun _ => none) TC_ADDR_MAP_KEY (cstr contractText)
      TC_ADDR_MAP_KEY).getD [] = contractText := by
    rw [setEnv,Function.update_self]
    decide
  rw [emptyRequest,ecall,setUp]
  dsimp only
  rw [haddress,handleShared_self,EventHandler.handleRequest,doHandleRequest,hanswer,bind_ok]
  dsimp only
  rw [htype,h]
  rfl

theorem reachable_emptyRequest {type : UInt64} (htype : type.toUInt8 = 1)
    (hanswer : ∀ w mem, answer w mem type [] = .ok (1,[])) : ∃ s raw signature,
    Reachable sevenPointPlatform plainGcm s ∧ (Output.transaction raw).signature = some signature ∧
    s.log = [(.tcProvisionEcdsaKey (markEnd [3]),.status 0),
      (.initEnclaveKvStore contractText,.status 0)]++(emptyRequest type,.transaction raw)::[] := by
  obtain ⟨raw,hraw⟩ := formTransaction_smallKeys 1
  have hcall := ecall_emptyRequest htype hanswer hraw
  obtain ⟨mTo,resp,⟨v,r,sig⟩,-,-,-,rfl,hfits⟩ := formTransaction_signed hraw
  refine ⟨⟨setUp,_⟩,_,_,?_,signature_items hfits rfl rfl rfl,rfl⟩
  have hkey : Reachable sevenPointPlatform plainGcm
      ⟨⟨smallKeys,none⟩,[(.tcProvisionEcdsaKey (markEnd [3]),.status 0)]⟩ :=
    .step (.tcProvisionEcdsaKey (markEnd [3])) .start ⟨_,rfl,rfl⟩ trivial
  have haddress : Reachable sevenPointPlatform plainGcm
      ⟨setUp,[(.tcProvisionEcdsaKey (markEnd [3]),.status 0),
        (.initEnclaveKvStore contractText,.status 0)]⟩ :=
    .step (.initEnclaveKvStore contractText) hkey ⟨_,rfl,rfl⟩ trivial
  exact .step (emptyRequest type) haddress ⟨_,hcall,rfl⟩ trivial

theorem reachable_unknownRequest : ∃ s raw signature,
    Reachable sevenPointPlatform plainGcm s ∧ (Output.transaction raw).signature = some signature ∧
    s.log = [(.tcProvisionEcdsaKey (markEnd [3]),.status 0),
      (.initEnclaveKvStore contractText,.status 0)]++(unknownRequest,.transaction raw)::[] :=
  reachable_emptyRequest rfl fun _ _ => rfl

end TownCrier.Ecalls
