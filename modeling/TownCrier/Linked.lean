import TownCrier.Handover
import TownCrier.Network

/-!
# TownCrier and a contract that uses it

A client asks TownCrier for something, takes ether from it, and is called back.
Both contracts run as their sources say, each can be called by all other code at
any time, and TownCrier can be told to call any function of the client.

A `Promise` is what a proof about a client consists of. Whatever TownCrier does
for others is reduced to its effect on the records, and what it does for the
client to `Served`, so that `Promise.sound` leaves only facts about the client.
-/
namespace TownCrier.Linked
open BigEndian CallMachine Evm

/-- Two contracts with code, unlike the account of the enclave. -/
structure Addresses where
  townCrier : Address
  client : Address
  distinct : townCrier ≠ client
  townCrier_code : townCrier ≠ Contract.SGX_ADDRESS
  client_code : client ≠ Contract.SGX_ADDRESS

structure Client (S E P K F : Type) where
  start : Msg → F → Account S E P → Outcome Unit (Account S E P) K
  resume : K → Option ℤ → Account S E P → Outcome Unit (Account S E P) K
  fallback : F
  /-- The functions which a callback with this selector can run. -/
  dispatch : Bytes4 → Contract.Delivery → F → Prop
  /-- What a call of TownCrier from this place asks for. -/
  asks : Account S E P → P → Contract.Function

/-- A call of the client, where ether can also arrive without one. -/
inductive Call (F : Type) where
  | message (m : Msg) (f : F)
  | forced (value : UInt256)

abbrev World (S E P : Type) := Contract.World × Account S E P

section System
variable {S E P K F : Type}

def ofTownCrier (a : Account S E P) :
    Contract.Result → Outcome (Option ℤ) (World S E P) (Contract.Kont ⊕ K)
  | .done r w => .done r (w,a)
  | .revert => .revert
  | .call saved handover k => .call (saved,a) (handover,a) (.inl k)

def ofClient (w : Contract.World) :
    Outcome Unit (Account S E P) K → Outcome (Option ℤ) (World S E P) (Contract.Kont ⊕ K)
  | .done _ a => .done none (w,a)
  | .revert => .revert
  | .call saved handover k => .call (w,saved) (w,handover) (.inr k)

/-- The transfer is this message from `sender` to `recipient`. -/
structure Arrives (t : Transfer P) (sender recipient : Address) (m : Msg) : Prop where
  recipient : t.recipient = recipient
  sender : m.sender = sender
  value : m.value = t.value

/-- What runs in the client when TownCrier calls it. -/
def Client.Receives (L : Client S E P K F) : Contract.Purpose → F → Prop
  | .callback callbackFID d, f => L.dispatch callbackFID d f
  | _, f => f = L.fallback

theorem Client.Receives.fallback {L : Client S E P K F} {p : Contract.Purpose} {f : F}
    (h : L.Receives p f) (hp : ∀ fid d, p ≠ .callback fid d) : f = L.fallback := by
  cases p with
  | callback fid d => exact absurd rfl (hp fid d)
  | _ => exact h

def callee (A : Addresses) (L : Client S E P K F) :
    Contract.Kont ⊕ K → World S E P → Contract.Call ⊕ Call F → Prop
  | .inl _, w, .inl (.message m f) => ∃ t, w.1.sent.getLast? = some t ∧
      Arrives t A.townCrier A.townCrier m ∧ (f = .fallback ∨ ∃ fid d, t.purpose = .callback fid d)
  | .inl _, w, .inr (.message m f) => ∃ t, w.1.sent.getLast? = some t ∧
      Arrives t A.townCrier A.client m ∧ L.Receives t.purpose f
  | .inr _, w, .inl (.message m f) => ∃ t, w.2.sent.getLast? = some t ∧
      Arrives t A.client A.townCrier m ∧ f = L.asks w.2 t.purpose
  | .inr _, w, .inr (.message m f) => ∃ t, w.2.sent.getLast? = some t ∧
      Arrives t A.client A.client m ∧ f = L.fallback
  | _, _, _ => False

def outside (A : Addresses) : Contract.Kont ⊕ K → World S E P → Prop
  | .inl _, w => ∃ t, w.1.sent.getLast? = some t ∧
      t.recipient ≠ A.townCrier ∧ t.recipient ≠ A.client
  | .inr _, w => ∃ t, w.2.sent.getLast? = some t ∧
      t.recipient ≠ A.townCrier ∧ t.recipient ≠ A.client

def sender? : Contract.Call ⊕ Call F → Option Address
  | .inl (.message m _) | .inr (.message m _) => some m.sender
  | .inl (.forced _) | .inr (.forced _) => none

/-- Neither of the two contracts calls. -/
def Foreign (A : Addresses) (c : Contract.Call ⊕ Call F) : Prop :=
  ∀ sender, sender? c = some sender → sender ≠ A.townCrier ∧ sender ≠ A.client

/-- Value comes with the gas to take it, so a transfer of some is not `costly`. -/
def system (keccak : Bytes → Bytes32) (A : Addresses) (L : Client S E P K F) :
    System (Contract.Call ⊕ Call F) (Option ℤ) (World S E P) (Contract.Kont ⊕ K) where
  start
    | .inl c, w => ofTownCrier w.2 (Contract.start keccak c w.1)
    | .inr (.message m f), w => ofClient w.1 (L.start m f w.2)
    | .inr (.forced value), w => .done none (w.1,w.2.credit value)
  resume
    | .inl k, a, w => ofTownCrier w.2 (Contract.resume k (a.map fun _ => ()) w.1)
    | .inr k, a, w => ofClient w.1 (L.resume k (a.map (·.getD 0)) w.2)
  callee := callee A L
  outside := outside A
  external c := Foreign A c ∧ sender? c ≠ some Contract.SGX_ADDRESS
  transaction := Foreign A
  costly
    | .inr (.message m f) => f = L.fallback → m.value = 0
    | _ => True

end System

/-- What a client may ask TownCrier for. -/
def Service : Contract.Function → Prop
  | .fallback | .request _ _ _ _ _ | .cancel _ => True
  | _ => False

/-- A call of TownCrier whose sender takes what it gets back, and no more happens:
the result, the wei for the sender, and the world after it. -/
inductive Served (keccak : Bytes → Bytes32) (c : Contract.Call) (w : Contract.World) :
    Option ℤ → UInt256 → Contract.World → Prop
  | atOnce {r w'} (h : Contract.start keccak c w = .done r w') : Served keccak c w r 0 w'
  | paid {saved handover k t r w'} (h : Contract.start keccak c w = .call saved handover k)
      (ht : handover.sent.getLast? = some t)
      (hr : Contract.resume k (some ()) handover = .done r w') : Served keccak c w r t.value w'

section Served
variable {keccak : Bytes → Bytes32} {m : Msg} {w w' : Contract.World} {r : Option ℤ} {v : UInt256}

theorem served_fallback (h : Served keccak (.message m .fallback) w r v w') :
    w' = w ∧ v = 0 := by
  have hstart : ∀ {o}, Contract.start keccak (.message m .fallback) w = o →
      o = .revert ∨ o = .done none w := by
    rintro o rfl
    change nonPayable _ _ = _ ∨ nonPayable _ _ = _
    unfold nonPayable
    split_ifs
    · exact .inr rfl
    · exact .inl rfl
  cases h with
  | atOnce h =>
      rcases hstart h with h | h
      · cases h
      · cases h
        exact ⟨rfl,rfl⟩
  | paid h => rcases hstart h with h | h <;> cases h

/-- The sender of a request gets its value back, or it is recorded. -/
theorem served_request {requestType : UInt8} {callbackAddr : Address} {callbackFID : Bytes4}
    {timestamp : UInt256} {requestData : List Bytes32}
    (h : Served keccak (.message m (.request requestType callbackAddr callbackFID timestamp
      requestData)) w r v w') :
    (Contract.Same w w' ∧ w.sent <+: w'.sent ∧ w'.storage.newVersion = w.storage.newVersion ∧
      v = m.value ∧ (r = some w.storage.newVersion ∨ r = some Contract.FAIL_FLAG)) ∨
    (w.storage.externalCallFlag = false ∧ w.storage.killswitch = false ∧
      w.storage.minFee ≤ m.value ∧ v = 0 ∧ r = some (w.storage.requestCnt.toNat : ℤ) ∧
      w' = (Contract.record keccak m requestType callbackAddr callbackFID timestamp requestData
        (w.credit m.value)).2) := by
  have hrefund : ∀ {x : Contract.World} {p : Contract.Purpose} {k : Contract.Kont}
      {onFailure : Contract.World → Contract.Result} {o : Contract.Result},
      (∀ a, onFailure a = .revert) → x.callOut m.sender m.value p k onFailure = o →
        o = .revert ∨ o = .call (x.keep m.sender m.value p) (x.pay m.sender m.value p) k := by
    rintro x p k onFailure o hrevert rfl
    unfold Account.callOut
    split_ifs
    · exact .inr rfl
    · exact .inl (hrevert _)
  cases h with
  | atOnce h =>
      unfold Contract.start Contract.request at h
      dsimp only at h
      split_ifs at h with hflag hkill hvalue
      · rcases hrefund (fun _ => rfl) h with h | h <;> cases h
      · rcases hrefund (fun _ => rfl) h with h | h <;> cases h
      · cases h
        exact .inr ⟨by simpa using hflag,by simpa using hkill,BitVec.not_lt.mp hvalue,rfl,rfl,rfl⟩
  | paid h ht hr =>
      unfold Contract.start Contract.request at h
      dsimp only at h
      split_ifs at h with hflag hkill hvalue
      · rcases hrefund (fun _ => rfl) h with h | h
        · cases h
        · cases h
          cases Account.eq_of_last_pay ht
          cases hr
          exact .inl ⟨⟨rfl,rfl,rfl⟩,List.prefix_append _ _,rfl,rfl,.inl rfl⟩
      · rcases hrefund (fun _ => rfl) h with h | h
        · cases h
        · cases h
          cases Account.eq_of_last_pay ht
          cases hr
          exact .inl ⟨⟨rfl,rfl,rfl⟩,List.prefix_append _ _,rfl,rfl,.inr rfl⟩

/-- The requester gets the fee less the charge, or nothing happens. -/
theorem served_cancel {requestId : UInt64}
    (h : Served keccak (.message m (.cancel requestId)) w r v w') :
    (Contract.Same w w' ∧ w'.sent = w.sent ∧ w'.storage.newVersion = w.storage.newVersion ∧
      v = 0 ∧ r ≠ some Contract.SUCCESS_FLAG) ∨
    (m.value = 0 ∧ w.storage.externalCallFlag = false ∧ w.storage.killswitch = false ∧
      (w.storage.requests requestId).requester = m.sender ∧
      w.storage.cancellationFee ≤ (w.storage.requests requestId).fee ∧
      v = (w.storage.requests requestId).fee-w.storage.cancellationFee ∧
      r = some Contract.SUCCESS_FLAG ∧ w'.storage.newVersion = w.storage.newVersion ∧
      Contract.Same (w.set (w.storage.setFee requestId Contract.CANCELLED_FEE_FLAG)) w' ∧
      w'.sent = w.sent++[⟨m.sender,v,.cancelRefund requestId,true⟩]) := by
  cases h with
  | atOnce h =>
      unfold Contract.start nonPayable Contract.cancel Account.callOut at h
      dsimp only at h
      split_ifs at h
      · cases h
        exact .inl ⟨.refl w,rfl,rfl,rfl,by decide⟩
      · cases h
      · cases h
        exact .inl ⟨⟨by simp [Contract.Event.info?],rfl,rfl⟩,rfl,rfl,rfl,by decide⟩
  | paid h ht hr =>
      unfold Contract.start nonPayable Contract.cancel Account.callOut at h
      dsimp only at h
      split_ifs at h with hvalue hflag hkill hopen hfunds
      · cases h
        obtain rfl := Account.eq_of_last_pay ht
        cases hr
        refine .inr ⟨hvalue,by simpa using hflag,by simpa using hkill,hopen.1,hopen.2,rfl,rfl,rfl,
          ?_,rfl⟩
        exact ⟨by simp [Contract.Event.info?],rfl,rfl⟩
      · cases h

end Served

/-- `ready` is what the client counts on when it is called back with a delivery,
`pre` what its functions count on and `held` what holds when it has called out. -/
structure Promise (S E P K F : Type) where
  inv : World S E P → Prop
  rel : World S E P → World S E P → Prop
  ready : Contract.Delivery → World S E P → Prop
  pre : Msg → F → World S E P → Prop
  held : Msg → F → World S E P → K → World S E P → World S E P → Prop

namespace Promise
variable {S E P K F : Type} (Q : Promise S E P K F)

/-- Demanded of each piece of the client's code, with TownCrier in `w`. -/
def Piece (m : Msg) (f : F) (e : World S E P) (w : Contract.World) :
    Outcome Unit (Account S E P) K → Prop
  | .done _ a => Q.inv (w,a) ∧ Q.rel e (w,a)
  | .revert => True
  | .call saved handover k => Q.held m f e k (w,saved) (w,handover)

theorem piece_nonPayable {Q : Promise S E P K F} {m : Msg} {f : F} {e : World S E P}
    {w : Contract.World} {o : Outcome Unit (Account S E P) K} (h : Q.Piece m f e w o) :
    Q.Piece m f e w (nonPayable m o) := by
  unfold nonPayable
  split_ifs
  · exact h
  · trivial

def deliverCall (m : Msg) (d : Contract.Delivery) : Contract.Call :=
  .message m (.deliver d.requestId d.paramsHash d.error d.respData)

structure Sound (keccak : Bytes → Bytes32) (A : Addresses) (L : Client S E P K F)
    (ok : Contract.Call ⊕ Call F → World S E P → Prop) : Prop where
  /-- Receiving ether does nothing else. -/
  fallback : ∀ m a, L.start m L.fallback a = .done () (a.credit m.value)
  refl : ∀ w, Q.rel w w
  trans : ∀ {w₁ w₂ w₃}, Q.rel w₁ w₂ → Q.rel w₂ w₃ → Q.rel w₁ w₃
  credit : ∀ w a v, Q.inv (w,a) → Q.inv (w,a.credit v) ∧ Q.rel (w,a) (w,a.credit v)
  same : ∀ w w' a, Contract.Same w w' → w.sent <+: w'.sent →
    (Contract.Versioned w → Contract.Versioned w') → Q.inv (w,a) → Q.inv (w',a) ∧ Q.rel (w,a) (w',a)
  /-- TownCrier runs for others. -/
  advance : ∀ c w a w', sender? (.inl c : Contract.Call ⊕ Call F) ≠ some A.client →
    ok (.inl c) (w,a) → Contract.Advance keccak w c w' → Q.inv (w,a) →
      Q.inv (w',a) ∧ Q.rel (w,a) (w',a)
  answered : ∀ m d w a w', Contract.Answering w d →
    d.error < 2 ∨ ¬(w.storage.requests d.requestId).fee.toNat ≤ w.balance → Q.inv (w,a) →
      ok (.inl (deliverCall m d)) (w,a) → Contract.Advance keccak w (deliverCall m d) w' →
        Contract.Closed w' (deliverCall m d) → Q.ready d (w',a)
  /-- The refund of an error went to the client. -/
  refunded : ∀ m d w a w' sent, Contract.Answering w d → ¬d.error < 2 →
    (w.storage.requests d.requestId).requester = A.client → Q.inv (w,a) →
      ok (.inl (deliverCall m d)) (w,a) → Contract.Advance keccak w (deliverCall m d) w' →
        Contract.Closed w' (deliverCall m d) → w.sent <+: sent → w'.sent = sent++[⟨A.client,(w.storage.requests d.requestId).fee,
          .errorRefund d,true⟩] →
            Q.ready d (w',a.credit (w.storage.requests d.requestId).fee)
  /-- The request is not the client's. -/
  foreign : ∀ d w w', d.requestId ≠ 0 → (w.1.storage.requests d.requestId).requester ≠ 0 →
    (w.1.storage.requests d.requestId).requester ≠ A.client → Q.inv w → Q.inv w' → Q.rel w w' →
      Q.ready d w'
  ready_same : ∀ d w a w', Contract.Same w w' → w.sent <+: w'.sent → Q.ready d (w,a) →
    Q.ready d (w',a)
  entry : ∀ m f w, f ≠ L.fallback → Foreign A (.inr (.message m f)) → Q.inv w →
    ok (.inr (.message m f)) w → Q.pre m f w
  callback : ∀ m fid d f w, f ≠ L.fallback → L.dispatch fid d f → m.sender = A.townCrier →
    m.value = 0 → Q.inv w → Q.ready d w → Q.pre m f w
  start : ∀ m f w, f ≠ L.fallback → Q.pre m f w → ok (.inr (.message m f)) w →
    Q.Piece m f w w.1 (L.start m f w.2)
  /-- A call of the client that fails. -/
  failed : ∀ m f e k s h, Q.held m f e k s h → Q.Piece m f e s.1 (L.resume k none s.2)
  asked : ∀ m f e k s h t m', Q.held m f e k s h → h.2.sent.getLast? = some t →
    Arrives t A.client A.townCrier m' → Service (L.asks h.2 t.purpose) ∧
      ∀ r v w', ok (.inl (.message m' (L.asks h.2 t.purpose))) h →
        Served keccak (.message m' (L.asks h.2 t.purpose)) h.1 r v w' →
          Q.Piece m f e w' (L.resume k (some (r.getD 0)) (h.2.credit v))
  other : ∀ m f e k s h t, Q.held m f e k s h → h.2.sent.getLast? = some t →
    t.recipient ≠ A.townCrier → Q.inv h ∧ ∀ n w, Q.inv w → Q.rel h w →
      Q.Piece m f e w.1 (L.resume k (some n) w.2)

/-- TownCrier has called out for others. -/
structure Open (A : Addresses) (e : World S E P) (k : Contract.Kont) (s h : World S E P) :
    Prop where
  saved : Q.inv s ∧ Q.rel e s
  handover : Q.inv h ∧ Q.rel e h
  callback : ∀ t fid d, h.1.sent.getLast? = some t → t.purpose = .callback fid d →
    t.value = 0 ∧ Q.ready d h
  refund : ∀ t m d fee, h.1.sent.getLast? = some t → k = .deliverRefund m d fee →
    (t.recipient = A.client → t.value ≠ 0 ∧ (∀ fid d, t.purpose ≠ .callback fid d) ∧
      Q.ready d (h.1,h.2.credit t.value)) ∧
    (t.recipient ≠ A.client → Q.ready d s ∧ ∀ w, Q.inv w → Q.rel h w → Q.ready d w)

def FromClient (A : Addresses) (c : Contract.Call) : Prop :=
  ∃ m f, c = .message m f ∧ m.sender = A.client ∧ Service f

/-- What both contracts promise together. -/
def spec (keccak : Bytes → Bytes32) (A : Addresses) (L : Client S E P K F) :
    Spec (Contract.Call ⊕ Call F) (Option ℤ) (World S E P) (Contract.Kont ⊕ K) where
  inv := Q.inv
  rel := Q.rel
  pre
    | .inl c, w => FromClient A c ∨
        sender? (.inl c : Contract.Call ⊕ Call F) ≠ some A.client ∧ Q.inv w
    | .inr (.message m f), w => f ≠ L.fallback → Q.pre m f w
    | .inr (.forced _), _ => True
  post
    | .inl _, e, none, w => w = e
    | .inr (.message _ f), e, none, w => f ≠ L.fallback ∧ w = e
    | .inr (.forced _), _, none, _ => False
    | .inl c, e, some r, w =>
        (FromClient A c → ∃ v w', Served keccak c e.1 r v w' ∧ w = (w',e.2.credit v)) ∧
          (sender? (.inl c : Contract.Call ⊕ Call F) ≠ some A.client → Q.inv w ∧ Q.rel e w)
    | .inr (.message m f), e, some _, w =>
        (f = L.fallback → w = (e.1,e.2.credit m.value)) ∧
          (f ≠ L.fallback → Q.inv w ∧ Q.rel e w)
    | .inr (.forced value), e, some _, w => w = (e.1,e.2.credit value)
  held
    | .inl c, e, .inl k, s, h =>
        (FromClient A c ∧ Contract.start keccak c e.1 = .call s.1 h.1 k ∧ s.2 = e.2 ∧ h.2 = e.2) ∨
          sender? (.inl c : Contract.Call ⊕ Call F) ≠ some A.client ∧ Q.Open A e k s h
    | .inr (.message m f), e, .inr k, s, h => f ≠ L.fallback ∧ Q.held m f e k s h
    | _, _, _, _, _ => False

section Sound
variable {Q} {keccak : Bytes → Bytes32} {A : Addresses} {L : Client S E P K F}
variable {ok : Contract.Call ⊕ Call F → World S E P → Prop}

theorem FromClient.sender {c : Contract.Call} (h : FromClient A c) :
    sender? (.inl c : Contract.Call ⊕ Call F) = some A.client := by
  obtain ⟨m,f,rfl,hsender,-⟩ := h
  exact congrArg some hsender

/-- TownCrier returns from a call of others. -/
theorem post_others {c : Contract.Call} {e w : World S E P} {r : Option ℤ}
    (hc : sender? (.inl c : Contract.Call ⊕ Call F) ≠ some A.client)
    (h : Q.inv w ∧ Q.rel e w) : (Q.spec keccak A L).post (.inl c) e (some r) w :=
  ⟨fun hfrom => absurd hfrom.sender hc,fun _ => h⟩

theorem resume_piece (hQ : Q.Sound keccak A L ok) {c : Contract.Call} {k : Contract.Kont}
    {a : Option (Option ℤ)} {e w : World S E P}
    (hc : sender? (.inl c : Contract.Call ⊕ Call F) ≠ some A.client)
    (h : Q.inv w ∧ Q.rel e w) (hready : ∀ m d fee, k = .deliverRefund m d fee → Q.ready d w) :
    (Q.spec keccak A L).Piece (.inl c) e ((system keccak A L).resume (.inl k) a w) := by
  change (Q.spec keccak A L).Piece _ _ (ofTownCrier w.2 (Contract.resume k (a.map fun _ => ()) w.1))
  obtain ⟨w,b⟩ := w
  rcases Contract.resume_cases k (a.map fun _ => ()) w with
    heq | ⟨r,w',heq,hsame,hsent,hversion⟩ | ⟨m,d,fee,x,rfl,hsame,hsent,hversion,heq⟩
  · rw [heq]
    rfl
  · rw [heq]
    have hnext := hQ.same w w' b hsame (by rw [hsent]) (fun hv => hv.of_eq hversion) h.1
    exact post_others hc ⟨hnext.1,hQ.trans h.2 hnext.2⟩
  · rw [heq]
    have hnext : ∀ x', Contract.Same x x' → x.sent <+: x'.sent →
        x'.storage.newVersion = x.storage.newVersion →
          (Q.inv (x',b) ∧ Q.rel e (x',b)) ∧ Q.ready d (x',b) := by
      intro x' hx hprefix hv
      rw [hsent] at hprefix
      have hsame' := hsame.trans hx
      have hinv := hQ.same w x' b hsame' hprefix (fun h => h.of_eq (hv.trans hversion)) h.1
      exact ⟨⟨hinv.1,hQ.trans h.2 hinv.2⟩,hQ.ready_same d w b x' hsame' hprefix
        (hready m d fee rfl)⟩
    refine ⟨.inr ⟨hc,?_⟩,rfl⟩
    have hpaid := hnext (x.pay (w.storage.requests d.requestId).callbackAddr 0
      (.callback (w.storage.requests d.requestId).callbackFID d)) ⟨rfl,rfl,rfl⟩
      (List.prefix_append _ _) rfl
    refine ⟨(hnext (x.keep _ _ _) ⟨rfl,rfl,rfl⟩ (List.prefix_append _ _) rfl).1,hpaid.1,?_,nofun⟩
    intro t fid d' ht hp
    obtain rfl := Account.eq_of_last_pay ht
    cases hp
    exact ⟨rfl,hpaid.2⟩

theorem start_others (hQ : Q.Sound keccak A L ok) {c : Contract.Call} {w : World S E P}
    (hc : sender? (.inl c : Contract.Call ⊕ Call F) ≠ some A.client) (hinv : Q.inv w)
    (hok : ok (.inl c) w) :
    (Q.spec keccak A L).Piece (.inl c) w ((system keccak A L).start (.inl c) w) := by
  change (Q.spec keccak A L).Piece _ _ (ofTownCrier w.2 (Contract.start keccak c w.1))
  obtain ⟨w,b⟩ := w
  have hadvance : (Contract.start keccak c w).All (Contract.Advance keccak w c) fun _ => True :=
    Contract.advance_start c
  have hhands := Contract.hands_start keccak c w
  generalize Contract.start keccak c w = o at hadvance hhands
  cases o with
  | done r w' => exact post_others hc (hQ.advance c w b w' hc hok hadvance hinv)
  | revert => rfl
  | call s h k =>
      obtain ⟨hs,hh,-⟩ := hadvance
      have hsaved := hQ.advance c w b s hc hok hs hinv
      have hhandover := hQ.advance c w b h hc hok hh hinv
      obtain ⟨x,r,v,p,rfl,rfl,hsent,hclosed,hhanding⟩ := hhands
      refine ⟨.inr ⟨hc,hsaved,hhandover,fun t fid d ht hp => ?_,fun t m d fee ht hk => ?_⟩,rfl⟩
      · cases Account.eq_of_last_pay ht
        cases hp
        cases hhanding with
        | deliverCallback ha herror => exact ⟨rfl,hQ.answered _ _ _ _ _ ha herror hinv hok hh hclosed⟩
      · cases Account.eq_of_last_pay ht
        subst hk
        cases hhanding with
        | deliverRefund ha herror hfunds =>
            refine ⟨fun hr => ⟨ha.delivered,nofun,?_⟩,fun hr => ⟨?_,fun w' hw' hrel => ?_⟩⟩
            · refine hQ.refunded _ _ _ _ _ x.sent ha herror hr hinv hok hh hclosed hsent ?_
              rw [← hr]
              rfl
            · exact hQ.foreign _ (w,b) _ ha.requestId ha.requester hr hinv hsaved.1 hsaved.2
            · exact hQ.foreign _ (w,b) _ ha.requestId ha.requester hr hinv hw'
                (hQ.trans hhandover.2 hrel)

/-- The client's call of TownCrier hands ether back to it, or nothing. -/
theorem client_handing {c : Contract.Call} {w s h : Contract.World} {k : Contract.Kont}
    (hc : FromClient A c) (hstart : Contract.start keccak c w = .call s h k) :
    (∃ t, h.sent.getLast? = some t ∧ t.recipient = A.client ∧
      ∀ fid d, t.purpose ≠ .callback fid d) ∧
    (∀ w, Contract.resume k none w = .revert) ∧ ∀ m d fee, k ≠ .deliverRefund m d fee := by
  obtain ⟨m,f,rfl,hsender,hf⟩ := hc
  have hhands := Contract.hands_start keccak (.message m f) w
  rw [hstart] at hhands
  obtain ⟨x,r,v,p,-,rfl,-,-,hhanding⟩ := hhands
  have hlast : (x.pay r v p).sent.getLast? = some ⟨r,v,p,true⟩ := by
    rw [Account.getLast?_sent_pay]
  cases hhanding with
  | requestKilled => exact ⟨⟨_,hlast,hsender,nofun⟩,fun _ => rfl,nofun⟩
  | requestUnderpaid => exact ⟨⟨_,hlast,hsender,nofun⟩,fun _ => rfl,nofun⟩
  | cancelRefund => exact ⟨⟨_,hlast,hsender,nofun⟩,fun _ => rfl,nofun⟩
  | withdraw => cases hf
  | deliverRefund => cases hf
  | deliverCallback => cases hf

/-- TownCrier returns from a call of the client. -/
theorem post_client {c : Contract.Call} {e : World S E P} {r : Option ℤ} {v : UInt256}
    {w : Contract.World} (hc : FromClient A c) (h : Served keccak c e.1 r v w) :
    (Q.spec keccak A L).post (.inl c) e (some r) (w,e.2.credit v) :=
  ⟨fun _ => ⟨v,w,h,rfl⟩,fun hother => absurd hc.sender hother⟩

theorem start_client {c : Contract.Call} {w : World S E P} (hc : FromClient A c) :
    (Q.spec keccak A L).Piece (.inl c) w ((system keccak A L).start (.inl c) w) := by
  change (Q.spec keccak A L).Piece _ _ (ofTownCrier w.2 (Contract.start keccak c w.1))
  cases hstart : Contract.start keccak c w.1 with
  | done r w' => exact post_client hc (.atOnce hstart)
  | revert => rfl
  | call s h k => exact ⟨.inl ⟨hc,hstart,rfl,rfl⟩,rfl⟩

/-- The client's piece of code as one of both contracts. -/
theorem client_piece {m : Msg} {f : F} {e : World S E P} {w : Contract.World}
    {o : Outcome Unit (Account S E P) K} (hf : f ≠ L.fallback) (h : Q.Piece m f e w o) :
    (Q.spec keccak A L).Piece (.inr (.message m f)) e (ofClient w o) := by
  cases o with
  | done r a => exact ⟨fun h => absurd h hf,fun _ => h⟩
  | revert => exact ⟨hf,rfl⟩
  | call s h' k => exact ⟨⟨hf,h⟩,hf,rfl⟩

theorem start_piece (hQ : Q.Sound keccak A L ok) (c : Contract.Call ⊕ Call F) (w : World S E P)
    (hpre : (Q.spec keccak A L).pre c w) (hok : ok c w) :
    (Q.spec keccak A L).Piece c w ((system keccak A L).start c w) := by
  rcases c with c | ⟨m,f⟩ | value
  · rcases hpre with hc | ⟨hc,hinv⟩
    · exact start_client hc
    · exact start_others hQ hc hinv hok
  · by_cases hf : f = L.fallback
    · change (Q.spec keccak A L).Piece _ _ (ofClient w.1 (L.start m f w.2))
      rw [hf,hQ.fallback]
      exact ⟨fun _ => rfl,fun h => absurd rfl h⟩
    · exact client_piece hf (hQ.start m f w hf (hpre hf) hok)
  · rfl

theorem open_inner (hQ : Q.Sound keccak A L ok) {c : Contract.Call} {e s h : World S E P}
    {k : Contract.Kont} (hc : sender? (.inl c : Contract.Call ⊕ Call F) ≠ some A.client)
    (hopen : Q.Open A e k s h) {c' : Contract.Call ⊕ Call F} (hcallee : callee A L (.inl k) h c') :
    (Q.spec keccak A L).pre c' h ∧ ∀ a w, (Q.spec keccak A L).post c' h a w →
      (Q.spec keccak A L).Piece (.inl c) e
        ((system keccak A L).resume (.inl k) a (if a.isSome then w else s)) := by
  rcases c' with (⟨m,f⟩ | value) | (⟨m,f⟩ | value)
  · obtain ⟨t,ht,harrives,-⟩ := hcallee
    have hm : sender? (.inl (.message m f) : Contract.Call ⊕ Call F) ≠ some A.client :=
      fun h => A.distinct (harrives.sender.symm.trans (Option.some.inj h))
    have hr : t.recipient ≠ A.client := fun h => A.distinct (harrives.recipient.symm.trans h)
    refine ⟨.inr ⟨hm,hopen.handover.1⟩,?_⟩
    rintro (_ | r) w hpost
    · exact resume_piece hQ hc hopen.saved fun m d fee hk => ((hopen.refund t m d fee ht hk).2 hr).1
    · obtain ⟨hinv,hrel⟩ := hpost.2 hm
      exact resume_piece hQ hc ⟨hinv,hQ.trans hopen.handover.2 hrel⟩ fun m d fee hk =>
        ((hopen.refund t m d fee ht hk).2 hr).2 w hinv hrel
  · cases hcallee
  · obtain ⟨t,ht,harrives,hreceives⟩ := hcallee
    have hcallback : f ≠ L.fallback → ∃ fid d, t.purpose = .callback fid d ∧ L.dispatch fid d f := by
      intro hf
      cases hp : t.purpose with
      | callback fid d =>
          rw [hp] at hreceives
          exact ⟨fid,d,rfl,hreceives⟩
      | _ =>
          rw [hp] at hreceives
          exact absurd hreceives hf
    have hrefund : ∀ m d fee, k = .deliverRefund m d fee → f = L.fallback ∧
        Q.ready d (h.1,h.2.credit t.value) := by
      intro m d fee hk
      obtain ⟨-,hp,hready⟩ := (hopen.refund t m d fee ht hk).1 harrives.recipient
      refine ⟨?_,hready⟩
      by_contra hf
      obtain ⟨fid,d',hp',-⟩ := hcallback hf
      exact hp fid d' hp'
    refine ⟨fun hf => ?_,?_⟩
    · obtain ⟨fid,d,hp,hdispatch⟩ := hcallback hf
      obtain ⟨hvalue,hready⟩ := hopen.callback t fid d ht hp
      exact hQ.callback m fid d f h hf hdispatch harrives.sender (harrives.value.trans hvalue)
        hopen.handover.1 hready
    · rintro (_ | r) w hpost
      · exact resume_piece hQ hc hopen.saved fun m d fee hk => absurd (hrefund m d fee hk).1 hpost.1
      · by_cases hf : f = L.fallback
        · obtain rfl := hpost.1 hf
          obtain ⟨hinv,hrel⟩ := hQ.credit h.1 h.2 m.value hopen.handover.1
          refine resume_piece hQ hc ⟨hinv,hQ.trans hopen.handover.2 hrel⟩ fun m' d fee hk => ?_
          rw [harrives.value]
          exact (hrefund m' d fee hk).2
        · obtain ⟨hinv,hrel⟩ := hpost.2 hf
          exact resume_piece hQ hc ⟨hinv,hQ.trans hopen.handover.2 hrel⟩ fun m' d fee hk =>
            absurd (hrefund m' d fee hk).1 hf
  · cases hcallee

theorem client_inner {c : Contract.Call} {e s h : World S E P} {k : Contract.Kont}
    (hc : FromClient A c) (hstart : Contract.start keccak c e.1 = .call s.1 h.1 k)
    (hsame : h.2 = e.2) {c' : Contract.Call ⊕ Call F} (hcallee : callee A L (.inl k) h c') :
    (Q.spec keccak A L).pre c' h ∧ ∀ a w, (Q.spec keccak A L).post c' h a w →
      (Q.spec keccak A L).Piece (.inl c) e
        ((system keccak A L).resume (.inl k) a (if a.isSome then w else s)) := by
  obtain ⟨⟨t,ht,hr,hp⟩,hnone,hk⟩ := client_handing hc hstart
  rcases c' with (⟨m,f⟩ | value) | (⟨m,f⟩ | value)
  · obtain ⟨t',ht',harrives,-⟩ := hcallee
    cases ht.symm.trans ht'
    exact absurd (harrives.recipient.symm.trans hr) A.distinct
  · cases hcallee
  · obtain ⟨t',ht',harrives,hreceives⟩ := hcallee
    cases ht.symm.trans ht'
    have hf := hreceives.fallback hp
    refine ⟨fun h => absurd hf h,?_⟩
    rintro (_ | r) w hpost
    · exact absurd hf hpost.1
    · obtain rfl := hpost.1 hf
      change (Q.spec keccak A L).Piece _ _ (ofTownCrier _ (Contract.resume k (some ()) h.1))
      rcases Contract.resume_cases k (some ()) h.1 with
        heq | ⟨r',w',heq,-⟩ | ⟨m',d,fee,x,hk',-⟩
      · rw [heq]
        rfl
      · rw [heq]
        change (Q.spec keccak A L).post _ _ _ (w',h.2.credit m.value)
        rw [hsame,harrives.value]
        exact post_client hc (.paid hstart ht heq)
      · exact absurd hk' (hk m' d fee)
  · cases hcallee

/-- The call that TownCrier makes cannot be paid for. -/
theorem starved_piece (hQ : Q.Sound keccak A L ok) {c : Contract.Call} {e s h : World S E P}
    {k : Contract.Kont} (hc : sender? (.inl c : Contract.Call ⊕ Call F) ≠ some A.client)
    (hopen : Q.Open A e k s h) {c' : Contract.Call ⊕ Call F} (hcallee : callee A L (.inl k) h c')
    (hcost : (system keccak A L).costly c') :
    (Q.spec keccak A L).Piece (.inl c) e ((system keccak A L).resume (.inl k) none s) := by
  refine resume_piece hQ hc hopen.saved fun m d fee hk => ?_
  rcases c' with (⟨m',f⟩ | value) | (⟨m',f⟩ | value)
  · obtain ⟨t,ht,harrives,-⟩ := hcallee
    exact ((hopen.refund t m d fee ht hk).2
      fun h => A.distinct (harrives.recipient.symm.trans h)).1
  · cases hcallee
  · obtain ⟨t,ht,harrives,hreceives⟩ := hcallee
    obtain ⟨hvalue,hp,-⟩ := (hopen.refund t m d fee ht hk).1 harrives.recipient
    have hf := hreceives.fallback hp
    exact absurd (harrives.value.symm.trans (hcost hf)) hvalue
  · cases hcallee

/-- Who has called out, and what holds then. -/
theorem held_cases {c : Contract.Call ⊕ Call F} {e s h : World S E P} {k : Contract.Kont ⊕ K}
    (hheld : (Q.spec keccak A L).held c e k s h) :
    (∃ c' k', c = .inl c' ∧ k = .inl k' ∧ FromClient A c' ∧
      Contract.start keccak c' e.1 = .call s.1 h.1 k' ∧ h.2 = e.2) ∨
    (∃ c' k', c = .inl c' ∧ k = .inl k' ∧
      sender? (.inl c' : Contract.Call ⊕ Call F) ≠ some A.client ∧ Q.Open A e k' s h) ∨
    ∃ m f k', c = .inr (.message m f) ∧ k = .inr k' ∧ f ≠ L.fallback ∧ Q.held m f e k' s h := by
  rcases c with c | ⟨m,f⟩ | value
  · rcases k with k | k
    · rcases hheld with ⟨hc,hstart,-,hsame⟩ | hopen
      · exact .inl ⟨c,k,rfl,rfl,hc,hstart,hsame⟩
      · exact .inr (.inl ⟨c,k,rfl,rfl,hopen⟩)
    · cases hheld
  · rcases k with k | k
    · cases hheld
    · exact .inr (.inr ⟨m,f,k,rfl,rfl,hheld⟩)
  · cases hheld

theorem inner_piece (hQ : Q.Sound keccak A L ok) (c : Contract.Call ⊕ Call F) (e : World S E P)
    (k : Contract.Kont ⊕ K) (s h : World S E P) (c' : Contract.Call ⊕ Call F)
    (hheld : (Q.spec keccak A L).held c e k s h) (hcallee : callee A L k h c') (hok : ok c' h) :
    (Q.spec keccak A L).pre c' h ∧ ∀ a w, (Q.spec keccak A L).post c' h a w →
      (Q.spec keccak A L).Piece c e
        ((system keccak A L).resume k a (if a.isSome then w else s)) := by
  rcases held_cases hheld with ⟨c,k,rfl,rfl,hc,hstart,hsame⟩ | ⟨c,k,rfl,rfl,hc,hopen⟩ |
    ⟨m,f,k,rfl,rfl,hf,hheld⟩
  · exact client_inner hc hstart hsame hcallee
  · exact open_inner hQ hc hopen hcallee
  · rcases c' with (⟨m',g⟩ | value) | (⟨m',g⟩ | value)
    · obtain ⟨t,ht,harrives,rfl⟩ := hcallee
      obtain ⟨hservice,hserved⟩ := hQ.asked m f e k s h t m' hheld ht harrives
      have hfrom : FromClient A (.message m' (L.asks h.2 t.purpose)) :=
        ⟨_,_,rfl,harrives.sender,hservice⟩
      refine ⟨.inl hfrom,?_⟩
      rintro (_ | r) w hpost
      · exact client_piece hf (hQ.failed m f e k s h hheld)
      · obtain ⟨v,w',hw',rfl⟩ := hpost.1 hfrom
        exact client_piece hf (hserved r v w' hok hw')
    · cases hcallee
    · obtain ⟨t,ht,harrives,rfl⟩ := hcallee
      refine ⟨fun h => absurd rfl h,?_⟩
      obtain ⟨hinv,hrest⟩ := hQ.other m f e k s h t hheld ht
        fun h => A.distinct (h.symm.trans harrives.recipient)
      rintro (_ | r) w hpost
      · exact absurd rfl hpost.1
      · obtain rfl := hpost.1 rfl
        obtain ⟨hinv',hrel⟩ := hQ.credit h.1 h.2 m'.value hinv
        exact client_piece hf (hrest _ _ hinv' hrel)
    · cases hcallee

theorem outer_piece (hQ : Q.Sound keccak A L ok) (c : Contract.Call ⊕ Call F) (e : World S E P)
    (k : Contract.Kont ⊕ K) (s h : World S E P) (hheld : (Q.spec keccak A L).held c e k s h)
    (hout : outside A k h) :
    Q.inv h ∧ ∀ a w, Q.inv w → Q.rel h w →
      (Q.spec keccak A L).Piece c e
        ((system keccak A L).resume k a (if a.isSome then w else s)) := by
  rcases held_cases hheld with ⟨c,k,rfl,rfl,hc,hstart,-⟩ | ⟨c,k,rfl,rfl,hc,hopen⟩ |
    ⟨m,f,k,rfl,rfl,hf,hheld⟩
  · obtain ⟨t,ht,-,hr⟩ := hout
    obtain ⟨⟨t',ht',hr',-⟩,-⟩ := client_handing hc hstart
    cases ht.symm.trans ht'
    exact absurd hr' hr
  · obtain ⟨t,ht,-,hr⟩ := hout
    refine ⟨hopen.handover.1,?_⟩
    rintro (_ | r) w hinv hrel
    · exact resume_piece hQ hc hopen.saved fun m d fee hk =>
        ((hopen.refund t m d fee ht hk).2 hr).1
    · exact resume_piece hQ hc ⟨hinv,hQ.trans hopen.handover.2 hrel⟩ fun m d fee hk =>
        ((hopen.refund t m d fee ht hk).2 hr).2 w hinv hrel
  · obtain ⟨t,ht,hr,-⟩ := hout
    obtain ⟨hinv,hrest⟩ := hQ.other m f e k s h t hheld ht hr
    refine ⟨hinv,?_⟩
    rintro (_ | r) w hinv' hrel
    · exact client_piece hf (hQ.failed m f e k s h hheld)
    · exact client_piece hf (hrest _ _ hinv' hrel)

theorem exit_post (hQ : Q.Sound keccak A L ok) {c : Contract.Call ⊕ Call F} {w w' : World S E P}
    {a : Option (Option ℤ)} (hc : Foreign A c) (hinv : Q.inv w)
    (hpost : (Q.spec keccak A L).post c w a w') : Q.inv w' ∧ Q.rel w w' := by
  rcases c with c | ⟨m,f⟩ | value <;> rcases a with _ | r
  · obtain rfl := hpost
    exact ⟨hinv,hQ.refl _⟩
  · exact hpost.2 fun h => (hc _ h).2 rfl
  · obtain ⟨-,rfl⟩ := hpost
    exact ⟨hinv,hQ.refl _⟩
  · by_cases hf : f = L.fallback
    · obtain rfl := hpost.1 hf
      exact hQ.credit w.1 w.2 m.value hinv
    · exact hpost.2 hf
  · cases hpost
  · obtain rfl := hpost
    exact hQ.credit w.1 w.2 value hinv

/-- What is shown about the client holds in all runs of both contracts. -/
theorem sound (hQ : Q.Sound keccak A L ok) :
    (Q.spec keccak A L).Sound (system keccak A L) ok where
  refl := hQ.refl
  trans := hQ.trans
  entry := by
    intro c w hc hinv hok
    have hforeign : Foreign A c := hc.elim And.left id
    rcases c with c | ⟨m,f⟩ | value
    · exact .inr ⟨fun h => (hforeign _ h).2 rfl,hinv⟩
    · exact fun hf => hQ.entry m f w hf hforeign hinv hok
    · trivial
  exit := fun _ _ _ _ hc => exit_post hQ (hc.elim And.left id)
  start := start_piece hQ
  starved := by
    intro c e k s h c' hheld hcallee hcost
    rcases held_cases hheld with ⟨c,k,rfl,rfl,hc,hstart,-⟩ | ⟨c,k,rfl,rfl,hc,hopen⟩ |
      ⟨m,f,k,rfl,rfl,hf,hheld⟩
    · change (Q.spec keccak A L).Piece _ _ (ofTownCrier _ (Contract.resume k none s.1))
      rw [(client_handing hc hstart).2.1]
      rfl
    · exact starved_piece hQ hc hopen hcallee hcost
    · exact client_piece hf (hQ.failed m f e k s h hheld)
  inner := inner_piece hQ
  outer := outer_piece hQ

/-- A whole call changes the client as promised, or it only brings ether. -/
theorem called (hQ : Q.Sound keccak A L ok) {w₀ w w' : World S E P}
    {c : Contract.Call ⊕ Call F} {a : Option (Option ℤ)} (h₀ : Q.inv w₀)
    (h : (system keccak A L).Seen ok w₀ (.call c w))
    (hcall : (system keccak A L).Exec ok (.code w ((system keccak A L).start c w)) a w') :
    Q.rel w w' ∨ ∃ v, w'.2 = w.2.credit v := by
  obtain ⟨hpre,hpost⟩ := (sound hQ).called h₀ h hcall
  rcases c with c | ⟨m,f⟩ | value <;> rcases a with _ | r
  · obtain rfl := hpost
    exact .inl (hQ.refl _)
  · rcases hpre with hc | ⟨hc,-⟩
    · obtain ⟨v,t,-,rfl⟩ := hpost.1 hc
      exact .inr ⟨v,rfl⟩
    · exact .inl (hpost.2 hc).2
  · obtain ⟨-,rfl⟩ := hpost
    exact .inl (hQ.refl _)
  · by_cases hf : f = L.fallback
    · obtain rfl := hpost.1 hf
      exact .inr ⟨m.value,rfl⟩
    · exact .inl (hpost.2 hf).2
  · cases hpost
  · obtain rfl := hpost
    exact .inr ⟨value,rfl⟩

end Sound

end Promise

section Sample

/-- The two contracts of the examples. -/
def places : Addresses where
  townCrier := 2
  client := 9
  distinct := by decide
  townCrier_code := by decide
  client_code := by decide

def constantHash (_ : Bytes) : Bytes32 := 3

variable {S E P K F : Type}

def pair (client : (Bytes → Bytes32) → Address → Client S E P K F) :
    System (Contract.Call ⊕ Call F) (Option ℤ) (World S E P) (Contract.Kont ⊕ K) :=
  system constantHash places (client constantHash places.client)

end Sample

end TownCrier.Linked
