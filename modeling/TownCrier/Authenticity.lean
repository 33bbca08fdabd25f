import TownCrier.Ecalls
import TownCrier.Guarantees
import TownCrier.WindDown

/-!
# Who settles a request

The contract and the enclave side by side. A host drives the enclave as it wants,
everybody calls the contract, and nobody else has the key of the wallet: a message
of `SGX_ADDRESS` comes out of a transaction that the enclave has signed. What then
closes a request is what the enclave has computed for its number, under its hash,
or the error which the self test of the enclave signs.
-/
namespace TownCrier.Authenticity
open BigEndian CallMachine Contract Cpp Delivery Ecalls Ecdsa Encoding EthTransaction EventHandler
open Evm FormTransaction HybridCipher Https Keccak Wallet

/-- The delivery that an external call belongs to. -/
def delivery? : Purpose → Option Contract.Delivery
  | .killedRefund | .underpaidRefund | .withdrawal | .cancelRefund _ => none
  | .cancellationFee d | .deliveryFee d | .errorRefund d | .callback _ d => some d

def pending? : Kont → Option Contract.Delivery
  | .deliverRefund _ d _ => some d
  | _ => none

/-- All deliveries that have led to an external call. -/
def Sent (Q : Contract.Delivery → Prop) (w : Contract.World) : Prop :=
  ∀ t ∈ w.sent, ∀ d, delivery? t.purpose = some d → Q d

def Pending (Q : Contract.Delivery → Prop) (k : Kont) : Prop := ∀ d, pending? k = some d → Q d

structure Town where
  chain : Config Contract.World Kont
  enclave : Session

section
variable {K G : Type} [Field K] [AddCommGroup G] [Module K G] [DecidableEq G]
  (P : Platform K G) (gcm : Gcm) (dispatch : Bytes → Option Function)

/-- The contract reads this message from a transaction with a signature of the
enclave; the network takes none with less gas than a transfer needs. -/
def FromEnclave (log : List (Ecall × Output)) (m : Msg) (f : Function) : Prop :=
  ∃ before call out after text, ∃ nonce gasPrice gas receiver amount data : Bytes,
    log = before++(call,out)::after ∧ out.signature ≠ none ∧ Signs P gcm before call text ∧
    Rlp.parse text = some (.list ([nonce,gasPrice,gas,receiver,amount,data].map .str)) ∧
    21000 ≤ value gas ∧ m.value = BitVec.ofNat 256 (value amount) ∧
    m.gasPrice = BitVec.ofNat 256 (value gasPrice) ∧ dispatch data = some f

/-- Any order of calls of the enclave and of steps on the chain. -/
inductive Reachable (owner : Address) (balance : ℕ) : Town → Prop
  | start : Reachable owner balance ⟨⟨constructor owner balance,[]⟩,⟨fresh,[]⟩⟩
  | host {s : Town} {enclave : Session} (call : Ecall) (h : Reachable owner balance s)
      (hs : Ecalls.Step P gcm s.enclave call enclave) : Reachable owner balance ⟨s.chain,enclave⟩
  | chain {s : Town} {chain : Config Contract.World Kont} (a : Action Call Unit)
      (h : Reachable owner balance s) (hs : (code keccak256).step s.chain a = some chain)
      (ha : Admissible s.chain a chain)
      (hwallet : ∀ m f, a = .call (.message m f) → m.sender = SGX_ADDRESS →
        FromEnclave P gcm dispatch s.enclave.log m f) : Reachable owner balance ⟨chain,s.enclave⟩

/-- The enclave has computed this answer for a request with this number, and signed it
with this hash. -/
def Computed (log : List (Ecall × Output)) (d : Contract.Delivery) : Prop :=
  ∃ before out after web seeded mem nonce type request hashed hlen respData resp,
    log = before++
      (.handleRequest web seeded mem nonce d.requestId type request hashed hlen,out)::after ∧
    keccak256 (type.toUInt8::hashed) = d.paramsHash ∧
    answer ⟨web,{hybridKey P.curve gcm (keysAfter P before) with seeded := seeded}⟩ mem type request =
      .ok (d.error,respData) ∧
    respB32 mem.heap d.error respData = .ok resp ∧ d.respData = BitVec.ofNat 256 (value resp)

/-- The host has run the self test, which signs this delivery. -/
structure Tested (log : List (Ecall × Output)) (d : Contract.Delivery) : Prop where
  called : ∃ out, (.transactionRlpTest,out) ∈ log
  requestId : d.requestId = 1
  paramsHash : d.paramsHash = keccak256 (2::testRequest)
  error : d.error = 0xee
  respData : d.respData = 0

def Sourced (log : List (Ecall × Output)) (d : Contract.Delivery) : Prop :=
  Computed P gcm log d ∨ Tested log d

/-- What the enclave was told, next to the request on the chain that it is taken for:
the type, and the texts that the handler and the hash have read. -/
inductive Handled (i : RequestInfo) (d : Contract.Delivery) : UInt64 → Bytes → Bytes → Prop
  | request : Handled i d i.requestType.toUInt64 (i.requestData.map wordBytes).flatten
      (i.requestData.map wordBytes).flatten
  /-- The hash covers the low byte of the type only. -/
  | oversized {type request} (h : 256 ≤ type.toNat) (herror : d.error = TC_ERR_FLAG_INVALID_INPUT)
      (hresp : d.respData = 0) : Handled i d type request request
  /-- The host has written to its buffer after the handler has read it. -/
  | swapped {type request hashed} (hne : request ≠ hashed) : Handled i d type request hashed
  | collision {type request}
      (hne : type.toUInt8::request ≠ encodePacked i.requestType i.requestData)
      (hhash : keccak256 (type.toUInt8::request) =
        keccak256 (encodePacked i.requestType i.requestData)) : Handled i d type request request

end

section Chain
variable {Q : Contract.Delivery → Prop} {w x : Contract.World} {keccak : Bytes → Bytes32}

theorem Sent.add (hw : Sent Q w) {t : Transfer Purpose} (hx : x.sent = w.sent++[t])
    (hp : ∀ d, delivery? t.purpose = some d → Q d) : Sent Q x := by
  intro t' ht d hd
  rw [hx] at ht
  rcases List.mem_append.mp ht with ht | ht
  · exact hw t' ht d hd
  · rw [List.mem_singleton.mp ht] at hd
    exact hp d hd

/-- An external call tells a delivery that is known, before and after it. -/
theorem Sent.callOut (hw : Sent Q w) {recipient : Address} {v : UInt256} {p : Purpose} {k : Kont}
    {onFailure : Contract.World → Result} (hp : ∀ d, delivery? p = some d → Q d)
    (hk : Pending Q k) (hfailure : Sent Q (w.keep recipient v p) →
      (onFailure (w.keep recipient v p)).All (Sent Q) (Pending Q)) :
    (w.callOut recipient v p k onFailure).All (Sent Q) (Pending Q) :=
  Account.all_callOut _ (hw.add rfl hp) (hw.add rfl hp) hk (hfailure (hw.add rfl hp))

theorem sent_callback {m : Msg} {d : Contract.Delivery} {fee : UInt256} (hd : Q d) (hw : Sent Q w) :
    (Contract.callback m d fee w).All (Sent Q) (Pending Q) := by
  have hp : ∀ d', some d = some d' → Q d' := by
    rintro _ ⟨⟩
    exact hd
  unfold Contract.callback
  split_ifs
  · trivial
  · exact Sent.callOut (w := setFlag (w.emit _) true) hw hp nofun fun hw' => hw'

theorem sent_deliver {m : Msg} {requestId : UInt64} {paramsHash : Bytes32} {error : UInt64}
    {respData : Bytes32} (hw : Sent Q w)
    (hd : m.sender = SGX_ADDRESS → Q ⟨m.sender,requestId,paramsHash,error,respData⟩) :
    (Contract.deliver m requestId paramsHash error respData w).All (Sent Q) (Pending Q) := by
  unfold Contract.deliver Account.transfer
  dsimp only
  split_ifs with hguard
  · exact hw
  · exact hw
  all_goals rw [not_or,not_not] at hguard
  all_goals
    have hp : ∀ d', some (⟨m.sender,requestId,paramsHash,error,respData⟩ : Contract.Delivery) =
        some d' → Q d' := by
      rintro _ ⟨⟩
      exact hd hguard.1
  · exact hw.add rfl hp
  · trivial
  · exact sent_callback (hp _ rfl) (hw.add rfl hp)
  · trivial
  · exact Sent.callOut (w := setFlag (markDelivered w requestId) true) hw hp hp fun hw' =>
      sent_callback (hp _ rfl) hw'

theorem sent_start {c : Call} (hw : Sent Q w)
    (hc : ∀ m requestId paramsHash error respData,
      c = .message m (.deliver requestId paramsHash error respData) → m.sender = SGX_ADDRESS →
        Q ⟨m.sender,requestId,paramsHash,error,respData⟩) :
    (Contract.start keccak c w).All (Sent Q) (Pending Q) := by
  have hset : ∀ {a : Contract.World}, a.sent = w.sent → Sent Q a := by
    intro a ha t ht
    exact hw t (ha ▸ ht)
  cases c with
  | forced value => exact hset rfl
  | message m f =>
      by_cases hf : isSetting f = true
      · obtain ⟨w',hw',heq⟩ := start_setting keccak w m hf
        rw [heq]
        exact all_nonPayable (hset hw'.sent)
      cases f with
      | fallback | upgrade | reset | suspend | restart => exact absurd rfl hf
      | withdraw =>
          refine all_nonPayable ?_
          unfold Contract.withdraw
          split_ifs
          · exact hw.callOut (p := .withdrawal) (k := .withdraw) nofun nofun fun _ => trivial
          · exact hw
      | request =>
          unfold Contract.start Contract.request
          dsimp only
          split_ifs
          · trivial
          · exact Sent.callOut (w := setFlag (w.credit m.value) true) (p := .killedRefund)
              (k := .requestKilled) hw nofun nofun fun _ => trivial
          · exact Sent.callOut (w := setFlag (w.credit m.value) true) (p := .underpaidRefund)
              (k := .requestUnderpaid) hw nofun nofun fun _ => trivial
          · exact hset rfl
      | deliver requestId paramsHash error respData =>
          exact all_nonPayable (sent_deliver hw (hc m requestId paramsHash error respData rfl))
      | cancel requestId =>
          refine all_nonPayable ?_
          unfold Contract.cancel
          dsimp only
          split_ifs
          · trivial
          · exact hw
          · exact Sent.callOut (w := setFlag (w.set (w.storage.setFee requestId CANCELLED_FEE_FLAG)) true)
              (p := .cancelRefund requestId) (k := .cancelRefund m requestId) hw nofun nofun
              fun _ => trivial
          · exact hset rfl

theorem sent_resume (k : Kont) (answer : Option Unit) (w : Contract.World) (hk : Pending Q k)
    (hw : Sent Q w) : (Contract.resume k answer w).All (Sent Q) (Pending Q) := by
  cases k with
  | deliverRefund m d fee => exact sent_callback (hk d rfl) hw
  | deliverCallback => exact hw
  | requestKilled | requestUnderpaid | withdraw | cancelRefund =>
      cases answer with
      | none => trivial
      | some _ => exact hw

/-- A transfer on account of a delivery is for an accepted request, with its hash. -/
theorem exists_authentic (hw : Inv keccak w) {t : Transfer Purpose} (ht : t ∈ w.sent)
    {d : Contract.Delivery} (hd : delivery? t.purpose = some d) :
    ∃ i ∈ infos w, Authentic i d ∧ i.paramsHash = keccak (encodePacked i.requestType i.requestData) := by
  have hid : t.purpose.requestId? = some d.requestId := by
    cases hp : t.purpose <;> rw [hp] at hd <;> cases hd <;> rfl
  have htrace : t ∈ trace w d.requestId := List.mem_filter.mpr ⟨ht,decide_eq_true hid⟩
  obtain ⟨i,hi,hi'⟩ : ∃ i ∈ infos w, i.id = d.requestId := by
    by_cases hunused : d.requestId = 0 ∨ w.storage.requestCnt ≤ d.requestId
    · rw [(hw.unused _ hunused).2] at htrace
      exact absurd htrace List.not_mem_nil
    · rw [not_or,UInt64.le_iff_toNat_le,← UInt64.toNat_inj,UInt64.toNat_zero] at hunused
      exact hw.exists_info (by omega) (by omega)
  have hentry := hw.entries i hi
  refine ⟨i,hi,?_,hentry.hash⟩
  have hprogress := hentry.progress
  rw [hi'] at hprogress
  generalize (w.storage.requests d.requestId).fee = fee at hprogress
  generalize trace w d.requestId = calls at hprogress htrace
  have hcalled : ∀ {callbackFID d' calls}, Called i callbackFID d' calls → t ∈ calls → d' = d := by
    rintro callbackFID d' calls (rfl | ⟨success,rfl⟩) ht
    · exact absurd ht List.not_mem_nil
    · rw [List.mem_singleton.mp ht] at hd
      exact Option.some.inj hd
  cases hprogress with
  | outstanding => exact absurd htrace List.not_mem_nil
  | cancelled =>
      rw [List.mem_singleton.mp htrace] at hd
      cases hd
  | settled hsettled =>
      cases hsettled with
      | cancelled charge d' _ hauth =>
          rcases List.mem_cons.mp htrace with rfl | htrace
          · cases hd
          · rw [List.mem_singleton.mp htrace] at hd
            cases hd
            exact hauth
      | answered d' calls hauth _ hcalls =>
          rcases List.mem_cons.mp htrace with rfl | htrace
          · cases hd
            exact hauth
          · exact hcalled hcalls htrace ▸ hauth
      | refunded d' success calls hauth _ hcalls =>
          rcases List.mem_cons.mp htrace with rfl | htrace
          · cases hd
            exact hauth
          · exact hcalled hcalls htrace ▸ hauth

end Chain

section Town
variable {K G : Type} [Field K] [AddCommGroup G] [Module K G] [DecidableEq G]
  {P : Platform K G} {gcm : Gcm} {dispatch : Bytes → Option Function} {owner : Address}
  {balance : ℕ} {s : Town}

theorem Sourced.append {log : List (Ecall × Output)} {d : Contract.Delivery}
    (h : Sourced P gcm log d) (entry : Ecall × Output) : Sourced P gcm (log++[entry]) d := by
  obtain ⟨before,out,after,web,seeded,mem,nonce,type,request,hashed,hlen,respData,resp,rfl,h⟩ | h := h
  · refine .inl ⟨before,out,after++[entry],web,seeded,mem,nonce,type,request,hashed,hlen,respData,
      resp,?_,h⟩
    rw [List.append_assoc]
    rfl
  · obtain ⟨out,hcalled⟩ := h.called
    exact .inr {h with called := ⟨out,List.mem_append_left _ hcalled⟩}

/-- What a signed transaction delivers was computed in the same call. -/
theorem FromEnclave.sourced {log : List (Ecall × Output)} {m : Msg} {requestId : UInt64}
    {paramsHash : Bytes32} {error : UInt64} {respData : Bytes32}
    (hdispatch : ∀ data f, decodeDeliver keccak256 data = some f → dispatch data = some f)
    (h : FromEnclave P gcm dispatch log m (.deliver requestId paramsHash error respData)) :
    Sourced P gcm log ⟨m.sender,requestId,paramsHash,error,respData⟩ := by
  obtain ⟨before,call,out,after,text,_,_,gas,_,_,data,hlog,-,hsigns,hparse,hgas,-,-,hdata⟩ := h
  obtain ⟨-,n,mTo,hcarries,-⟩ := Signs.parse hsigns (by omega) hparse
  obtain ⟨web,seeded,mem,id,type,request,hashed,hlen,errorFlag,respData',resp,rfl,-,hanswer,hresp,rfl⟩ |
    ⟨-,rfl,-,rfl⟩ := hcarries
  · have hdecode := decodeDeliver_callData keccak256 id type.toUInt8 hashed errorFlag
      (respB32_length hresp)
    cases (hdispatch _ _ hdecode).symm.trans hdata
    exact .inl ⟨before,out,after,web,seeded,mem,n,type,request,hashed,hlen,respData',resp,hlog,rfl,
      hanswer,hresp,rfl⟩
  · have hdecode := decodeDeliver_callData keccak256 1 2 testRequest 0xee
      (show (bytes32 0).length = 32 by decide)
    cases (hdispatch _ _ hdecode).symm.trans hdata
    have hresp : BitVec.ofNat 256 (value (bytes32 0)) = 0 := by decide
    exact .inr ⟨⟨out,hlog ▸ List.mem_append_right _ List.mem_cons_self⟩,rfl,rfl,rfl,hresp⟩

/-- Every signed delivery can be sent as a transaction. -/
theorem fromEnclave_of_carries {log before after : List (Ecall × Output)} {call : Ecall}
    {out : Output} (hlog : log = before++(call,out)::after) (hsig : out.signature ≠ none)
    {n : Int32} {mTo : Bytes20} {data : Bytes} (h : Carries P gcm before call n mTo data)
    {f : Function} (hf : dispatch data = some f) {m : Msg} (hvalue : m.value = 0)
    (hprice : m.gasPrice = BitVec.ofNat 256 GASPRICE.toNat) :
    FromEnclave P gcm dispatch log m f := by
  have hread := Rlp.parse_encode _ (deliverCall_fits n mTo h.length (0,0,0) false)
  refine ⟨before,call,out,after,_,_,_,_,_,_,_,hlog,hsig,.inr ⟨n,mTo,data,h,rfl⟩,hread,?_,?_,?_,hf⟩
  · rw [value_minimal]
    change 21000 ≤ GASLIMIT.toNat
    decide
  · exact hvalue
  · rw [value_minimal]
    exact hprice

/-- Both parts of a reachable state: the chain has made a run of the contract, and
what was sent on account of deliveries comes from the enclave. -/
theorem run_sourced
    (hdispatch : ∀ data f, decodeDeliver keccak256 data = some f → dispatch data = some f)
    (h : Reachable P gcm dispatch owner balance s) :
    Contract.Run keccak256 owner balance s.chain ∧
      Above (Sent (Sourced P gcm s.enclave.log)) (Pending (Sourced P gcm s.enclave.log)) [] s.chain := by
  induction h with
  | start => exact ⟨.start,fun t ht => absurd ht List.not_mem_nil,[],rfl,by simp⟩
  | host call _ hs ih =>
      obtain ⟨hrun,hsourced⟩ := ih
      obtain ⟨out,-,hlog⟩ := hs
      rw [hlog]
      exact ⟨hrun,hsourced.mono (fun w hw t ht d hd => (hw t ht d hd).append _)
        fun k hk d hd => (hk d hd).append _⟩
  | chain a _ hs ha hwallet ih =>
      obtain ⟨hrun,hsourced⟩ := ih
      refine ⟨.step a hrun hs ha,step_above hsourced hs (fun hne => absurd rfl hne) ?_ sent_resume⟩
      rintro c rfl - hw
      refine sent_start hw ?_
      rintro m requestId paramsHash error respData rfl hsender
      exact (hwallet m _ rfl hsender).sourced hdispatch

/-- A type that does not fit a byte has no handler. -/
theorem answer_unknown {w : EventHandler.World} {mem : Memory} {type : UInt64} {data : Bytes}
    (h : 256 ≤ type.toNat) : answer w mem type data = .ok (TC_ERR_FLAG_INVALID_INPUT,[]) := by
  have hne : ∀ known : UInt64, known.toNat < 256 → type ≠ known := by
    rintro known hlt rfl
    omega
  rw [answer]
  repeat rw [if_neg (hne _ (by decide))]
  rfl

theorem handled_of_hash {i : RequestInfo} {d : Contract.Delivery} {w : EventHandler.World}
    {mem : Memory} {type : UInt64} {request hashed respData resp : Bytes}
    (hhash : keccak256 (type.toUInt8::hashed) = keccak256 (encodePacked i.requestType i.requestData))
    (hanswer : answer w mem type request = .ok (d.error,respData))
    (hresp : respB32 mem.heap d.error respData = .ok resp)
    (hdata : d.respData = BitVec.ofNat 256 (value resp)) : Handled i d type request hashed := by
  by_cases hswapped : request = hashed
  case neg => exact .swapped hswapped
  subst hswapped
  by_cases heq : type.toUInt8::request = encodePacked i.requestType i.requestData
  · obtain ⟨htype,rfl⟩ := List.cons.inj heq
    by_cases hsize : 256 ≤ type.toNat
    · rw [answer_unknown hsize] at hanswer
      obtain ⟨herror,-⟩ := Prod.mk.inj (Except.ok.inj hanswer)
      refine .oversized hsize herror.symm ?_
      rw [← herror] at hresp
      cases hresp
      rw [hdata]
      decide
    · have hfits : type = i.requestType.toUInt64 := by
        rw [← UInt64.toNat_inj,← htype,UInt8.toNat_toUInt64,UInt64.toNat_toUInt8]
        omega
      rw [hfits,List.flatMap_def]
      exact .request
  · exact .collision heq hhash

/-- Whatever order hosts, users and nodes act in: each external call on account of
a delivery is for an accepted request, and the enclave has signed the delivery with
the number and the hash of the request. It has computed error and response for what
the relay makes of the request, unless the host has changed the text on the way to
the hash, or has added bits to the type, or has run the self test. -/
theorem settled_by_enclave
    (hdispatch : ∀ data f, decodeDeliver keccak256 data = some f → dispatch data = some f)
    (h : Reachable P gcm dispatch owner balance s) {t : Transfer Purpose}
    (ht : t ∈ s.chain.world.sent) {d : Contract.Delivery} (hd : delivery? t.purpose = some d) :
    ∃ i ∈ infos s.chain.world, Authentic i d ∧ (Tested s.enclave.log d ∨
      ∃ before out after web seeded mem nonce type request hashed hlen respData resp,
        s.enclave.log = before++
          (.handleRequest web seeded mem nonce i.id type request hashed hlen,out)::after ∧
        answer ⟨web,{hybridKey P.curve gcm (keysAfter P before) with seeded := seeded}⟩ mem type
          request = .ok (d.error,respData) ∧
        respB32 mem.heap d.error respData = .ok resp ∧ d.respData = BitVec.ofNat 256 (value resp) ∧
        Handled i d type request hashed) := by
  obtain ⟨hrun,hsent,-⟩ := run_sourced hdispatch h
  obtain ⟨i,hi,hauth,hhash⟩ := exists_authentic (run_inv hrun) ht hd
  refine ⟨i,hi,hauth,?_⟩
  obtain ⟨before,out,after,web,seeded,mem,nonce,type,request,hashed,hlen,respData,resp,hlog,hrequest,
    hanswer,hresp,hdata⟩ | htested := hsent t ht d hd
  · rw [hauth.requestId] at hlog
    rw [hauth.paramsHash,hhash] at hrequest
    exact .inr ⟨before,out,after,web,seeded,mem,nonce,type,request,hashed,hlen,respData,resp,hlog,
      hanswer,hresp,hdata,handled_of_hash hrequest hanswer hresp hdata⟩
  · exact .inl htested

end Town

/-- What the request of the sample run is answered with. -/
def oversizedAnswer : Contract.Delivery := ⟨SGX_ADDRESS,1,keccak256 [1],1,0⟩

def answerMessage : Msg := ⟨SGX_ADDRESS,0,BitVec.ofNat 256 GASPRICE.toNat,0,0⟩

def oversizedCall : Call := .message answerMessage (.deliver 1 (keccak256 [1]) 1 0)

theorem reachable_of_session {owner : Address} {balance : ℕ} {dispatch : Bytes → Option Function}
    {s : Session} (h : Ecalls.Reachable sevenPointPlatform plainGcm s) :
    Reachable sevenPointPlatform plainGcm dispatch owner balance ⟨⟨constructor owner balance,[]⟩,s⟩ := by
  induction h with
  | start => exact .start
  | step call _ hs _ ih => exact .host call ih hs

/-- The request of the sample run has been recorded. -/
def asked : Contract.World := (settle (constructor 5 0) [] (start keccak256 requestCall
  (constructor 5 0))).world

theorem start_oversized : start keccak256 oversizedCall asked =
    callback answerMessage oversizedAnswer (asked.storage.requests 1).fee
      ((markDelivered asked 1).pay SGX_ADDRESS (asked.storage.requests 1).fee
        (.deliveryFee oversizedAnswer)) := by
  have hguard : ¬(answerMessage.sender ≠ SGX_ADDRESS ∨ (1 : UInt64) ≤ 0 ∨
      (asked.storage.requests 1).requester = 0 ∨
      (asked.storage.requests 1).fee = DELIVERED_FEE_FLAG) := by
    decide
  have hhash : ¬(asked.storage.requests 1).paramsHash ≠ keccak256 [1] := not_not.mpr rfl
  rw [oversizedCall,start,nonPayable,if_pos (show answerMessage.value = 0 from rfl),deliver]
  dsimp only
  rw [if_neg hguard,if_neg hhash,if_neg (by decide),if_pos (by decide),Account.transfer,
    if_pos (by decide)]
  rfl

theorem good_asked : Good asked := ⟨by decide,by decide,by decide⟩

theorem good_settled {w : Contract.World} (hw : Good w) {m : Msg} {requestId : UInt64}
    {paramsHash : Bytes32} {error : UInt64} {respData : Bytes32} :
    Good (settle w [] (start keccak256 (.message m (.deliver requestId paramsHash error respData))
      w)).world := (good_deliver hw).settle hw

theorem step_oversized : ∃ chain : Config Contract.World Kont,
    (code keccak256).step ⟨asked,[]⟩ (.call oversizedCall) = some chain ∧ Good chain.world ∧
    ∃ t ∈ chain.world.sent, delivery? t.purpose = some oversizedAnswer := by
  refine ⟨settle asked [] (start keccak256 oversizedCall asked),?_,good_settled good_asked,?_⟩
  · simp only [Code.step,code,List.isEmpty_nil,Bool.true_or,if_true]
  · rw [start_oversized,callback,if_neg (by decide),Account.callOut_zero]
    refine ⟨⟨SGX_ADDRESS,(asked.storage.requests 1).fee,.deliveryFee oversizedAnswer,true⟩,?_,rfl⟩
    simp [settle,setFlag]

theorem reachable_asked {dispatch : Bytes → Option Function} {session : Session}
    (h : Ecalls.Reachable sevenPointPlatform plainGcm session) :
    Reachable sevenPointPlatform plainGcm dispatch 5 0 ⟨⟨asked,[]⟩,session⟩ := by
  refine .chain (.call requestCall) (reachable_of_session h) rfl good_asked ?_
  rintro m f ⟨⟩ hsender
  exact absurd hsender (by decide)

/-- The host asks the enclave for type 257, and its answer closes a request of type 1. -/
theorem settled_by_enclave_oversized : ∃ s t i,
    Reachable sevenPointPlatform plainGcm (decodeDeliver keccak256) 5 0 s ∧
    t ∈ s.chain.world.sent ∧ delivery? t.purpose = some oversizedAnswer ∧
    i ∈ infos s.chain.world ∧ Authentic i oversizedAnswer := by
  obtain ⟨session,raw,⟨v,r,sig⟩,hsession,hsig,hlog⟩ := reachable_unknownRequest
  obtain ⟨state,next,ht,hcall⟩ := explained_of_reachable hsession _ _ _ _ hlog
  obtain ⟨d,text,-,-,hsigns⟩ := ecall_signs ht hcall hsig
  obtain ⟨_,hclock,-⟩ | ⟨n,mTo,data,hcarries,-⟩ := hsigns
  · cases hclock
  have hdecode : decodeDeliver keccak256 data = some (.deliver 1 (keccak256 [1]) 1 0) := by
    obtain ⟨web,seeded,mem,id,type,request,hashed,hlen,errorFlag,respData,resp,hrequest,-,hanswer,
      hresp,rfl⟩ | ⟨-,htest,-⟩ := hcarries
    case inr => cases htest
    cases hrequest
    rw [answer_unknown (by decide)] at hanswer
    cases hanswer
    cases hresp
    exact decodeDeliver_callData keccak256 1 1 [] 1 (by decide)
  have hfrom : FromEnclave sevenPointPlatform plainGcm (decodeDeliver keccak256) session.log
      answerMessage (.deliver 1 (keccak256 [1]) 1 0) :=
    fromEnclave_of_carries hlog (by rw [hsig]; exact nofun) hcarries hdecode rfl rfl
  obtain ⟨chain,hstep,hgood,t,ht,hd⟩ := step_oversized
  have hrun : Reachable sevenPointPlatform plainGcm (decodeDeliver keccak256) 5 0 ⟨chain,session⟩ := by
    refine .chain _ (reachable_asked hsession) hstep hgood ?_
    rintro m f ⟨⟩ -
    exact hfrom
  obtain ⟨i,hi,hauth,-⟩ := settled_by_enclave (fun _ _ h => h) hrun ht hd
  exact ⟨_,t,i,hrun,ht,hd,hi,hauth⟩

end TownCrier.Authenticity
