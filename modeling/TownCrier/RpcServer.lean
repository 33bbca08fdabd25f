import TownCrier.Automaton
import TownCrier.Delivery
import TownCrier.Failures

/-!
# The server in front of the enclave

`process` of `rpc.cpp`. The ecall reports in two ways, the enclave writes the
transaction into a buffer of the server, and the handlers of all calls share
that buffer. A handler takes two steps: the ecall, and the response that copies
from the buffer. Between the two, other handlers run.
-/
namespace TownCrier.RpcServer
open BigEndian Cpp Delivery EventHandler FormTransaction Transition

def SGX_SUCCESS : UInt32 := 0
def TC_SUCCESS : Int32 := 0

/-- `Response` of the protocol; a field that is not set has its default. -/
structure Response where
  errorCode : UInt32 := 0
  responseTx : Bytes := []
  deriving DecidableEq

/-- What an ecall of `handle_request` leaves behind. `written` is what it wrote
to the start of the buffer. -/
structure Ecall where
  st : UInt32
  ecallRet : Int32
  written : Bytes
  respDataLen : ℕ

/-- The code after the ecall. The exception of the first branch is caught in
the same function, which then reports `ecall_ret`. -/
def process (o : Ecall) (respBuffer : Bytes) : Response :=
  if o.st ≠ SGX_SUCCESS ∨ o.ecallRet ≠ TC_SUCCESS then {errorCode := o.ecallRet.toUInt32}
  else {errorCode := 0, responseTx := respBuffer.take o.respDataLen}

/-- What the enclave can make of a request. When the call of the enclave fails,
`ecall_ret` keeps the value it had before, which is `TC_SUCCESS`. -/
inductive Handled (e : Enclave) (r : ProcessRequest) : Ecall → Prop
  | formed {w mem tx} (h : handleRequest e w mem r.nonce r.id r.type r.data = .ok (some tx)) :
      Handled e r ⟨SGX_SUCCESS,TC_SUCCESS,tx,tx.length⟩
  | rejected {w mem len} (h : handleRequest e w mem r.nonce r.id r.type r.data = .ok none) :
      Handled e r ⟨SGX_SUCCESS,TC_INTERNAL_ERROR.toUInt32.toInt32,[],len⟩
  | failed {st written len} (hst : st ≠ SGX_SUCCESS) (hlen : written.length ≤ TX_BUF_SIZE) :
      Handled e r ⟨st,TC_SUCCESS,written,len⟩

inductive Handler where
  | received
  | called (o : Ecall)
  | replied (o : Ecall) (response : Response)

structure Server where
  respBuffer : Bytes
  handlers : ℕ → Handler

inductive Action where
  | ecall (call : ℕ) (o : Ecall)
  | respond (call : ℕ)

def overwrite (buffer written : Bytes) : Bytes := written++buffer.drop written.length

/-- One step of one handler; `requests` are the requests of the calls. -/
inductive Step (e : Enclave) (requests : ℕ → ProcessRequest) : Server → Action → Server → Prop
  | ecall {s i o} (hi : s.handlers i = .received) (h : Handled e (requests i) o) :
      Step e requests s (.ecall i o)
        ⟨overwrite s.respBuffer o.written,Function.update s.handlers i (.called o)⟩
  | respond {s i o} (hi : s.handlers i = .called o) :
      Step e requests s (.respond i)
        ⟨s.respBuffer,Function.update s.handlers i (.replied o (process o s.respBuffer))⟩

def initial : Server := ⟨List.replicate TX_BUF_SIZE 0,fun _ => .received⟩

def Ecall.Succeeded (o : Ecall) : Prop := o.st = SGX_SUCCESS ∧ o.ecallRet = TC_SUCCESS

instance (o : Ecall) : Decidable o.Succeeded := inferInstanceAs (Decidable (_ ∧ _))

/-- The ecall reaches the enclave, and what it writes to the buffer leaves the
answers alone that other handlers have yet to copy. -/
def Exclusive (s : Server) : Action → Prop
  | .ecall i o => o.st = SGX_SUCCESS ∧ ∀ j o', j ≠ i → s.handlers j = .called o' →
      o'.Succeeded → (overwrite s.respBuffer o.written).take o'.written.length =
        s.respBuffer.take o'.written.length
  | .respond _ => True

/-- The response of a call without an error has the transaction which the
enclave made in this call. -/
def Own (e : Enclave) (requests : ℕ → ProcessRequest) (s : Server) : Prop :=
  ∀ i o response, s.handlers i = .replied o response → response.errorCode = 0 →
    o.Succeeded ∧ response.responseTx = o.written ∧ ∃ w mem,
      handleRequest e w mem (requests i).nonce (requests i).id (requests i).type (requests i).data =
        .ok (some response.responseTx)

variable {e : Enclave} {requests : ℕ → ProcessRequest} {s s' : Server}

theorem process_success {o : Ecall} (h : o.Succeeded) (respBuffer : Bytes) :
    process o respBuffer = {errorCode := 0, responseTx := respBuffer.take o.respDataLen} :=
  if_neg (by
    rintro (hst | hret)
    · exact hst h.1
    · exact hret h.2)

theorem process_failure {o : Ecall} (h : ¬o.Succeeded) (respBuffer : Bytes) :
    process o respBuffer = {errorCode := o.ecallRet.toUInt32} :=
  if_pos (by
    rw [Ecall.Succeeded,not_and_or] at h
    exact h)

theorem Handled.formed_of {r : ProcessRequest} {o : Ecall} (h : Handled e r o) (hs : o.Succeeded) :
    o.respDataLen = o.written.length ∧ ∃ w mem,
      handleRequest e w mem r.nonce r.id r.type r.data = .ok (some o.written) := by
  cases h with
  | formed h => exact ⟨rfl,_,_,h⟩
  | rejected h => exact absurd (show TC_INTERNAL_ERROR.toUInt32.toInt32 = TC_SUCCESS from hs.2) (by decide)
  | failed hst _ => exact absurd hs.1 hst

/-- What the buffer and the handlers keep while all steps are exclusive. -/
structure Intact (e : Enclave) (requests : ℕ → ProcessRequest) (s : Server) : Prop where
  called : ∀ i o, s.handlers i = .called o → Handled e (requests i) o ∧ o.st = SGX_SUCCESS ∧
    (o.Succeeded → s.respBuffer.take o.written.length = o.written)
  own : Own e requests s

theorem intact_initial : Intact e requests initial where
  called := fun i o h => by cases h
  own := fun i o response h => by cases h

theorem intact_ecall (hs : Intact e requests s) {i : ℕ} {o : Ecall}
    (h : Handled e (requests i) o) (ha : Exclusive s (.ecall i o)) :
    Intact e requests
      ⟨overwrite s.respBuffer o.written,Function.update s.handlers i (.called o)⟩ where
  called := by
    intro j o' hj
    dsimp only at hj ⊢
    by_cases hij : j = i
    · subst hij
      rw [Function.update_self] at hj
      cases hj
      exact ⟨h,ha.1,fun _ => List.take_left' rfl⟩
    · rw [Function.update_of_ne hij] at hj
      obtain ⟨h',hst,htake⟩ := hs.called j o' hj
      exact ⟨h',hst,fun hsucc => (ha.2 j o' hij hj hsucc).trans (htake hsucc)⟩
  own := by
    intro j o' response hj
    dsimp only at hj
    by_cases hij : j = i
    · subst hij
      rw [Function.update_self] at hj
      cases hj
    · rw [Function.update_of_ne hij] at hj
      exact hs.own j o' response hj

theorem intact_respond (hs : Intact e requests s) {i : ℕ} {o : Ecall}
    (hi : s.handlers i = .called o) :
    Intact e requests
      ⟨s.respBuffer,Function.update s.handlers i (.replied o (process o s.respBuffer))⟩ where
  called := by
    intro j o' hj
    dsimp only at hj ⊢
    by_cases hij : j = i
    · subst hij
      rw [Function.update_self] at hj
      cases hj
    · rw [Function.update_of_ne hij] at hj
      exact hs.called j o' hj
  own := by
    intro j o' response hj hcode
    dsimp only at hj
    by_cases hij : j = i
    · subst hij
      rw [Function.update_self] at hj
      cases hj
      obtain ⟨h,hst,htake⟩ := hs.called j o hi
      by_cases hsucc : o.Succeeded
      · obtain ⟨hlen,w,mem,hformed⟩ := h.formed_of hsucc
        have htx : (process o s.respBuffer).responseTx = o.written := by
          rw [process_success hsucc,hlen]
          exact htake hsucc
        exact ⟨hsucc,htx,w,mem,htx ▸ hformed⟩
      · rw [process_failure hsucc] at hcode
        have hret : o.ecallRet = TC_SUCCESS := by
          simpa [TC_SUCCESS] using congrArg UInt32.toInt32 hcode
        exact absurd ⟨hst,hret⟩ hsucc
    · rw [Function.update_of_ne hij] at hj
      exact hs.own j o' response hj hcode

/-- In a run in which no ecall fails to reach the enclave or changes an answer
that another handler has yet to copy, each response has its own transaction. -/
theorem answers_unmixed (h : Run (Step e requests) Exclusive initial s) : Own e requests s := by
  have hintact : Intact e requests s := h.kept intact_initial fun s a s' hs hstep ha => by
    cases hstep with
    | ecall hi h => exact intact_ecall hs h ha
    | respond hi => exact intact_respond hs hi
  exact hintact.own

/-- Requests of a type that the enclave does not know, numbered from one. -/
def unknownRequests (i : ℕ) : ProcessRequest := ⟨UInt64.ofNat (i+1),0,[],4⟩

def unknownAnswer (id : UInt64) : Exec (Option Bytes) :=
  handleRequest sampleEnclave Failures.outage ⟨0,0,0,fun _ => 0⟩ 4 id 0 []

@[irreducible] def unknownTx (id : UInt64) : Bytes :=
  match unknownAnswer id with
  | .ok (some tx) => tx
  | _ => []

theorem unknown_formed : unknownAnswer 1 = .ok (some (unknownTx 1)) ∧
    unknownAnswer 2 = .ok (some (unknownTx 2)) := by
  decide +kernel

theorem unknownTx_ne : (unknownTx 1).length = (unknownTx 2).length ∧ unknownTx 1 ≠ unknownTx 2 := by
  decide +kernel

def unknownEcall (id : UInt64) : Ecall :=
  ⟨SGX_SUCCESS,TC_SUCCESS,unknownTx id,(unknownTx id).length⟩

theorem unknown_handled : Handled sampleEnclave (unknownRequests 0) (unknownEcall 1) ∧
    Handled sampleEnclave (unknownRequests 1) (unknownEcall 2) :=
  ⟨.formed unknown_formed.1,.formed unknown_formed.2⟩

/-- The server after the ecall of the first handler. -/
def calledOnce : Server :=
  ⟨overwrite initial.respBuffer (unknownEcall 1).written,
    Function.update initial.handlers 0 (.called (unknownEcall 1))⟩

/-- The second call asks Wolfram, to which there is no connection. -/
def mixedRequests : ℕ → ProcessRequest
  | 0 => unknownRequests 0
  | _ => ⟨2,TYPE_WOLFRAM,List.replicate 32 0,4⟩

def rejectedEcall : Ecall := ⟨SGX_SUCCESS,TC_INTERNAL_ERROR.toUInt32.toInt32,[],0⟩

theorem rejected_handled : Handled sampleEnclave (mixedRequests 1) rejectedEcall := by
  have h : handleRequest sampleEnclave {Failures.outage with web := fun _ => .noClient .runtimeError}
      ⟨0,0,0,fun _ => 0⟩ 4 2 TYPE_WOLFRAM (List.replicate 32 0) = .ok none := by
    decide +kernel
  exact .rejected h

/-- Both have their ecall before the first one copies. -/
def rejectedSecond : Server :=
  ⟨calledOnce.respBuffer,Function.update calledOnce.handlers 1 (.called rejectedEcall)⟩

def answeredFirst : Server :=
  ⟨calledOnce.respBuffer,Function.update rejectedSecond.handlers 0
    (.replied (unknownEcall 1) (process (unknownEcall 1) calledOnce.respBuffer))⟩

def answeredBoth : Server :=
  ⟨calledOnce.respBuffer,Function.update answeredFirst.handlers 1
    (.replied rejectedEcall (process rejectedEcall calledOnce.respBuffer))⟩

theorem answeredBoth_run :
    Run (Step sampleEnclave mixedRequests) Exclusive initial answeredBoth := by
  have hcall : Run (Step sampleEnclave mixedRequests) Exclusive initial calledOnce := by
    refine .step (.ecall 0 (unknownEcall 1)) .start (.ecall rfl unknown_handled.1) ⟨rfl,?_⟩
    intro j o' _ hj
    cases hj
  have hsecond : Run (Step sampleEnclave mixedRequests) Exclusive initial rejectedSecond :=
    .step (.ecall 1 rejectedEcall) hcall (.ecall rfl rejected_handled) ⟨rfl,fun _ _ _ _ _ => rfl⟩
  have hfirst : Run (Step sampleEnclave mixedRequests) Exclusive initial answeredFirst :=
    .step (.respond 0) hsecond (.respond (show rejectedSecond.handlers 0 = .called _ from rfl)) trivial
  exact .step (.respond 1) hfirst (.respond (show answeredFirst.handlers 1 = .called _ from rfl)) trivial

/-- Between the ecall of the first call and its response, the second one is rejected. -/
theorem answers_unmixed_both : Own sampleEnclave mixedRequests answeredBoth ∧
    answeredBoth.handlers 0 = .replied (unknownEcall 1) ⟨0,unknownTx 1⟩ ∧
    answeredBoth.handlers 1 =
      .replied rejectedEcall ⟨TC_INTERNAL_ERROR.toUInt32.toInt32.toUInt32,[]⟩ := by
  have hcopied : calledOnce.respBuffer.take (unknownTx 1).length = unknownTx 1 :=
    List.take_left' rfl
  have hfirst : process (unknownEcall 1) calledOnce.respBuffer = ⟨0,unknownTx 1⟩ := by
    rw [process_success ⟨rfl,rfl⟩]
    exact congrArg (Response.mk 0) hcopied
  refine ⟨answers_unmixed answeredBoth_run,?_,rfl⟩
  rw [← hfirst]
  rfl

/-- The server after a second ecall, before the first handler has copied. -/
def calledTwice : Server :=
  ⟨overwrite calledOnce.respBuffer (unknownEcall 2).written,
    Function.update calledOnce.handlers 1 (.called (unknownEcall 2))⟩

/-- The first handler responds with the transaction of the second. -/
theorem answers_mixed : ∃ s, Run (Step sampleEnclave unknownRequests) (fun _ _ => True) initial s ∧
    ¬Own sampleEnclave unknownRequests s := by
  have hcalled : Run (Step sampleEnclave unknownRequests) (fun _ _ => True) initial calledTwice :=
    .step (.ecall 1 (unknownEcall 2))
      (.step (.ecall 0 (unknownEcall 1)) .start (.ecall rfl unknown_handled.1) trivial)
      (.ecall rfl unknown_handled.2) trivial
  have hfirst : calledTwice.handlers 0 = .called (unknownEcall 1) := rfl
  have hprocess := process_success (o := unknownEcall 1) ⟨rfl,rfl⟩ calledTwice.respBuffer
  refine ⟨_,.step (.respond 0) hcalled (.respond hfirst) trivial,fun hown => ?_⟩
  obtain ⟨-,htx,-⟩ := hown 0 (unknownEcall 1) (process (unknownEcall 1) calledTwice.respBuffer) rfl
    (by rw [hprocess])
  rw [hprocess] at htx
  have hbuffer : calledTwice.respBuffer =
      (unknownEcall 2).written++calledOnce.respBuffer.drop (unknownEcall 2).written.length := rfl
  have hcopied : calledTwice.respBuffer.take (unknownTx 1).length = unknownTx 2 := by
    rw [hbuffer]
    exact List.take_left' unknownTx_ne.1.symm
  exact unknownTx_ne.2 (htx.symm.trans hcopied)

end TownCrier.RpcServer
