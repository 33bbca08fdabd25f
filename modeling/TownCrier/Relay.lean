import TownCrier.DeliverLog
import TownCrier.RpcServer

/-!
# The relay

`relay.py`. The relay reads the log of the contract, has the enclave answer each
request and sends the transaction that comes back. It goes through the log once
if it is told to catch up, and then polls a filter for new events. Other blocks
are mined between any two of its calls, and any of its calls may raise.

An event is named by its place among the `RequestInfo` events of the chain. A
filter that is created from the latest block on reports the events of later
blocks, each of them once.
-/
namespace TownCrier.Relay
open BigEndian CallMachine Contract Cpp Delivery RpcServer Transition

/-- The contract and the number of the enclave's mined transactions after each
block. -/
structure Chain where
  world : ℕ → World
  transactionCount : ℕ → ℕ
  grows : ∀ n, infos (world n) <+: infos (world (n+1))
  counts : Monotone transactionCount

/-- How many `RequestInfo` events there are up to a block. -/
def Chain.events (c : Chain) (block : ℕ) : ℕ := (infos (c.world block)).length

/-- The exceptions which `wait_for_requests` tells apart. -/
inductive PyError where
  /-- `grpc.RpcError` -/
  | rpcError
  /-- A `ValueError` with the message `filter not found`. -/
  | filterNotFound
  /-- A `ValueError` with another message of the node. -/
  | nodeError
  /-- A `ValueError` without a message of the node, which is raised again. -/
  | valueError
  | other

/-- The two loops over entries; a filter keeps the place up to which it has reported. -/
inductive Loop where
  | catchup
  | wait (cursor : ℕ)

/-- How far the first entry of the queue has got. -/
inductive Stage where
  | next
  | counted (nonce : ℕ)
  | responded (nonce : ℕ) (response : Bytes)
  | sent (nonce : ℕ)

inductive Phase where
  | started
  | catchup (uptoBlock : ℕ)
  | ready
  | polling (cursor : ℕ)
  | running (loop : Loop) (queue : List ℕ) (stage : Stage)
  | crashed

/-- A transaction which the node accepted from the relay. Which bytes it accepts is
left to the node, also for the empty ones that a failed ecall leaves. -/
structure Sending where
  event : ℕ
  nonce : ℕ
  transaction : Bytes

structure State where
  head : ℕ
  phase : Phase
  /-- The block number from which `catchup` took its range. -/
  uptoBlock : Option ℕ
  /-- The latest block when `catchup` read the counter of the contract. -/
  counterBlock : Option ℕ
  /-- The latest block when `wait_for_requests` created its first filter. -/
  filterBlock : Option ℕ
  /-- The events whose requests the enclave got from the two loops. -/
  caught : List ℕ
  polled : List ℕ
  sent : List Sending
  /-- The latest block when the nonce in use was read. -/
  countBlock : Option ℕ
  /-- The nonces of the transactions for whose receipt the relay has stopped waiting. -/
  abandoned : List ℕ

def initial (head : ℕ) : State := ⟨head,.started,none,none,none,[],[],[],none,[]⟩

inductive Action where
  | mine
  | blockNumber
  | skipCatchup
  | catchup
  | createFilter
  | getNewEntries
  | getTransactionCount
  | process (o : Ecall) (respBuffer : Bytes)
  | sendRawTransaction
  | waitForTransactionReceipt
  /-- The next call of the relay raises; `renewed` says whether a new filter can
  be created in place of one that is not found. -/
  | raise (e : PyError) (renewed : Bool)

/-- What `handle_request_event` returns: an error code is logged and no more. -/
def responseTx (response : Response) : Bytes := response.responseTx

/-- The events up to the block for which there is no `DeliverInfo`. -/
def unprocessed (w : World) : List ℕ :=
  ((infos w).zipIdx.filter fun p => p.1.id ∉ delivers w).map (·.2)

/-- The entries over which `catchup` goes. The counter is read from the latest
block, the two event logs up to `uptoBlock`. -/
def catchupEntries (c : Chain) (head uptoBlock : ℕ) : List ℕ :=
  if (c.world head).storage.unrespondedCnt = 0 then [] else unprocessed (c.world uptoBlock)

/-- The head of a `for` loop over entries. -/
def Loop.over : Loop → List ℕ → Phase
  | .catchup, [] => .ready
  | .wait cursor, [] => .polling cursor
  | loop, queue => .running loop queue .next

/-- The place of the filter, inside the `try` block of `wait_for_requests`. -/
def Phase.cursor? : Phase → Option ℕ
  | .polling cursor | .running (.wait cursor) _ _ => some cursor
  | _ => none

/-- The handlers of `wait_for_requests`; the rest of a batch is dropped. -/
def handle (c : Chain) (head cursor : ℕ) (renewed : Bool) : PyError → Phase
  | .rpcError | .nodeError | .other => .polling cursor
  | .filterNotFound => if renewed then .polling (c.events head) else .crashed
  | .valueError => .crashed

def raised (c : Chain) (s : State) (e : PyError) (renewed : Bool) : Phase :=
  match s.phase.cursor? with
  | some cursor => handle c s.head cursor renewed e
  | none => .crashed

/-- The nonce of the transaction whose receipt the relay waits for. -/
def Phase.awaited? : Phase → Option ℕ
  | .running _ _ (.sent nonce) => some nonce
  | _ => none

def State.raise (c : Chain) (s : State) (e : PyError) (renewed : Bool) : State :=
  {s with phase := raised c s e renewed, abandoned := s.abandoned++s.phase.awaited?.toList}

/-- The loop by which an event is handed to the enclave. -/
def State.hand (s : State) (i : ℕ) : Loop → State
  | .catchup => {s with caught := s.caught++[i]}
  | .wait _ => {s with polled := s.polled++[i]}

def step (c : Chain) (s : State) : Action → Option State
  | .mine => some {s with head := s.head+1}
  | .blockNumber =>
      match s.phase with
      | .started => some {s with phase := .catchup s.head, uptoBlock := some s.head}
      | _ => none
  | .skipCatchup =>
      match s.phase with
      | .started => some {s with phase := .ready}
      | _ => none
  | .catchup =>
      match s.phase with
      | .catchup uptoBlock =>
          some {s with
            phase := Loop.catchup.over (catchupEntries c s.head uptoBlock)
            counterBlock := some s.head}
      | _ => none
  | .createFilter =>
      match s.phase with
      | .ready => some {s with phase := .polling (c.events s.head), filterBlock := some s.head}
      | _ => none
  | .getNewEntries =>
      match s.phase with
      | .polling cursor =>
          let entries := List.range' cursor (c.events s.head-cursor)
          some {s with phase := (Loop.wait (c.events s.head)).over entries}
      | _ => none
  | .getTransactionCount =>
      match s.phase with
      | .running loop (i::queue) .next =>
          some {s with
            phase := .running loop (i::queue) (.counted (c.transactionCount s.head))
            countBlock := some s.head}
      | _ => none
  | .process o respBuffer =>
      match s.phase with
      | .running loop (i::queue) (.counted nonce) =>
          let response := responseTx (process o respBuffer)
          some {s.hand i loop with phase := .running loop (i::queue) (.responded nonce response)}
      | _ => none
  | .sendRawTransaction =>
      match s.phase with
      | .running loop (i::queue) (.responded nonce response) =>
          some {s with
            phase := .running loop (i::queue) (.sent nonce), sent := s.sent++[⟨i,nonce,response⟩]}
      | _ => none
  | .waitForTransactionReceipt =>
      match s.phase with
      -- The receipt is there once a block has used the nonce.
      | .running loop (_::queue) (.sent nonce) =>
          if nonce < c.transactionCount s.head then some {s with phase := loop.over queue} else none
      | _ => none
  | .raise e renewed =>
      match s.phase with
      | .crashed => none
      | _ => some (s.raise c e renewed)

abbrev Step (c : Chain) (s : State) (a : Action) (s' : State) : Prop := step c s a = some s'

/-- The state after a step, for each of the calls. -/
inductive Moves (c : Chain) (s : State) : Action → State → Prop
  | mine : Moves c s .mine {s with head := s.head+1}
  | blockNumber (h : s.phase = .started) :
      Moves c s .blockNumber {s with phase := .catchup s.head, uptoBlock := some s.head}
  | skipCatchup (h : s.phase = .started) : Moves c s .skipCatchup {s with phase := .ready}
  | catchup {uptoBlock} (h : s.phase = .catchup uptoBlock) :
      Moves c s .catchup {s with
        phase := Loop.catchup.over (catchupEntries c s.head uptoBlock)
        counterBlock := some s.head}
  | createFilter (h : s.phase = .ready) :
      Moves c s .createFilter
        {s with phase := .polling (c.events s.head), filterBlock := some s.head}
  | getNewEntries {cursor} (h : s.phase = .polling cursor) :
      Moves c s .getNewEntries {s with
        phase := (Loop.wait (c.events s.head)).over
          (List.range' cursor (c.events s.head-cursor))}
  | getTransactionCount {loop i queue} (h : s.phase = .running loop (i::queue) .next) :
      Moves c s .getTransactionCount
        {s with
          phase := .running loop (i::queue) (.counted (c.transactionCount s.head))
          countBlock := some s.head}
  | process {loop i queue nonce o respBuffer}
      (h : s.phase = .running loop (i::queue) (.counted nonce)) :
      Moves c s (.process o respBuffer) {s.hand i loop with
        phase := .running loop (i::queue)
          (.responded nonce (responseTx (RpcServer.process o respBuffer)))}
  | sendRawTransaction {loop i queue nonce response}
      (h : s.phase = .running loop (i::queue) (.responded nonce response)) :
      Moves c s .sendRawTransaction {s with
        phase := .running loop (i::queue) (.sent nonce), sent := s.sent++[⟨i,nonce,response⟩]}
  | waitForTransactionReceipt {loop i queue nonce}
      (h : s.phase = .running loop (i::queue) (.sent nonce))
      (hmined : nonce < c.transactionCount s.head) :
      Moves c s .waitForTransactionReceipt {s with phase := loop.over queue}
  | raise {e renewed} (h : s.phase ≠ .crashed) :
      Moves c s (.raise e renewed) (s.raise c e renewed)

theorem step_moves {c : Chain} {s s' : State} {a : Action} (h : Step c s a s') : Moves c s a s' := by
  cases a with
  | mine =>
      cases h
      exact .mine
  | raise e renewed =>
      simp only [Step,step] at h
      split at h
      next => cases h
      next hphase =>
        cases h
        exact .raise hphase
  | waitForTransactionReceipt =>
      simp only [Step,step] at h
      split at h
      next hphase =>
        split_ifs at h with hmined
        cases h
        exact .waitForTransactionReceipt hphase hmined
      next => cases h
  | blockNumber | skipCatchup | catchup | createFilter | getNewEntries | getTransactionCount
  | process | sendRawTransaction =>
      simp only [Step,step] at h
      split at h
      next hphase =>
        cases h
        constructor
        exact hphase
      next => cases h

/-- The event and the bytes of a call of `sendRawTransaction` that comes next. -/
def State.sending? (s : State) : Option (ℕ × Bytes) :=
  match s.phase with
  | .running _ (i::_) (.responded _ response) => some (i,response)
  | _ => none

/-- After an ecall the relay is about to send what the enclave wrote, or the
response tells of a failure and nothing is sent. -/
structure FailClosed (o : Ecall) (response : Response) (i : ℕ) (s : State) : Prop where
  success : o.Succeeded → s.sending? = some (i,o.written)
  failure : ¬o.Succeeded → response.errorCode ≠ 0 ∧ s.sending? = none

/-- Whatever the ecall came to, the relay goes on to send the response. -/
theorem process_sending {c : Chain} {s s' : State} {loop : Loop} {i : ℕ} {queue : List ℕ}
    {nonce : ℕ} {o : Ecall} {respBuffer : Bytes}
    (hs : s.phase = .running loop (i::queue) (.counted nonce))
    (h : Step c s (.process o respBuffer) s') :
    s'.sending? = some (i,(process o respBuffer).responseTx) := by
  unfold Step step at h
  rw [hs] at h
  cases h
  rfl

/-- For every outcome of the ecall and in either loop, the relay fails closed
just when the ecall and the enclave both report success. -/
theorem fail_closed_iff {c : Chain} {s s' : State} {loop : Loop} {i : ℕ} {queue : List ℕ}
    {nonce : ℕ} {o : Ecall} {respBuffer : Bytes}
    (hs : s.phase = .running loop (i::queue) (.counted nonce))
    (hlen : o.Succeeded → o.respDataLen = o.written.length)
    (h : Step c s (.process o (overwrite respBuffer o.written)) s') :
    FailClosed o (process o (overwrite respBuffer o.written)) i s' ↔ o.Succeeded := by
  have hsending := process_sending hs h
  constructor
  · intro hclosed
    by_contra hfailed
    cases hsending.symm.trans (hclosed.failure hfailed).2
  · intro hsucceeded
    refine ⟨fun _ => ?_,fun hfailed => absurd hsucceeded hfailed⟩
    rw [hsending,process_success hsucceeded,hlen hsucceeded]
    exact congrArg (fun bytes => some (i,bytes)) (List.take_left' rfl)

section Sample

/-- One request, and nothing else on the chain. -/
def quietChain : Chain where
  world := fun _ => sampleWorld
  transactionCount := fun _ => 0
  grows := fun _ => List.prefix_rfl
  counts := fun _ _ _ => le_rfl

def askingState : State :=
  ⟨0,.running (.wait 1) [0] (.counted 0),none,none,none,[],[],[],some 0,[]⟩

def answeredState (response : Bytes) : State :=
  ⟨0,.running (.wait 1) [0] (.responded 0 response),none,none,none,[],[0],[],some 0,[]⟩

def lostEnclave : Ecall := ⟨14,TC_SUCCESS,[],0⟩

def internalError : Ecall := ⟨SGX_SUCCESS,3,[],0⟩

def oneByte : Ecall := ⟨SGX_SUCCESS,TC_SUCCESS,[7],1⟩

theorem fail_closed_iff_success :
    FailClosed oneByte (process oneByte (overwrite [0,0] [7])) 0 (answeredState [7]) := by
  have hstep : Step quietChain askingState (.process oneByte (overwrite [0,0] oneByte.written))
      (answeredState [7]) := rfl
  exact (fail_closed_iff rfl (fun _ => rfl) hstep).mpr ⟨rfl,rfl⟩

/-- When the enclave is lost, the server reports no error, and in any case of
failure the relay sends a transaction without any bytes. -/
theorem failure_sent :
    (process lostEnclave [0,0]).errorCode = 0 ∧
    Step quietChain askingState (.process lostEnclave [0,0]) (answeredState []) ∧
    (process internalError [0,0]).errorCode = 3 ∧
    Step quietChain askingState (.process internalError [0,0]) (answeredState []) ∧
    (answeredState []).sending? = some (0,[]) :=
  ⟨rfl,rfl,rfl,rfl,rfl⟩

end Sample
end TownCrier.Relay
