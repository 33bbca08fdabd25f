import TownCrier.TownCrierVote

/-!
# What the votes decide

The requests with one identifier, one after the other, are a poll: the record of
the current request, what was asked, and the deliveries and callbacks so far.
The contract counts responses and not the accounts which gave them, so a winner
has two votes, and two accounts only where no account repeats its response.
-/
namespace TownCrier.TownCrierVote
open BigEndian CallMachine Evm

def Purpose.delivery : Purpose → Delivery
  | .firstDelivery d | .secondDelivery d | .abortedDelivery d | .lastDelivery d => d
  | .callback _ d _ => d

/-- Each delivery that counts is paid for. -/
def Purpose.vote : Purpose → Option Delivery
  | .callback _ _ _ => none
  | p => some p.delivery

def Purpose.decision : Purpose → Option Bytes32
  | .callback _ _ response => some response
  | _ => none

/-- The deliveries and callbacks for one identifier. -/
def entries (w : World) (id : UInt64) : List Purpose :=
  (w.sent.map (·.purpose)).filter (·.delivery.requestId = id)

def votes (L : List Purpose) (n : ℕ) : List Delivery :=
  (L.filter (·.delivery.round = n)).filterMap Purpose.vote

def decisions (L : List Purpose) (n : ℕ) : List Bytes32 :=
  (L.filter (·.delivery.round = n)).filterMap Purpose.decision

@[simp] theorem votes_append (L M : List Purpose) (n : ℕ) :
    votes (L++M) n = votes L n++votes M n := by
  simp [votes]

@[simp] theorem decisions_append (L M : List Purpose) (n : ℕ) :
    decisions (L++M) n = decisions L n++decisions M n := by
  simp [decisions]

theorem votes_singleton (x : Purpose) (n : ℕ) :
    votes [x] n = if x.delivery.round = n then x.vote.toList else [] := by
  unfold votes
  split_ifs with h
  · cases x <;> simp_all [Purpose.vote]
  · simp [h]

theorem decisions_singleton (x : Purpose) (n : ℕ) :
    decisions [x] n = if x.delivery.round = n then x.decision.toList else [] := by
  unfold decisions
  split_ifs with h
  · cases x <;> simp_all [Purpose.decision]
  · simp [h]

theorem mem_decisions {L : List Purpose} {n : ℕ} {v : Bytes32} :
    v ∈ decisions L n ↔ ∃ x ∈ L, x.delivery.round = n ∧ x.decision = some v := by
  simp [decisions,and_assoc]

structure Poll where
  request : Request
  asked : List RequestInfo
  entries : List Purpose

def poll (w : World) (id : UInt64) : Poll := ⟨w.storage.requests id,asked w id,entries w id⟩

namespace Poll

/-- The guards of `deliver`. -/
structure Counts (p : Poll) (m : Msg) (paramsHash : Bytes32) : Prop where
  fee : p.request.fee ≠ 0
  sender : isSgx m.sender
  paramsHash : p.request.paramsHash = paramsHash

def ballot (p : Poll) (m : Msg) (id : UInt64) (paramsHash respData : Bytes32) : Delivery :=
  ⟨m.sender,id,p.asked.length,paramsHash,respData⟩

/-- The response that wins with a third delivery. -/
inductive Wins (r : Request) (respData : Bytes32) : Bytes32 → Prop
  | own (h : respData = r.response0 ∨ respData = r.response1) : Wins r respData respData
  | others (h : r.response0 = r.response1) : Wins r respData r.response1

/-- What a call does to the poll of one identifier. -/
inductive Step (id : UInt64) : Poll → Call → Poll → Prop
  | quiet {p c} : Step id p c p
  | asked {p c} {r : Request} {info : RequestInfo} (hhash : r.paramsHash = info.paramsHash)
      (hcnt : r.responseCnt = 0) : Step id p c ⟨r,p.asked++[info],p.entries⟩
  | first {p m paramsHash respData} (hc : p.Counts m paramsHash)
      (hcnt : p.request.responseCnt = 0) :
      Step id p (.message m (.deliver id paramsHash respData))
        ⟨{p.request with response0 := respData, responseCnt := p.request.responseCnt+1},p.asked,
          p.entries++[.firstDelivery (p.ballot m id paramsHash respData)]⟩
  | second {p m paramsHash respData} (hc : p.Counts m paramsHash)
      (hcnt : p.request.responseCnt = 1) :
      Step id p (.message m (.deliver id paramsHash respData))
        ⟨{p.request with response1 := respData, responseCnt := p.request.responseCnt+1},p.asked,
          p.entries++[.secondDelivery (p.ballot m id paramsHash respData)]⟩
  | aborted {p m paramsHash respData} (hc : p.Counts m paramsHash)
      (h0 : p.request.responseCnt ≠ 0) (h1 : p.request.responseCnt ≠ 1) :
      Step id p (.message m (.deliver id paramsHash respData))
        ⟨p.request,p.asked,p.entries++[.abortedDelivery (p.ballot m id paramsHash respData)]⟩
  | decided {p m paramsHash respData response} (hc : p.Counts m paramsHash)
      (h0 : p.request.responseCnt ≠ 0) (h1 : p.request.responseCnt ≠ 1)
      (hwins : Wins p.request respData response) :
      Step id p (.message m (.deliver id paramsHash respData))
        ⟨{p.request with fee := 0},p.asked,
          p.entries++[.lastDelivery (p.ballot m id paramsHash respData)]++
            [.callback p.request.callbackFID (p.ballot m id paramsHash respData) response]⟩

/-- The record holds the first two votes. -/
inductive Stored (r : Request) : List Delivery → Prop
  | none (hcnt : r.responseCnt = 0) : Stored r []
  | one {d : Delivery} (hcnt : r.responseCnt = 1) (h0 : d.respData = r.response0) : Stored r [d]
  | more {d₀ d₁ : Delivery} {rest : List Delivery} (hcnt : r.responseCnt = 2)
      (h0 : d₀.respData = r.response0) (h1 : d₁.respData = r.response1) :
      Stored r (d₀::d₁::rest)

/-- The current request is the last one asked, and each has fair votes. -/
structure Fair (p : Poll) : Prop where
  rounds : ∀ x ∈ p.entries, ∃ n, x.delivery.round = n+1 ∧ n < p.asked.length
  unasked : p.asked = [] → p.request.fee = 0
  paramsHash : ∀ info, p.asked.getLast? = some info → p.request.paramsHash = info.paramsHash
  undecided : p.request.fee ≠ 0 → decisions p.entries p.asked.length = []
  stored : p.request.fee ≠ 0 → Stored p.request (votes p.entries p.asked.length)
  authentic : ∀ n info, p.asked[n]? = some info → ∀ d ∈ votes p.entries (n+1),
    isSgx d.sender ∧ d.paramsHash = info.paramsHash
  once : ∀ n, (decisions p.entries n).length ≤ 1
  backed : ∀ n, ∀ v ∈ decisions p.entries n, 2 ≤ (votes p.entries n).countP (·.respData = v)

variable {p p' : Poll} {c : Call} {id : UInt64}

theorem Fair.beyond (hp : p.Fair) {n : ℕ} (hn : p.asked.length < n) :
    votes p.entries n = [] ∧ decisions p.entries n = [] := by
  have hempty : p.entries.filter (·.delivery.round = n) = [] := by
    rw [List.filter_eq_nil_iff]
    intro x hx
    obtain ⟨k,hk,hlt⟩ := hp.rounds x hx
    simp only [decide_eq_true_eq]
    omega
  simp [votes,decisions,hempty]

theorem Fair.asked (hp : p.Fair) {r : Request} {info : RequestInfo}
    (hhash : r.paramsHash = info.paramsHash) (hcnt : r.responseCnt = 0) :
    Fair ⟨r,p.asked++[info],p.entries⟩ := by
  have hnew := hp.beyond (Nat.lt_succ_self p.asked.length)
  refine ⟨fun x hx => ?_,fun h => ?_,fun i hi => ?_,fun _ => ?_,fun _ => ?_,fun n i hi => ?_,
    hp.once,hp.backed⟩
  · obtain ⟨n,hn,hlt⟩ := hp.rounds x hx
    exact ⟨n,hn,by simpa using Nat.lt_succ_of_lt hlt⟩
  · simp at h
  · simp at hi
    exact hi ▸ hhash
  · simpa using hnew.2
  · simpa [hnew.1] using Stored.none hcnt
  · rcases Nat.lt_or_ge n p.asked.length with hlt | hge
    · exact hp.authentic n i (by rwa [List.getElem?_append_left hlt] at hi)
    · rw [(hp.beyond (Nat.lt_succ_of_le hge)).1]
      simp

/-- A vote that is counted, before anything is decided. -/
theorem Fair.vote (hp : p.Fair) {m : Msg} {paramsHash respData : Bytes32}
    (hc : p.Counts m paramsHash) {x : Purpose} {r : Request}
    (hdelivery : x.delivery = p.ballot m id paramsHash respData)
    (hvote : x.vote = some (p.ballot m id paramsHash respData)) (hdecision : x.decision = none)
    (hfee : r.fee = p.request.fee) (hhash : r.paramsHash = p.request.paramsHash)
    (hstored : Stored r (votes p.entries p.asked.length++[p.ballot m id paramsHash respData])) :
    Fair ⟨r,p.asked,p.entries++[x]⟩ := by
  have hround : x.delivery.round = p.asked.length := by
    rw [hdelivery]
    rfl
  have hasked : p.asked ≠ [] := fun h => hc.fee (hp.unasked h)
  have hpos := List.length_pos_iff.mpr hasked
  have hvotes : ∀ n, votes (p.entries++[x]) n = votes p.entries n++
      if p.asked.length = n then [p.ballot m id paramsHash respData] else [] := by
    intro n
    rw [votes_append,votes_singleton,hround,hvote]
    rfl
  have hdecisions : ∀ n, decisions (p.entries++[x]) n = decisions p.entries n := by
    intro n
    rw [decisions_append,decisions_singleton,hdecision]
    simp
  refine ⟨fun y hy => ?_,fun h => absurd h hasked,fun i hi => ?_,fun h => ?_,fun _ => ?_,
    fun n i hi d hd => ?_,fun n => ?_,fun n v hv => ?_⟩
  · rcases List.mem_append.mp hy with hy | hy
    · exact hp.rounds y hy
    · rw [List.mem_singleton.mp hy]
      exact ⟨p.asked.length-1,by omega,by dsimp only; omega⟩
  · rw [hhash]
    exact hp.paramsHash i hi
  · rw [hdecisions]
    exact hp.undecided (hfee ▸ h)
  · rw [hvotes,if_pos rfl]
    exact hstored
  · rw [hvotes,List.mem_append] at hd
    rcases hd with hd | hd
    · exact hp.authentic n i hi d hd
    · split_ifs at hd with hn
      · rw [List.mem_singleton.mp hd]
        have hlast : p.asked.getLast? = some i := by
          rw [List.getLast?_eq_getElem?,hn]
          exact hi
        exact ⟨hc.sender,hc.paramsHash.symm.trans (hp.paramsHash i hlast)⟩
      · simp at hd
  · rw [hdecisions]
    exact hp.once n
  · rw [hdecisions] at hv
    rw [hvotes,List.countP_append]
    exact (hp.backed n v hv).trans (Nat.le_add_right _ _)

/-- The one decision on a request, with two votes for it. -/
theorem Fair.decide (hp : p.Fair) (hfee : p.request.fee ≠ 0) {callbackFID : Bytes4}
    {d : Delivery} {v : Bytes32} (hround : d.round = p.asked.length)
    (hbacked : 2 ≤ (votes p.entries p.asked.length).countP (·.respData = v)) :
    Fair ⟨{p.request with fee := 0},p.asked,p.entries++[.callback callbackFID d v]⟩ := by
  have hvotes : ∀ n, votes (p.entries++[.callback callbackFID d v]) n = votes p.entries n := by
    intro n
    rw [votes_append,votes_singleton]
    simp [Purpose.vote]
  have hdecisions : ∀ n, decisions (p.entries++[.callback callbackFID d v]) n =
      decisions p.entries n++if p.asked.length = n then [v] else [] := by
    intro n
    rw [decisions_append,decisions_singleton,← hround]
    rfl
  have hasked : p.asked ≠ [] := fun h => hfee (hp.unasked h)
  have hpos := List.length_pos_iff.mpr hasked
  refine ⟨fun y hy => ?_,fun _ => rfl,hp.paramsHash,fun h => absurd rfl h,fun h => absurd rfl h,
    fun n i hi e he => ?_,fun n => ?_,fun n u hu => ?_⟩
  · rcases List.mem_append.mp hy with hy | hy
    · exact hp.rounds y hy
    · rw [List.mem_singleton.mp hy]
      exact ⟨p.asked.length-1,by simp only [Purpose.delivery]; omega,by dsimp only; omega⟩
  · rw [hvotes] at he
    exact hp.authentic n i hi e he
  · rw [hdecisions]
    split_ifs with hn
    · rw [← hn,hp.undecided hfee]
      simp
    · simpa using hp.once n
  · rw [hvotes]
    rw [hdecisions,List.mem_append] at hu
    rcases hu with hu | hu
    · exact hp.backed n u hu
    · split_ifs at hu with hn
      · rw [List.mem_singleton.mp hu,← hn]
        exact hbacked
      · simp at hu

theorem Wins.backed {r : Request} {L : List Delivery} {d : Delivery} {v : Bytes32}
    (hwins : Wins r d.respData v) (h0 : r.responseCnt ≠ 0) (h1 : r.responseCnt ≠ 1)
    (hL : Stored r L) : 2 ≤ (L++[d]).countP (·.respData = v) := by
  cases hL with
  | none h => exact absurd h h0
  | one h _ => exact absurd h h1
  | @more d₀ d₁ rest _ hd₀ hd₁ =>
      have hcount : (d₀::d₁::rest++[d]).countP (·.respData = v) =
          [d₀,d₁].countP (·.respData = v)+rest.countP (·.respData = v)+
            [d].countP (·.respData = v) := by
        simp only [← List.countP_append]
        rfl
      rw [hcount]
      cases hwins with
      | own h =>
          rcases h with h | h
          · simp [List.countP_cons,hd₀,h]
            omega
          · simp [List.countP_cons,hd₁,h]
            omega
      | others h =>
          simp [List.countP_cons,hd₀,hd₁,h]
          omega

theorem Stored.append {r : Request} {L : List Delivery} (d : Delivery) (hL : Stored r L)
    (h0 : r.responseCnt ≠ 0) (h1 : r.responseCnt ≠ 1) : Stored r (L++[d]) := by
  cases hL with
  | none h => exact absurd h h0
  | one h _ => exact absurd h h1
  | more hcnt h0 h1 => exact .more hcnt h0 h1

theorem Stored.first {r : Request} {L : List Delivery} (d : Delivery) (hL : Stored r L)
    (hcnt : r.responseCnt = 0) :
    Stored {r with response0 := d.respData, responseCnt := r.responseCnt+1} (L++[d]) := by
  cases hL with
  | none _ => exact .one (by simp [hcnt]) rfl
  | one h _ => simp [hcnt] at h
  | more h _ _ => simp [hcnt] at h

theorem Stored.second {r : Request} {L : List Delivery} (d : Delivery) (hL : Stored r L)
    (hcnt : r.responseCnt = 1) :
    Stored {r with response1 := d.respData, responseCnt := r.responseCnt+1} (L++[d]) := by
  cases hL with
  | none h => simp [hcnt] at h
  | one _ h0 => exact .more (by simp only [hcnt]; rfl) h0 rfl
  | more h _ _ => simp [hcnt] at h

theorem Fair.step (hp : p.Fair) (h : Step id p c p') : p'.Fair := by
  cases h with
  | quiet => exact hp
  | asked hhash hcnt => exact hp.asked hhash hcnt
  | @first m paramsHash respData hc hcnt =>
      exact hp.vote hc rfl rfl rfl rfl rfl
        ((hp.stored hc.fee).first (p.ballot m id paramsHash respData) hcnt)
  | @second m paramsHash respData hc hcnt =>
      exact hp.vote hc rfl rfl rfl rfl rfl
        ((hp.stored hc.fee).second (p.ballot m id paramsHash respData) hcnt)
  | aborted hc h0 h1 =>
      exact hp.vote hc rfl rfl rfl rfl rfl ((hp.stored hc.fee).append _ h0 h1)
  | @decided m paramsHash respData response hc h0 h1 hwins =>
      have hvote : Fair ⟨p.request,p.asked,
          p.entries++[.lastDelivery (p.ballot m id paramsHash respData)]⟩ :=
        hp.vote hc rfl rfl rfl rfl rfl ((hp.stored hc.fee).append _ h0 h1)
      refine hvote.decide hc.fee rfl ?_
      have hlast : votes (p.entries++[.lastDelivery (p.ballot m id paramsHash respData)])
          p.asked.length = votes p.entries p.asked.length++[p.ballot m id paramsHash respData] := by
        rw [votes_append,votes_singleton]
        exact congrArg _ (if_pos rfl)
      change 2 ≤ List.countP _ (votes (p.entries++[_]) p.asked.length)
      rw [hlast]
      exact Wins.backed (d := p.ballot m id paramsHash respData) hwins h0 h1 (hp.stored hc.fee)

/-- No account has given the same response twice. -/
def Distinct (p : Poll) : Prop :=
  ∀ n, ((votes p.entries n).map fun d => (d.sender,d.respData)).Nodup

/-- A delivery that counts does not repeat a response of its sender. -/
def Unrepeated (p : Poll) (id : UInt64) : Call → Prop
  | .message m (.deliver requestId paramsHash respData) =>
      requestId = id → p.Counts m paramsHash →
        ∀ d ∈ votes p.entries p.asked.length, d.sender = m.sender → d.respData ≠ respData
  | _ => True

theorem Distinct.vote (hp : p.Distinct) {x : Purpose} {d : Delivery} {r : Request}
    (hround : x.delivery.round = p.asked.length) (hvote : x.vote = some d)
    (hnew : ∀ e ∈ votes p.entries p.asked.length, e.sender = d.sender → e.respData ≠ d.respData) :
    Distinct ⟨r,p.asked,p.entries++[x]⟩ := by
  intro n
  rw [votes_append,votes_singleton,hround,hvote]
  split_ifs with hn
  · subst hn
    rw [Option.toList_some,List.map_append,List.map_singleton]
    rw [← List.concat_eq_append]
    refine (hp _).concat fun hmem => ?_
    obtain ⟨e,he,heq⟩ := List.mem_map.mp hmem
    rw [Prod.mk.injEq] at heq
    exact hnew e he heq.1 heq.2
  · simpa using hp n

theorem Distinct.step (hp : p.Distinct) (h : Step id p c p') (hc : p.Unrepeated id c) :
    p'.Distinct := by
  cases h with
  | quiet => exact hp
  | asked _ _ => exact hp
  | first hcounts _ => exact hp.vote rfl rfl (hc rfl hcounts)
  | second hcounts _ => exact hp.vote rfl rfl (hc rfl hcounts)
  | aborted hcounts _ _ => exact hp.vote rfl rfl (hc rfl hcounts)
  | @decided m paramsHash respData response hcounts _ _ _ =>
      intro n
      have hvote : Distinct ⟨p.request,p.asked,
          p.entries++[.lastDelivery (p.ballot m id paramsHash respData)]⟩ :=
        hp.vote rfl rfl (hc rfl hcounts)
      rw [votes_append,votes_singleton]
      simpa [Purpose.vote] using hvote n

/-- Two accounts gave this response with this hash. -/
def Agreed (L : List Delivery) (paramsHash v : Bytes32) : Prop :=
  ∃ d₁ ∈ L, ∃ d₂ ∈ L, d₁.sender ≠ d₂.sender ∧
    (isSgx d₁.sender ∧ d₁.paramsHash = paramsHash ∧ d₁.respData = v) ∧
    isSgx d₂.sender ∧ d₂.paramsHash = paramsHash ∧ d₂.respData = v

theorem Fair.agreed (hp : p.Fair) (hd : p.Distinct) {n : ℕ} {info : RequestInfo}
    (hn : p.asked[n]? = some info) {v : Bytes32} (hv : v ∈ decisions p.entries (n+1)) :
    Agreed (votes p.entries (n+1)) info.paramsHash v := by
  have hcount := hp.backed _ v hv
  rw [List.countP_eq_length_filter] at hcount
  have hnodup : (((votes p.entries (n+1)).filter (·.respData = v)).map
      fun d => (d.sender,d.respData)).Nodup :=
    (hd (n+1)).sublist (List.filter_sublist.map _)
  have hmem : ∀ d ∈ (votes p.entries (n+1)).filter (·.respData = v),
      d ∈ votes p.entries (n+1) ∧ isSgx d.sender ∧ d.paramsHash = info.paramsHash ∧
        d.respData = v := by
    intro d hd
    obtain ⟨hd,hr⟩ := List.mem_filter.mp hd
    obtain ⟨hs,hh⟩ := hp.authentic n info hn d hd
    exact ⟨hd,hs,hh,by simpa using hr⟩
  rcases heq : (votes p.entries (n+1)).filter (·.respData = v) with _ | ⟨d₁,_ | ⟨d₂,rest⟩⟩
  · simp [heq] at hcount
  · simp [heq] at hcount
  · rw [heq] at hnodup hmem
    obtain ⟨h₁,hs₁⟩ := hmem d₁ (by simp)
    obtain ⟨h₂,hs₂⟩ := hmem d₂ (by simp)
    refine ⟨d₁,h₁,d₂,h₂,fun h => ?_,hs₁,hs₂⟩
    simp [h,hs₁.2.2,hs₂.2.2] at hnodup

end Poll

section Code
variable {keccak : Bytes → Bytes32} {w : World} {id : UInt64}

@[simp] theorem poll_credit (v : UInt256) : poll (w.credit v) id = poll w id := rfl

theorem asked_emit [Tariff] {e : Event} (he : accepted id e = none) :
    asked (w.emit e) id = asked w id := by
  simp [asked,he]

theorem poll_emit {e : Event} (he : accepted id e = none) : poll (w.emit e) id = poll w id := by
  unfold poll
  rw [asked_emit he]
  rfl

@[simp] theorem poll_deliverLog (a : Address) (flag : ℤ) :
    poll (w.emit (.deliverLog a flag)) id = poll w id := poll_emit rfl

@[simp] theorem poll_deliverInfo (requestId : UInt64) (fee gasPrice callbackGas : UInt256)
    (paramsHash response : Bytes32) :
    poll (w.emit (.deliverInfo requestId fee gasPrice callbackGas paramsHash response)) id =
      poll w id := poll_emit rfl

@[simp] theorem poll_requestLog (flag : ℤ) : poll (w.emit (.requestLog flag)) id = poll w id :=
  poll_emit rfl

theorem poll_count (n : UInt64) : poll (w.set {w.storage with requestCnt := n}) id = poll w id :=
  rfl

@[simp] theorem poll_setRequest (requestId : UInt64) (r : Request) :
    poll (setRequest requestId r w) id =
      {poll w id with request := if id = requestId then r else (poll w id).request} := by
  simp [poll,setRequest,asked,entries,Function.update_apply]

/-- An entry on the list of transfers, wherever its ether goes. -/
def Poll.enter (p : Poll) (id : UInt64) (x : Purpose) : Poll :=
  {p with entries := p.entries++if x.delivery.requestId = id then [x] else []}

theorem Poll.enter_self (p : Poll) {x : Purpose} (hx : x.delivery.requestId = id) :
    p.enter id x = {p with entries := p.entries++[x]} := by
  simp [Poll.enter,hx]

theorem Poll.enter_other (p : Poll) {x : Purpose} (hx : x.delivery.requestId ≠ id) :
    p.enter id x = p := by
  simp [Poll.enter,hx]

@[simp] theorem poll_pay (a : Address) (v : UInt256) (x : Purpose) :
    poll (w.pay a v x) id = (poll w id).enter id x := by
  simp [poll,Poll.enter,asked,entries,List.filter_cons]

@[simp] theorem poll_keep (a : Address) (v : UInt256) (x : Purpose) :
    poll (w.keep a v x) id = (poll w id).enter id x := by
  simp [poll,Poll.enter,asked,entries,List.filter_cons]

@[simp] theorem poll_send (a : Address) (v : UInt256) (x : Purpose) :
    poll (send a v x w) id = (poll w id).enter id x := by
  unfold send
  by_cases hfunds : v.toNat ≤ w.balance
  · rw [if_pos hfunds,poll_pay]
  · rw [if_neg hfunds,poll_keep]

/-- What a piece of code leaves of each poll. -/
abbrev Polled (w : World) (c : Call) : World → Prop :=
  fun w' => ∀ id, Poll.Step id (poll w id) c (poll w' id)

theorem polled_of {w' : World} {c : Call} (requestId : UInt64)
    (h : Poll.Step requestId (poll w requestId) c (poll w' requestId))
    (hother : ∀ id, id ≠ requestId → poll w' id = poll w id) : Polled w c w' := by
  intro id
  by_cases hid : id = requestId
  · exact hid ▸ h
  · rw [hother id hid]
    exact .quiet

theorem polled_quiet {w' : World} {c : Call} (h : ∀ id, poll w' id = poll w id) :
    Polled w c w' := by
  intro id
  rw [h]
  exact .quiet

theorem polled_recorded {w₁ : World} {c : Call} (hw₁ : ∀ id, poll w₁ id = poll w id)
    {requestId : UInt64} {r : Request} {info : RequestInfo} (hid : info.id = requestId)
    (hmin : MIN_FEE ≤ info.fee) (hmax : info.fee ≤ MAX_FEE)
    (hhash : r.paramsHash = info.paramsHash) (hcnt : r.responseCnt = 0) :
    Polled w c ((setRequest requestId r w₁).emit (.requestInfo info)) := by
  subst hid
  refine polled_of info.id ?_ fun id hid => ?_
  · have hasked : asked ((setRequest info.id r w₁).emit (.requestInfo info)) info.id =
        (poll w info.id).asked++[info] := by
      rw [← hw₁]
      simp [asked,setRequest,accepted,hmin,hmax,poll]
    have hpoll : poll ((setRequest info.id r w₁).emit (.requestInfo info)) info.id =
        ⟨r,(poll w info.id).asked++[info],(poll w info.id).entries⟩ := by
      rw [← hasked,← hw₁]
      simp [poll,setRequest,entries]
    rw [hpoll]
    exact .asked hhash hcnt
  · have hnone : accepted id (.requestInfo info) = none := if_neg fun h => hid h.2.2.symm
    rw [poll_emit hnone,poll_setRequest,if_neg hid]
    exact hw₁ id

theorem polled_request (m : Msg) (requestType : UInt8) (callbackAddr : Address)
    (callbackFID : Bytes4) (requestData : List Bytes32) (c : Call) :
    (request keccak m requestType callbackAddr callbackFID requestData w).All (Polled w c)
      fun _ => True := by
  unfold request
  dsimp only
  split_ifs with hfee
  · refine polled_quiet fun id => ?_
    rw [poll_requestLog,poll_emit,poll_requestLog]
    refine if_neg ?_
    rintro ⟨hmin,hmax,-⟩
    exact hfee.elim (BitVec.not_lt.mpr hmin) (BitVec.not_lt.mpr hmax)
  · obtain ⟨hmin,hmax⟩ := not_or.mp hfee
    intro id
    rw [poll_requestLog]
    refine polled_recorded (fun id => (poll_count _).trans (poll_requestLog 0)) ?_ ?_ ?_
      ?_ ?_ id
    · rfl
    · exact BitVec.not_lt.mp hmin
    · exact BitVec.not_lt.mp hmax
    · rfl
    · rfl

/-- A counted delivery that ends with a payment. -/
theorem polled_send {w₁ : World} {c : Call} {a : Address} {v : UInt256} {x : Purpose}
    (requestId : UInt64) (hx : x.delivery.requestId = requestId)
    (hother : ∀ id, id ≠ requestId → poll w₁ id = poll w id)
    (h : Poll.Step requestId (poll w requestId) c
      ⟨(poll w₁ requestId).request,(poll w₁ requestId).asked,(poll w₁ requestId).entries++[x]⟩) :
    Polled w c (send a v x w₁) := by
  refine polled_of requestId ?_ fun id hid => ?_
  · rw [poll_send,Poll.enter_self _ hx]
    exact h
  · rw [poll_send,Poll.enter_other _ (hx ▸ hid.symm)]
    exact hother id hid

theorem polled_conclude {w₁ : World} (hw₁ : ∀ id, poll w₁ id = poll w id) (m : Msg)
    (d : Delivery) (response : Bytes32) {c : Call}
    (h : Poll.Step d.requestId (poll w d.requestId) c
      ⟨{(poll w d.requestId).request with fee := 0},(poll w d.requestId).asked,
        (poll w d.requestId).entries++[.lastDelivery d]++
          [.callback (poll w d.requestId).request.callbackFID d response]⟩) :
    (conclude m d response w₁).All (Polled w c) fun _ => True := by
  have hrecord : w₁.storage.requests d.requestId = (poll w d.requestId).request :=
    congrArg Poll.request (hw₁ d.requestId)
  -- Wherever the call stops, the vote and the callback are the new entries.
  have hcalled : ∀ w' : World,
      (∀ id, poll w' id = Poll.enter {(poll w id).enter id (.lastDelivery d) with
        request := if id = d.requestId then {(poll w d.requestId).request with fee := 0}
          else (poll w id).request} id
            (.callback (poll w d.requestId).request.callbackFID d response)) →
      Polled w c w' := by
    intro w' hw'
    refine polled_of d.requestId ?_ fun id hid => ?_
    · simpa [hw',Poll.enter,Purpose.delivery] using h
    · simp [hw',Poll.enter,Purpose.delivery,hid,hid.symm]
  unfold conclude
  dsimp only
  simp only [storage_send,Account.storage_emit,hrecord]
  refine Account.all_callOut _ ?_ ?_ trivial ?_
  · exact hcalled _ fun id => by simp [hw₁,Poll.enter]
  · exact hcalled _ fun id => by simp [hw₁,Poll.enter]
  · exact hcalled _ fun id => by simp [hw₁,Poll.enter]

theorem polled_deliver (m : Msg) (requestId : UInt64) (paramsHash respData : Bytes32) :
    (deliver m requestId paramsHash respData w).All
      (Polled w (.message m (.deliver requestId paramsHash respData))) fun _ => True := by
  unfold deliver turnAway
  dsimp only
  split_ifs with hfee hsender hhash h0 h1 hown hothers
  · exact polled_quiet fun id => by simp
  · exact polled_quiet fun id => by simp
  · refine polled_send requestId rfl (fun id hid => ?_) ?_
    · simp [hid]
    · simpa using .first ⟨hfee,hsender,not_not.mp hhash⟩ h0
  · refine polled_send requestId rfl (fun id hid => ?_) ?_
    · simp [hid]
    · simpa using .second ⟨hfee,hsender,not_not.mp hhash⟩ h1
  · exact polled_conclude (fun id => poll_deliverLog _ _) m
      ⟨m.sender,requestId,_,paramsHash,respData⟩ respData
      (.decided ⟨hfee,hsender,not_not.mp hhash⟩ h0 h1 (.own hown))
  · exact polled_conclude (fun id => poll_deliverLog _ _) m
      ⟨m.sender,requestId,_,paramsHash,respData⟩ _
      (.decided ⟨hfee,hsender,not_not.mp hhash⟩ h0 h1 (.others hothers))
  · refine polled_send requestId rfl (fun id _ => ?_) ?_
    · simp
    · simpa using .aborted ⟨hfee,hsender,not_not.mp hhash⟩ h0 h1
  · exact polled_quiet fun id => by simp

theorem polled_start (c : Call) : (start keccak c w).All (Polled w c) fun _ => True := by
  cases c with
  | forced value => exact polled_quiet fun id => poll_credit value
  | message m f =>
      cases f with
      | request t a f data =>
          have h : ((request keccak m t a f data (w.credit m.value)).All
              (Polled (w.credit m.value) (.message m (.request t a f data)))) fun _ => True :=
            polled_request m t a f data _
          exact h
      | deliver id paramsHash respData =>
          have h : (deliver m id paramsHash respData (w.credit m.value)).All
              (Polled (w.credit m.value) (.message m (.deliver id paramsHash respData)))
              fun _ => True :=
            polled_deliver m id paramsHash respData
          exact h

theorem polled_resume (k : Kont) (answer : Option Unit) :
    (resume k answer w).All (fun w' => ∀ id, poll w' id = poll w id) fun _ => True := by
  cases k
  exact fun id => poll_deliverLog 0 _

/-- A delivery that counts does not repeat a response of its sender. -/
def Unrepeated (s : Config World Kont) (a : Action Call Unit) (_ : Config World Kont) : Prop :=
  ∀ c, a = .call c → ∀ id, (poll s.world id).Unrepeated id c

def Fair (w : World) : Prop := ∀ id, (poll w id).Fair

def Distinct (w : World) : Prop := ∀ id, (poll w id).Distinct

theorem kept_fair {base : List (Frame World Kont)} :
    Kept (code keccak) Fair (fun _ => True) base where
  start c _ _ hw := (polled_start c).mono (fun _ h id => (hw id).step (h id)) fun _ h => h
  resume k answer _ _ hw := (polled_resume k answer).mono (fun _ h id => h id ▸ hw id) fun _ h => h

theorem kept_distinct {base : List (Frame World Kont)} :
    Kept ((code keccak).restrict fun c w => ∀ id, (poll w id).Unrepeated id c) Distinct
      (fun _ => True) base where
  start c w _ hw := by
    simp only [Code.restrict]
    split_ifs with hc
    · have hpolled : (start keccak c w).All (Polled w c) fun _ => True := polled_start c
      exact hpolled.mono (fun _ h id => (hw id).step (h id) (hc id)) fun _ h => h
    · trivial
  resume k answer _ _ hw := (polled_resume k answer).mono (fun _ h id => h id ▸ hw id) fun _ h => h

theorem fair_constructor (balance : ℕ) : Fair (constructor balance) := by
  intro id
  constructor <;> simp [poll,asked,entries,constructor,votes,decisions]

theorem distinct_constructor (balance : ℕ) : Distinct (constructor balance) := by
  intro id n
  simp [poll,entries,constructor,votes]

end Code

section Runs
variable {keccak : Bytes → Bytes32} {balance : ℕ}

theorem Poll.Fair.decided {p : Poll} (hp : p.Fair) {n : ℕ} {v : Bytes32}
    (hv : v ∈ decisions p.entries n) : ∃ k info, n = k+1 ∧ p.asked[k]? = some info := by
  obtain ⟨x,hx,hn,-⟩ := mem_decisions.mp hv
  obtain ⟨k,hk,hlt⟩ := hp.rounds x hx
  exact ⟨k,_,hn.symm.trans hk,List.getElem?_eq_getElem hlt⟩

/-- In every run there is at most one callback for a request. In a run in which no
account of an enclave has the same response counted twice for one request, each
callback has the votes of two such accounts, with the hash of the request. -/
theorem two_enclaves_vote :
    (∀ s, Reach (code keccak) (fun _ _ _ => True) (constructor balance) s →
      ∀ id n, (decisions (entries s.world id) n).length ≤ 1) ∧
    ∀ s, Reach (code keccak) Unrepeated (constructor balance) s →
      ∀ id n, ∀ v ∈ decisions (entries s.world id) n,
        ∃ k info, n = k+1 ∧ (asked s.world id)[k]? = some info ∧
          Poll.Agreed (votes (entries s.world id) n) info.paramsHash v := by
  refine ⟨fun s h id n => ?_,fun s h id n v hv => ?_⟩
  · have hfair : Above Fair (fun _ => True) [] s := kept_fair.reach (fair_constructor balance) h
    exact (hfair.1 id).once n
  · have hfair : Above Fair (fun _ => True) [] s := kept_fair.reach (fair_constructor balance) h
    have hdistinct : Above Distinct (fun _ => True) [] s :=
      kept_distinct.reach (distinct_constructor balance) (h.restrict fun _ c _ ha => ha c rfl)
    obtain ⟨k,info,rfl,hinfo⟩ := (hfair.1 id).decided hv
    exact ⟨k,info,rfl,hinfo,(hfair.1 id).agreed (hdistinct.1 id) hinfo hv⟩

end Runs

/-- A request with the largest fee, and a delivery for it. -/
def askCall : Call := .message ⟨7,MAX_FEE,1,0,0⟩ (.request 1 8 9 [])

def voteCall (sender : Address) (respData : Bytes32) : Call :=
  .message ⟨sender,0,1,0,0⟩ (.deliver 1 3 respData)

theorem unrepeated_deliver {s s' : Config World Kont} {m : Msg} {requestId : UInt64}
    {paramsHash respData : Bytes32}
    (hnew : ∀ d ∈ votes (entries s.world requestId) (asked s.world requestId).length,
      d.sender = m.sender → d.respData ≠ respData) :
    Unrepeated s (.call (.message m (.deliver requestId paramsHash respData))) s' := by
  rintro c ⟨⟩ id rfl -
  exact hnew

theorem two_enclaves_vote_pair : ∃ (s : Config World Kont) (k : ℕ) (info : RequestInfo),
    (asked s.world 1)[k]? = some info ∧ Poll.Agreed (votes (entries s.world 1) 1) info.paramsHash 6 := by
  have h₁ : Reach (code fun _ => 3) Unrepeated (constructor 0) _ :=
    .step (.call askCall) .start rfl fun c hc => by
      cases hc
      exact fun _ => trivial
  have h₂ : Reach (code fun _ => 3) Unrepeated (constructor 0) _ :=
    .step (.call (voteCall SGX1_ADDRESS 6)) h₁ rfl (unrepeated_deliver (by decide))
  have h₃ : Reach (code fun _ => 3) Unrepeated (constructor 0) _ :=
    .step (.call (voteCall SGX2_ADDRESS 6)) h₂ rfl (unrepeated_deliver (by decide))
  have h₄ : Reach (code fun _ => 3) Unrepeated (constructor 0) _ :=
    .step (.call (voteCall SGX1_ADDRESS 5)) h₃ rfl (unrepeated_deliver (by decide))
  obtain ⟨k,info,-,hinfo,hagreed⟩ := two_enclaves_vote.2 _ h₄ 1 1 6 (by decide)
  exact ⟨_,k,info,hinfo,hagreed⟩

theorem not_agreed {L : List Delivery} (a : Address) (hL : ∀ d ∈ L, d.sender = a)
    {paramsHash v : Bytes32} : ¬Poll.Agreed L paramsHash v := by
  rintro ⟨d₁,h₁,d₂,h₂,hne,-⟩
  exact hne ((hL d₁ h₁).trans (hL d₂ h₂).symm)

/-- One account delivers the same response three times. -/
theorem one_account_decides : ∃ s, Reach (code fun _ => 3) (fun _ _ _ => True) (constructor 0) s ∧
    ∃ v ∈ decisions (entries s.world 1) 1,
      ∀ paramsHash, ¬Poll.Agreed (votes (entries s.world 1) 1) paramsHash v := by
  have h₁ : Reach (code fun _ => 3) (fun _ _ _ => True) (constructor 0) _ :=
    .step (.call askCall) .start rfl trivial
  have h₂ : Reach (code fun _ => 3) (fun _ _ _ => True) (constructor 0) _ :=
    .step (.call (voteCall SGX1_ADDRESS 6)) h₁ rfl trivial
  have h₃ : Reach (code fun _ => 3) (fun _ _ _ => True) (constructor 0) _ :=
    .step (.call (voteCall SGX1_ADDRESS 6)) h₂ rfl trivial
  have h₄ : Reach (code fun _ => 3) (fun _ _ _ => True) (constructor 0) _ :=
    .step (.call (voteCall SGX1_ADDRESS 6)) h₃ rfl trivial
  refine ⟨_,h₄,6,by decide,fun paramsHash => not_agreed SGX1_ADDRESS ?_⟩
  decide

end TownCrier.TownCrierVote
