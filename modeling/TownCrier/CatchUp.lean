import TownCrier.Attempts

/-!
# What the relay catches up with

Without exceptions the two loops hand every entry to the enclave and send its
transaction, in the order of the entries. `catchup` reconstructs the open
requests from the log: it takes those without a `DeliverInfo`, unless the
counter of the contract says that there are none.
-/
namespace TownCrier.Relay
open BigEndian CallMachine Contract Delivery Evm RpcServer Transition

/-- The entries of `catchup`, once it has read the counter. -/
def State.entries (c : Chain) (s : State) : List ℕ :=
  match s.counterBlock, s.uptoBlock with
  | some counterBlock, some uptoBlock => catchupEntries c counterBlock uptoBlock
  | _, _ => []

/-- The entries which the filter has reported. -/
def State.reported (c : Chain) (s : State) : List ℕ :=
  match s.filterBlock, s.phase.cursor? with
  | some block, some cursor => List.range' (c.events block) (cursor-c.events block)
  | _, _ => []

/-- The entries of a running loop which the enclave has not got yet. -/
def Phase.unhanded : Phase → List ℕ
  | .running _ queue (.responded ..) | .running _ queue (.sent _) => queue.tail
  | .running _ queue _ => queue
  | _ => []

/-- The entries of a running loop without a transaction. -/
def Phase.unsent : Phase → List ℕ
  | .running _ queue (.sent _) => queue.tail
  | .running _ queue _ => queue
  | _ => []

/-- What the loops went over, and where the three block numbers stand. -/
structure Traced (c : Chain) (s : State) : Prop where
  handed : s.caught++s.polled++s.phase.unhanded = s.entries c++s.reported c
  sent : s.sent.map (·.event)++s.phase.unsent = s.entries c++s.reported c
  started : s.phase = .started → s.uptoBlock = none ∧ s.counterBlock = none
  catchup : ∀ block, s.phase = .catchup block → s.uptoBlock = some block ∧ s.counterBlock = none
  before : s.phase.cursor? = none → s.filterBlock = none ∧ s.polled = []
  after : ∀ cursor, s.phase.cursor? = some cursor → s.caught = s.entries c ∧
    ∃ block, s.filterBlock = some block ∧ c.events block ≤ cursor
  upto : ∀ block, s.uptoBlock = some block →
    block ≤ s.head ∧ ∀ later, s.filterBlock = some later → block ≤ later

variable {c : Chain} {s s' : State} {a : Action}

theorem unhanded_over (loop : Loop) (queue : List ℕ) : (loop.over queue).unhanded = queue := by
  cases loop <;> cases queue <;> rfl

theorem unsent_over (loop : Loop) (queue : List ℕ) : (loop.over queue).unsent = queue := by
  cases loop <;> cases queue <;> rfl

theorem over_ne_started {loop : Loop} {queue : List ℕ} : loop.over queue ≠ .started := by
  cases loop <;> cases queue <;> simp [Loop.over]

theorem over_ne_catchup {loop : Loop} {queue : List ℕ} {block : ℕ} :
    loop.over queue ≠ .catchup block := by
  cases loop <;> cases queue <;> simp [Loop.over]

theorem cursor_running (loop : Loop) (queue queue' : List ℕ) (stage stage' : Stage) :
    (Phase.running loop queue stage).cursor? = (Phase.running loop queue' stage').cursor? := by
  cases loop <;> rfl

theorem cursor_over_running (loop : Loop) (queue queue' : List ℕ) (stage : Stage) :
    (loop.over queue).cursor? = (Phase.running loop queue' stage).cursor? := by
  cases loop <;> cases queue <;> rfl

/-- A step inside a loop leaves all but the lists of that loop as they are. -/
structure Inside (s s' : State) : Prop where
  head : s'.head = s.head
  uptoBlock : s'.uptoBlock = s.uptoBlock
  counterBlock : s'.counterBlock = s.counterBlock
  filterBlock : s'.filterBlock = s.filterBlock
  cursor : s'.phase.cursor? = s.phase.cursor?
  started : s'.phase ≠ .started
  catchup : ∀ block, s'.phase ≠ .catchup block

theorem Inside.entries (h : Inside s s') : s'.entries c = s.entries c := by
  rw [State.entries,State.entries,h.counterBlock,h.uptoBlock]

theorem Inside.reported (h : Inside s s') : s'.reported c = s.reported c := by
  rw [State.reported,State.reported,h.filterBlock,h.cursor]

theorem Traced.inside (hs : Traced c s) (h : Inside s s')
    (hhanded : s'.caught++s'.polled++s'.phase.unhanded = s.caught++s.polled++s.phase.unhanded)
    (hsent : s'.sent.map (·.event)++s'.phase.unsent = s.sent.map (·.event)++s.phase.unsent)
    (hpolled : s.phase.cursor? = none → s'.polled = s.polled)
    (hcaught : s.phase.cursor? ≠ none → s'.caught = s.caught) : Traced c s' where
  handed := by rw [hhanded,hs.handed,h.entries,h.reported]
  sent := by rw [hsent,hs.sent,h.entries,h.reported]
  started := fun hphase => absurd hphase h.started
  catchup := fun block hphase => absurd hphase (h.catchup block)
  before := fun hc => by
    rw [h.cursor] at hc
    rw [h.filterBlock,hpolled hc]
    exact hs.before hc
  after := fun cursor hc => by
    rw [h.cursor] at hc
    rw [h.filterBlock,h.entries,hcaught (by simp [hc])]
    exact hs.after cursor hc
  upto := fun block hb => by
    rw [h.uptoBlock] at hb
    rw [h.filterBlock,h.head]
    exact hs.upto block hb

theorem traced_initial (head : ℕ) : Traced c (initial head) where
  handed := rfl
  sent := rfl
  started := fun _ => ⟨rfl,rfl⟩
  catchup := fun block h => by cases h
  before := fun _ => ⟨rfl,rfl⟩
  after := fun cursor h => by cases h
  upto := fun block h => by cases h

theorem entries_uncounted (h : s.counterBlock = none) : s.entries c = [] := by
  rw [State.entries,h]

theorem reported_unwatched (h : s.filterBlock = none) : s.reported c = [] := by
  rw [State.reported,h]

/-- Nothing has been handed over before the counter is read. -/
theorem Traced.untouched (hs : Traced c s) (hc : s.counterBlock = none)
    (hf : s.filterBlock = none) : s.caught = [] ∧ s.sent = [] := by
  have hhanded := hs.handed
  have hsent := hs.sent
  rw [entries_uncounted hc,reported_unwatched hf] at hhanded hsent
  simp only [List.append_nil,List.append_eq_nil_iff,List.map_eq_nil_iff] at hhanded hsent
  exact ⟨hhanded.1.1,hsent.1⟩

theorem range'_split {first middle last : ℕ} (h : first ≤ middle) (h' : middle ≤ last) :
    List.range' first (last-first) =
      List.range' first (middle-first)++List.range' middle (last-middle) := by
  have happend := List.range'_append_1 (s := first) (m := middle-first) (n := last-middle)
  rw [Nat.add_sub_of_le h] at happend
  rw [happend]
  congr 1
  omega

theorem Traced.mine (hs : Traced c s) : Traced c {s with head := s.head+1} where
  handed := hs.handed
  sent := hs.sent
  started := hs.started
  catchup := hs.catchup
  before := hs.before
  after := hs.after
  upto block hb := ⟨(hs.upto block hb).1.trans (Nat.le_succ _),(hs.upto block hb).2⟩

/-- Before the counter is read and the filter created. -/
structure Fresh (s : State) : Prop where
  counterBlock : s.counterBlock = none
  filterBlock : s.filterBlock = none
  caught : s.caught = []
  polled : s.polled = []
  sent : s.sent = []

theorem Traced.fresh (hs : Traced c s) (hcounter : s.counterBlock = none)
    (hcursor : s.phase.cursor? = none) : Fresh s := by
  obtain ⟨hfilter,hpolled⟩ := hs.before hcursor
  obtain ⟨hcaught,hsent⟩ := hs.untouched hcounter hfilter
  exact ⟨hcounter,hfilter,hcaught,hpolled,hsent⟩

theorem Traced.blockNumber (hs : Traced c s) (h : s.phase = .started) :
    Traced c {s with phase := .catchup s.head, uptoBlock := some s.head} := by
  obtain ⟨hcounter,hfilter,hcaught,hpolled,hsent⟩ := hs.fresh (hs.started h).2 (by rw [h]; rfl)
  refine ⟨?_,?_,nofun,?_,fun _ => ⟨hfilter,hpolled⟩,nofun,?_⟩
  · simp [hcaught,hpolled,State.entries,hcounter,State.reported,hfilter,Phase.unhanded]
  · simp [hsent,State.entries,hcounter,State.reported,hfilter,Phase.unsent]
  · rintro block ⟨⟩
    exact ⟨rfl,hcounter⟩
  · rintro block ⟨⟩
    exact ⟨le_rfl,fun later hl => by cases hfilter.symm.trans hl⟩

theorem Traced.skipCatchup (hs : Traced c s) (h : s.phase = .started) :
    Traced c {s with phase := .ready} := by
  obtain ⟨hcounter,hfilter,hcaught,hpolled,hsent⟩ := hs.fresh (hs.started h).2 (by rw [h]; rfl)
  refine ⟨?_,?_,nofun,nofun,fun _ => ⟨hfilter,hpolled⟩,nofun,?_⟩
  · simp [hcaught,hpolled,State.entries,hcounter,State.reported,hfilter,Phase.unhanded]
  · simp [hsent,State.entries,hcounter,State.reported,hfilter,Phase.unsent]
  · exact fun block hb => by cases (hs.started h).1.symm.trans hb

/-- The entries are fixed when the counter has been read. -/
theorem Traced.caughtUp (hs : Traced c s) {uptoBlock : ℕ} (h : s.phase = .catchup uptoBlock) :
    Traced c {s with
      phase := Loop.catchup.over (catchupEntries c s.head uptoBlock)
      counterBlock := some s.head} := by
  obtain ⟨hupto,hcounter⟩ := hs.catchup uptoBlock h
  obtain ⟨-,hfilter,hcaught,hpolled,hsent⟩ := hs.fresh hcounter (by rw [h]; rfl)
  refine ⟨?_,?_,fun hphase => absurd hphase over_ne_started,
    fun block hphase => absurd hphase over_ne_catchup,fun _ => ⟨hfilter,hpolled⟩,?_,hs.upto⟩
  · simp [hcaught,hpolled,State.entries,hupto,State.reported,hfilter,unhanded_over]
  · simp [hsent,State.entries,hupto,State.reported,hfilter,unsent_over]
  · exact fun cursor hc => by cases (cursor_over_catchup _).symm.trans hc

theorem Traced.createFilter (hs : Traced c s) (h : s.phase = .ready) :
    Traced c {s with phase := .polling (c.events s.head), filterBlock := some s.head} := by
  obtain ⟨hfilter,hpolled⟩ := hs.before (by rw [h]; rfl)
  have hhanded := hs.handed
  have hsent := hs.sent
  rw [h,reported_unwatched hfilter] at hhanded hsent
  simp only [hpolled,Phase.unhanded,Phase.unsent,List.append_nil] at hhanded hsent
  have hempty : List.range' (c.events s.head) (c.events s.head-c.events s.head) = [] := by
    rw [Nat.sub_self,List.range'_zero]
  refine ⟨?_,?_,nofun,nofun,nofun,?_,?_⟩
  · change s.caught++s.polled++[] = s.entries c++_
    rw [hpolled,List.append_nil,List.append_nil,hhanded]
    exact (congrArg _ hempty).trans (List.append_nil _) |>.symm
  · change s.sent.map (·.event)++[] = s.entries c++_
    rw [List.append_nil,hsent]
    exact (congrArg _ hempty).trans (List.append_nil _) |>.symm
  · rintro cursor ⟨⟩
    exact ⟨hhanded,s.head,rfl,le_rfl⟩
  · intro block hb
    refine ⟨(hs.upto block hb).1,?_⟩
    rintro later ⟨⟩
    exact (hs.upto block hb).1

/-- The filter reports what has come since the last time. -/
theorem Traced.getNewEntries (hs : Traced c s) {cursor : ℕ} (h : s.phase = .polling cursor)
    (hnew : cursor ≤ c.events s.head) :
    Traced c {s with
      phase := (Loop.wait (c.events s.head)).over
        (List.range' cursor (c.events s.head-cursor))} := by
  obtain ⟨hcaught,block,hblock,hle⟩ := hs.after cursor (by rw [h]; rfl)
  have hreported : s.reported c = List.range' (c.events block) (cursor-c.events block) := by
    rw [State.reported,hblock,h]
    rfl
  have hhanded := hs.handed
  have hsent := hs.sent
  rw [h] at hhanded hsent
  simp only [Phase.unhanded,Phase.unsent,List.append_nil] at hhanded hsent
  have hrange : List.range' (c.events block) (c.events s.head-c.events block) =
      s.reported c++List.range' cursor (c.events s.head-cursor) := by
    rw [hreported,range'_split hle hnew]
  refine ⟨?_,?_,fun hphase => absurd hphase over_ne_started,
    fun block hphase => absurd hphase over_ne_catchup,?_,?_,hs.upto⟩
  · rw [State.reported]
    dsimp only
    rw [hblock,cursor_over,unhanded_over,hhanded,List.append_assoc]
    exact congrArg (s.entries c++·) hrange.symm
  · rw [State.reported]
    dsimp only
    rw [hblock,cursor_over,unsent_over,hsent,List.append_assoc]
    exact congrArg (s.entries c++·) hrange.symm
  · exact fun hc => by cases (cursor_over _ _).symm.trans hc
  · intro place hc
    cases (cursor_over _ _).symm.trans hc
    exact ⟨hcaught,block,hblock,hle.trans hnew⟩

theorem Traced.getTransactionCount (hs : Traced c s) {loop : Loop} {i : ℕ} {queue : List ℕ}
    (h : s.phase = .running loop (i::queue) .next) :
    Traced c {s with
      phase := .running loop (i::queue) (.counted (c.transactionCount s.head))
      countBlock := some s.head} := by
  have hinside : Inside s {s with
      phase := .running loop (i::queue) (.counted (c.transactionCount s.head))
      countBlock := some s.head} :=
    ⟨rfl,rfl,rfl,rfl,by rw [h]; exact cursor_running ..,nofun,nofun⟩
  exact hs.inside hinside (by rw [h]; rfl) (by rw [h]; rfl) (fun _ => rfl) fun _ => rfl

/-- The entry goes to the list of its loop. -/
theorem Traced.process (hs : Traced c s) {loop : Loop} {i : ℕ} {queue : List ℕ} {nonce : ℕ}
    (h : s.phase = .running loop (i::queue) (.counted nonce)) (response : Bytes) :
    Traced c {s.hand i loop with
      phase := .running loop (i::queue) (.responded nonce response)} := by
  cases loop with
  | catchup =>
      have hpolled := (hs.before (by rw [h]; rfl)).2
      refine hs.inside ⟨rfl,rfl,rfl,rfl,by rw [h]; rfl,nofun,nofun⟩ ?_ (by rw [h]; rfl)
        (fun _ => rfl) fun hc => absurd (by rw [h]; rfl) hc
      simp [State.hand,h,hpolled,Phase.unhanded]
  | wait cursor =>
      refine hs.inside ⟨rfl,rfl,rfl,rfl,by rw [h]; rfl,nofun,nofun⟩ ?_ (by rw [h]; rfl)
        (fun hc => by rw [h] at hc; cases hc) fun _ => rfl
      simp [State.hand,h,Phase.unhanded]

theorem Traced.sendRawTransaction (hs : Traced c s) {loop : Loop} {i : ℕ} {queue : List ℕ}
    {nonce : ℕ} {response : Bytes}
    (h : s.phase = .running loop (i::queue) (.responded nonce response)) :
    Traced c {s with
      phase := .running loop (i::queue) (.sent nonce), sent := s.sent++[⟨i,nonce,response⟩]} := by
  have hinside : Inside s {s with
      phase := .running loop (i::queue) (.sent nonce)
      sent := s.sent++[⟨i,nonce,response⟩]} :=
    ⟨rfl,rfl,rfl,rfl,by rw [h]; exact cursor_running ..,nofun,nofun⟩
  refine hs.inside hinside (by rw [h]; rfl) ?_ (fun _ => rfl) fun _ => rfl
  simp [h,Phase.unsent]

theorem Traced.waitForTransactionReceipt (hs : Traced c s) {loop : Loop} {i : ℕ} {queue : List ℕ}
    {nonce : ℕ} (h : s.phase = .running loop (i::queue) (.sent nonce)) :
    Traced c {s with phase := loop.over queue} := by
  have hinside : Inside s {s with phase := loop.over queue} :=
    ⟨rfl,rfl,rfl,rfl,by rw [h]; exact cursor_over_running ..,over_ne_started,
      fun _ => over_ne_catchup⟩
  refine hs.inside hinside ?_ ?_ (fun _ => rfl) fun _ => rfl
  · dsimp only
    rw [unhanded_over,h]
    rfl
  · dsimp only
    rw [unsent_over,h]
    rfl

theorem Traced.moves (hs : Traced c s) (hplaced : Placed c s) (h : Moves c s a s')
    (ha : Calm s a) : Traced c s' := by
  cases h with
  | mine => exact hs.mine
  | blockNumber h => exact hs.blockNumber h
  | skipCatchup h => exact hs.skipCatchup h
  | catchup h => exact hs.caughtUp h
  | createFilter h => exact hs.createFilter h
  | getNewEntries h => exact hs.getNewEntries h (hplaced.cursor _ (by rw [h]; rfl))
  | getTransactionCount h => exact hs.getTransactionCount h
  | process h => exact hs.process h _
  | sendRawTransaction h => exact hs.sendRawTransaction h
  | waitForTransactionReceipt h hmined => exact hs.waitForTransactionReceipt h
  | raise h => exact absurd rfl (ha _ _)

theorem goes_traced {head : ℕ} (h : Goes c (initial head) s) : Placed c s ∧ Traced c s :=
  h.kept (I := fun s => Placed c s ∧ Traced c s) ⟨placed_initial head,traced_initial head⟩
    fun _ a _ hs hstep ha =>
      ⟨hs.1.moves (step_moves hstep),hs.2.moves (a := a) hs.1 (step_moves hstep) ha⟩

theorem Traced.ready (hs : Traced c s) (h : s.phase = .ready) :
    s.caught = s.entries c ∧ s.sent.map (·.event) = s.entries c := by
  obtain ⟨hfilter,hpolled⟩ := hs.before (by rw [h]; rfl)
  have hhanded := hs.handed
  have hsent := hs.sent
  rw [h,reported_unwatched hfilter] at hhanded hsent
  simp only [hpolled,Phase.unhanded,Phase.unsent,List.append_nil] at hhanded hsent
  exact ⟨hhanded,hsent⟩

/-- The numbers of the requests of certain events. -/
def eventIds (w : World) (events : List ℕ) : List UInt64 :=
  events.filterMap fun i => (infos w)[i]?.map (·.id)

/-- These are the numbers of the accepted requests whose stored fee is not the
flag of a delivery. -/
def Exact (w : World) (ids : List UInt64) : Prop :=
  ∀ id, id ∈ ids ↔ ∃ i ∈ infos w, i.id = id ∧ (w.storage.requests id).fee ≠ DELIVERED_FEE_FLAG

theorem mem_unprocessed {w : World} {i : ℕ} :
    i ∈ unprocessed w ↔ ∃ info, (infos w)[i]? = some info ∧ info.id ∉ delivers w := by
  simp only [unprocessed,List.mem_map,List.mem_filter,Prod.exists,decide_eq_true_eq]
  constructor
  · rintro ⟨info,j,⟨hmem,hid⟩,rfl⟩
    exact ⟨info,List.mem_zipIdx_iff_getElem?.mp hmem,hid⟩
  · rintro ⟨info,hget,hid⟩
    exact ⟨info,i,⟨List.mem_zipIdx_iff_getElem?.mpr hget,hid⟩,rfl⟩

theorem mem_eventIds_unprocessed {w : World} {id : UInt64} :
    id ∈ eventIds w (unprocessed w) ↔ ∃ info ∈ infos w, info.id = id ∧ id ∉ delivers w := by
  simp only [eventIds,List.mem_filterMap,mem_unprocessed,Option.map_eq_some_iff]
  constructor
  · rintro ⟨i,⟨info,hget,hid⟩,info',hget',rfl⟩
    obtain rfl := Option.some.inj (hget.symm.trans hget')
    exact ⟨info,List.mem_of_getElem? hget,rfl,hid⟩
  · rintro ⟨info,hmem,rfl,hid⟩
    obtain ⟨i,hget⟩ := List.mem_iff_getElem?.mp hmem
    exact ⟨i,⟨info,hget,hid⟩,info,hget,rfl⟩

section Exact
variable {keccak : Bytes → Bytes32} {owner : Address} {balance : ℕ} {y : Config World Kont}

/-- The log shows the open requests just when no cancelled request was closed. -/
theorem unprocessed_exact_iff (hy : Contract.Run keccak owner balance y) (hstack : y.stack = []) :
    Exact y.world (eventIds y.world (unprocessed y.world)) ↔ charged y.world = [] := by
  have hw := run_inv hy
  simp only [Exact,mem_eventIds_unprocessed,delivers_iff hy hstack]
  constructor
  · intro h
    rw [List.eq_nil_iff_forall_not_mem]
    intro id hid
    obtain ⟨i,hi,rfl⟩ := hw.info_of_charged hid
    rcases hw.closed_cases hi with ⟨-,-,hcharged⟩ | ⟨-,-,hcharged⟩ | ⟨hfee,hanswered,-⟩
    · exact hcharged hid
    · exact hcharged hid
    · obtain ⟨-,-,-,hne⟩ := (h i.id).mp ⟨i,hi,rfl,hanswered⟩
      exact hne hfee
  · intro h id
    refine exists_congr fun i => and_congr_right fun hi => and_congr_right ?_
    rintro rfl
    rcases hw.closed_cases hi with ⟨hfee,hanswered,-⟩ | ⟨hfee,hanswered,-⟩ | ⟨-,-,hcharged⟩
    · exact iff_of_true hanswered hfee
    · exact iff_of_false (not_not.mpr hanswered) (not_not.mpr hfee)
    · rw [h] at hcharged
      exact absurd hcharged List.not_mem_nil

theorem nothing_exact (hy : Contract.Run keccak owner balance y)
    (hzero : y.world.storage.unrespondedCnt = 0) : Exact y.world (eventIds y.world []) := by
  refine fun id => iff_of_false List.not_mem_nil ?_
  rintro ⟨i,-,-,hne⟩
  exact hne ((run_inv hy).all_settled hzero id)

/-- Where `catchup` has run up to a block, and nobody else has sent a
transaction before it read the counter: it asked the enclave and sent a
transaction for the same requests, and these are the open requests just when
there are none or no cancelled request was ever closed. -/
theorem catchup_exact_iff (hy : Contract.Run keccak owner balance y) (hstack : y.stack = [])
    {head uptoBlock counterBlock : ℕ} (h : Goes c (initial head) s) (hready : s.phase = .ready)
    (hupto : s.uptoBlock = some uptoBlock) (hcounter : s.counterBlock = some counterBlock)
    (hworld : c.world uptoBlock = y.world) (hquiet : c.world counterBlock = y.world) :
    s.sent.map (·.event) = s.caught ∧
    (Exact y.world (eventIds y.world s.caught) ↔
      y.world.storage.unrespondedCnt = 0 ∨ charged y.world = []) := by
  obtain ⟨hcaught,hsent⟩ := (goes_traced h).2.ready hready
  refine ⟨hsent.trans hcaught.symm,?_⟩
  rw [hcaught,State.entries,hcounter,hupto]
  dsimp only
  rw [catchupEntries,hquiet,hworld]
  split_ifs with hzero
  · exact iff_of_true (nothing_exact hy hzero) (.inl hzero)
  · rw [unprocessed_exact_iff hy hstack]
    exact ⟨.inr,fun h => h.resolve_left hzero⟩

end Exact

section Sample

def requestBy (sender : Address) : Call := .message ⟨sender,2*10^15,1,0,0⟩ (.request 1 9 0 0 [5])

def after (y : Config World Kont) (call : Call) : Config World Kont :=
  settle y.world y.stack (Contract.start sampleEnclave.keccak call y.world)

def asked : Config World Kont := after ⟨Contract.constructor 5 0,[]⟩ (requestBy 7)

theorem asked_run : Contract.Run sampleEnclave.keccak 5 0 asked :=
  .step (.call (requestBy 7)) .start rfl ⟨by decide,by decide,by decide⟩

/-- The same world after each block. -/
def still (w : World) : Chain where
  world := fun _ => w
  transactionCount := id
  grows := fun _ => List.prefix_rfl
  counts := monotone_id

def caughtUp : State := ⟨1,.ready,some 0,some 0,none,[0],[],[⟨0,0,[7]⟩],some 0,[]⟩

theorem caughtUp_run : Goes (still asked.world) (initial 0) caughtUp := by
  have hcaught : Goes (still asked.world) (initial 0)
      ⟨0,.running .catchup [0] .next,some 0,some 0,none,[],[],[],none,[]⟩ := by
    refine .step .catchup (.step .blockNumber .start rfl ?_) rfl ?_
    all_goals simp [Calm]
  have hsent : Goes (still asked.world) (initial 0)
      ⟨1,.running .catchup [0] (.sent 0),some 0,some 0,none,[0],[],[⟨0,0,[7]⟩],some 0,[]⟩ := by
    refine .step .mine (.step .sendRawTransaction
      (.step (.process oneByte [7]) (.step .getTransactionCount hcaught rfl ?_) rfl ?_)
      rfl ?_) rfl ?_
    all_goals simp [Calm]
  exact .step .waitForTransactionReceipt hsent rfl (by simp [Calm])

theorem catchup_exact_iff_asked : Exact asked.world (eventIds asked.world caughtUp.caught) :=
  (catchup_exact_iff asked_run rfl caughtUp_run rfl rfl rfl rfl rfl).2.mpr (.inr rfl)

/-- The first of two requests is cancelled, and then closed. -/
def cancelled : Config World Kont := after (after asked (requestBy 8)) (.message ⟨7,0,1,0,0⟩ (.cancel 1))

def refunded : Config World Kont :=
  settle (after asked (requestBy 8)).world []
    (Contract.resume (.cancelRefund ⟨7,0,1,0,0⟩ 1) (some ()) cancelled.world)

def closed : Config World Kont := after refunded (.message ⟨SGX_ADDRESS,0,1,0,0⟩ (.deliver 1 3 0 0))

theorem closed_run : Contract.Run sampleEnclave.keccak 5 0 closed := by
  have htwo : Contract.Run sampleEnclave.keccak 5 0 (after asked (requestBy 8)) :=
    .step (.call (requestBy 8)) asked_run rfl ⟨by decide,by decide,by decide⟩
  have hcancelled : Contract.Run sampleEnclave.keccak 5 0 cancelled :=
    .step (.call (.message ⟨7,0,1,0,0⟩ (.cancel 1))) htwo rfl ⟨by decide,by decide,by decide⟩
  have hrefunded : Contract.Run sampleEnclave.keccak 5 0 refunded :=
    .step (.ret (some ())) hcancelled rfl ⟨by decide,by decide,by decide⟩
  exact .step (.call (.message ⟨SGX_ADDRESS,0,1,0,0⟩ (.deliver 1 3 0 0))) hrefunded rfl
    ⟨by decide,by decide,by decide⟩

def caughtTwo : State :=
  ⟨2,.ready,some 0,some 0,none,[0,1],[],[⟨0,0,[7]⟩,⟨1,1,[7]⟩],some 1,[]⟩

theorem caughtTwo_run : Goes (still closed.world) (initial 0) caughtTwo := by
  have hcaught : Goes (still closed.world) (initial 0)
      ⟨0,.running .catchup [0,1] .next,some 0,some 0,none,[],[],[],none,[]⟩ := by
    refine .step .catchup (.step .blockNumber .start rfl ?_) rfl ?_
    all_goals simp [Calm]
  have hfirst : Goes (still closed.world) (initial 0)
      ⟨1,.running .catchup [0,1] (.sent 0),some 0,some 0,none,[0],[],[⟨0,0,[7]⟩],some 0,[]⟩ := by
    refine .step .mine (.step .sendRawTransaction
      (.step (.process oneByte [7]) (.step .getTransactionCount hcaught rfl ?_) rfl ?_)
      rfl ?_) rfl ?_
    all_goals simp [Calm]
  have hsecond : Goes (still closed.world) (initial 0)
      ⟨1,.running .catchup [1] (.counted 1),some 0,some 0,none,[0],[],[⟨0,0,[7]⟩],some 1,[]⟩ := by
    refine .step .getTransactionCount (.step .waitForTransactionReceipt hfirst rfl ?_) rfl ?_
    all_goals simp [Calm]
  have hsent : Goes (still closed.world) (initial 0)
      ⟨2,.running .catchup [1] (.sent 1),some 0,some 0,none,[0,1],[],[⟨0,0,[7]⟩,⟨1,1,[7]⟩],
        some 1,[]⟩ := by
    refine .step .mine (.step .sendRawTransaction
      (.step (.process oneByte [7]) hsecond rfl ?_) rfl ?_) rfl ?_
    all_goals simp [Calm]
  exact .step .waitForTransactionReceipt hsent rfl (by simp [Calm])

/-- The closed request is asked for again, and a transaction is sent for it. -/
theorem closed_caught_again :
    Contract.Run sampleEnclave.keccak 5 0 closed ∧ closed.stack = [] ∧
    (closed.world.storage.requests 1).fee = DELIVERED_FEE_FLAG ∧
    Goes (still closed.world) (initial 0) caughtTwo ∧ caughtTwo.phase = .ready ∧
    eventIds closed.world caughtTwo.caught = [1,2] ∧
    caughtTwo.sent.map (·.event) = caughtTwo.caught ∧
    ¬Exact closed.world (eventIds closed.world caughtTwo.caught) := by
  refine ⟨closed_run,rfl,rfl,caughtTwo_run,rfl,rfl,rfl,fun h => ?_⟩
  obtain ⟨-,-,-,hne⟩ := (h 1).mp (List.mem_cons_self)
  exact hne rfl

end Sample
end TownCrier.Relay
