import TownCrier.Relay

/-!
# Which requests the relay loses

A filter reports an event once, so an event is lost when the loop over its batch
ends before its turn, and when its own attempt fails before the node has the
transaction. The handlers of `wait_for_requests` stand outside that loop. A new
filter in place of one that is not found starts from the latest block.
-/
namespace TownCrier.Relay
open RpcServer Transition

/-- The node has a transaction for the event. -/
def Answered (s : State) (i : ℕ) : Prop := ∃ x ∈ s.sent, x.event = i

/-- The relay attempts the event if it goes on. -/
def Pending (s : State) (i : ℕ) : Prop :=
  match s.phase with
  | .polling cursor => cursor ≤ i
  | .running (.wait cursor) queue _ => i ∈ queue ∨ cursor ≤ i
  | _ => False

/-- An event of the chain, later than the first filter. -/
def Watched (c : Chain) (s : State) (i : ℕ) : Prop :=
  (∃ block, s.filterBlock = some block ∧ c.events block ≤ i) ∧ ∃ block, i < c.events block

def Lossless (c : Chain) (s : State) : Prop := ∀ i, Watched c s i → Answered s i ∨ Pending s i

/-- The exception ends the relay. -/
def Ends (e : PyError) (renewed : Bool) : Prop :=
  e = .valueError ∨ e = .filterNotFound ∧ renewed = false

/-- What an exception leaves behind: the batch, what a retired filter has not
reported, or all events when the relay ends. -/
def Drops (c : Chain) (s : State) (e : PyError) (renewed : Bool) (i : ℕ) : Prop :=
  (∃ loop queue stage, s.phase = .running loop queue stage ∧ i ∈ queue) ∨
    (e = .filterNotFound ∧ i < c.events s.head) ∨ Ends e renewed

/-- An exception comes only when nothing that it leaves behind is unanswered. -/
def Careful (c : Chain) (s : State) : Action → Prop
  | .raise e renewed => ∀ i, Watched c s i → Drops c s e renewed i → Answered s i
  | _ => True

/-- Where the relay stands in the log. -/
structure Placed (c : Chain) (s : State) : Prop where
  watching : s.filterBlock.isSome → s.phase.cursor?.isSome ∨ s.phase = .crashed
  cursor : ∀ cursor, s.phase.cursor? = some cursor → cursor ≤ c.events s.head
  busy : ∀ loop stage, s.phase ≠ .running loop [] stage
  queued : ∀ cursor queue stage, s.phase = .running (.wait cursor) queue stage →
    ∀ i ∈ queue, i < cursor
  sent : ∀ loop i queue nonce, s.phase = .running loop (i::queue) (.sent nonce) → Answered s i

variable {c : Chain} {s s' : State} {a : Action} {i : ℕ}

theorem Chain.events_mono (c : Chain) : Monotone c.events :=
  monotone_nat_of_le_succ fun n => (c.grows n).length_le

theorem cursor_over (cursor : ℕ) (queue : List ℕ) :
    ((Loop.wait cursor).over queue).cursor? = some cursor := by
  cases queue <;> rfl

theorem cursor_over_catchup (queue : List ℕ) : (Loop.catchup.over queue).cursor? = none := by
  cases queue <;> rfl

theorem over_sent {loop loop' : Loop} {queue queue' : List ℕ} {nonce : ℕ} :
    loop.over queue ≠ .running loop' (i::queue') (.sent nonce) := by
  cases loop <;> cases queue <;> simp [Loop.over]

theorem over_ne_running {loop loop' : Loop} {queue : List ℕ} {stage : Stage} :
    loop.over queue ≠ .running loop' [] stage := by
  cases loop <;> cases queue <;> simp [Loop.over]

theorem over_wait_running {loop : Loop} {cursor : ℕ} {queue queue' : List ℕ} {stage : Stage}
    (h : loop.over queue = .running (.wait cursor) queue' stage) :
    loop = .wait cursor ∧ queue' = queue := by
  cases loop <;> cases queue <;> cases h
  exact ⟨rfl,rfl⟩

theorem pending_over (cursor : ℕ) (queue : List ℕ) (h : s.phase = (Loop.wait cursor).over queue) :
    Pending s i ↔ i ∈ queue ∨ cursor ≤ i := by
  unfold Pending
  rw [h]
  cases queue <;> simp [Loop.over]

theorem cursor_handle {head cursor place : ℕ} {renewed : Bool} {e : PyError}
    (h : (handle c head cursor renewed e).cursor? = some place) :
    (e = .filterNotFound → place = c.events head) ∧ (e ≠ .filterNotFound → place = cursor) ∧
      ¬Ends e renewed := by
  cases e with
  | filterNotFound =>
      cases renewed with
      | true =>
          cases h
          exact ⟨fun _ => rfl,fun hne => absurd rfl hne,by simp [Ends]⟩
      | false => cases h
  | valueError => cases h
  | rpcError | nodeError | other =>
      cases h
      exact ⟨by simp,fun _ => rfl,by simp [Ends]⟩

theorem placed_initial (head : ℕ) : Placed c (initial head) where
  watching := fun h => by cases h
  cursor := fun cursor h => by cases h
  busy := fun loop stage h => by cases h
  queued := fun cursor queue stage h => by cases h
  sent := fun loop i queue nonce h => by cases h

theorem hand_eq (s : State) (i : ℕ) (loop : Loop) :
    (s.hand i loop).filterBlock = s.filterBlock ∧ (s.hand i loop).sent = s.sent ∧
      (s.hand i loop).head = s.head := by
  cases loop <;> exact ⟨rfl,rfl,rfl⟩

theorem moves_answered (h : Moves c s a s') (hi : Answered s i) : Answered s' i := by
  cases h with
  | sendRawTransaction h =>
      obtain ⟨x,hx,rfl⟩ := hi
      exact ⟨x,List.mem_append_left _ hx,rfl⟩
  | @process loop j queue nonce o respBuffer h =>
      obtain ⟨x,hx,rfl⟩ := hi
      exact ⟨x,(hand_eq s j loop).2.1 ▸ hx,rfl⟩
  | mine | blockNumber | skipCatchup | catchup | createFilter | getNewEntries | getTransactionCount
  | waitForTransactionReceipt | raise => exact hi

theorem moves_watched (h : Moves c s a s') (hplaced : Placed c s) (hi : Watched c s i) :
    Watched c s' i := by
  obtain ⟨⟨block,hblock,hle⟩,hoccurs⟩ := hi
  refine ⟨⟨block,?_,hle⟩,hoccurs⟩
  cases h with
  | @process loop j queue nonce o respBuffer h => exact (hand_eq s j loop).1 ▸ hblock
  | createFilter h =>
      have hwatching := hplaced.watching (by rw [hblock]; rfl)
      rw [h] at hwatching
      simp [Phase.cursor?] at hwatching
  | mine | blockNumber | skipCatchup | catchup | getNewEntries | getTransactionCount
  | sendRawTransaction | waitForTransactionReceipt | raise => exact hblock

theorem cursor_raised {e : PyError} {renewed : Bool} {place : ℕ}
    (h : (raised c s e renewed).cursor? = some place) : ∃ cursor, s.phase.cursor? = some cursor ∧
      (handle c s.head cursor renewed e).cursor? = some place ∧
      raised c s e renewed = handle c s.head cursor renewed e := by
  unfold raised at h ⊢
  cases hc : s.phase.cursor? with
  | none =>
      rw [hc] at h
      cases h
  | some cursor =>
      rw [hc] at h
      exact ⟨cursor,rfl,h,rfl⟩

theorem raised_cases (c : Chain) (s : State) (e : PyError) (renewed : Bool) :
    raised c s e renewed = .crashed ∨ ∃ place, raised c s e renewed = .polling place := by
  unfold raised
  cases s.phase.cursor? with
  | none => exact .inl rfl
  | some cursor =>
      cases e with
      | rpcError | nodeError | other => exact .inr ⟨cursor,rfl⟩
      | valueError => exact .inl rfl
      | filterNotFound =>
          cases renewed with
          | true => exact .inr ⟨_,rfl⟩
          | false => exact .inl rfl

/-- Before the first filter. -/
theorem Placed.unwatched (hplaced : Placed c s) (hc : s.phase.cursor? = none)
    (hne : s.phase ≠ .crashed) : ¬s.filterBlock.isSome := by
  intro hw
  rcases hplaced.watching hw with h | h
  · rw [hc] at h
    cases h
  · exact hne h

/-- Without a filter and outside the loops there is nothing to lose. -/
theorem Placed.of_idle (hunwatched : ¬s.filterBlock.isSome) (hcursor : s.phase.cursor? = none)
    (hidle : ∀ loop queue stage, s.phase ≠ .running loop queue stage) : Placed c s where
  watching hw := absurd hw hunwatched
  cursor cursor hc := by
    rw [hcursor] at hc
    cases hc
  busy loop stage := hidle loop [] stage
  queued cursor queue stage hs := absurd hs (hidle _ _ _)
  sent loop i queue nonce hs := absurd hs (hidle _ _ _)

theorem Placed.mine (hplaced : Placed c s) : Placed c {s with head := s.head+1} where
  watching := hplaced.watching
  cursor cursor hc := (hplaced.cursor cursor hc).trans (c.events_mono (Nat.le_succ _))
  busy := hplaced.busy
  queued := hplaced.queued
  sent := hplaced.sent

/-- The relay starts a loop without a filter. -/
theorem Placed.catchup (hunwatched : ¬s.filterBlock.isSome) (queue : List ℕ)
    (counterBlock : Option ℕ) :
    Placed c {s with phase := Loop.catchup.over queue, counterBlock} where
  watching hw := absurd hw hunwatched
  cursor cursor hc := by cases (cursor_over_catchup _).symm.trans hc
  busy _ _ := over_ne_running
  queued cursor queue stage hs := by cases (over_wait_running hs).1
  sent loop i queue nonce hs := absurd hs over_sent

theorem Placed.createFilter (s : State) (filterBlock : Option ℕ) :
    Placed c {s with phase := .polling (c.events s.head), filterBlock} where
  watching _ := .inl rfl
  cursor cursor hc := by
    cases hc
    exact le_rfl
  busy _ _ := nofun
  queued _ _ _ := nofun
  sent _ _ _ _ := nofun

theorem Placed.getNewEntries (s : State) (cursor : ℕ) (hcursor : cursor ≤ c.events s.head) :
    Placed c {s with
      phase := (Loop.wait (c.events s.head)).over
        (List.range' cursor (c.events s.head-cursor))} where
  watching _ := .inl (by rw [cursor_over]; rfl)
  cursor place hc := (Option.some.inj ((cursor_over _ _).symm.trans hc)).ge
  busy _ _ := over_ne_running
  queued place queue stage hs i hi := by
    obtain ⟨hloop,rfl⟩ := over_wait_running hs
    cases hloop
    rw [List.mem_range'_1] at hi
    omega
  sent loop i queue nonce hs := absurd hs over_sent

/-- The entry in progress goes on to its next stage. -/
theorem Placed.restaged (hplaced : Placed c s) {x : State} {loop : Loop} {queue : List ℕ}
    {stage stage' : Stage} (hs : s.phase = .running loop (i::queue) stage)
    (hx : x.phase = .running loop (i::queue) stage') (hfilter : x.filterBlock = s.filterBlock)
    (hhead : x.head = s.head) (hsent : ∀ nonce, stage' = .sent nonce → Answered x i) :
    Placed c x where
  watching hsome := by
    rw [hfilter] at hsome
    have hw := hplaced.watching hsome
    rw [hs] at hw
    rw [hx]
    cases loop with
    | catchup => rcases hw with h | h <;> cases h
    | wait place => exact .inl rfl
  cursor cursor hc := by
    rw [hhead]
    refine hplaced.cursor cursor ?_
    rw [hx] at hc
    rw [hs]
    cases loop <;> exact hc
  busy loop' stage'' h := by cases hx.symm.trans h
  queued cursor queue' stage'' h := by
    cases hx.symm.trans h
    exact hplaced.queued cursor _ stage hs
  sent loop' j queue' nonce h := by
    cases hx.symm.trans h
    exact hsent nonce rfl

theorem Placed.waitForTransactionReceipt (hplaced : Placed c s) {loop : Loop} {queue : List ℕ}
    {stage : Stage} (h : s.phase = .running loop (i::queue) stage) :
    Placed c {s with phase := loop.over queue} where
  watching hsome := by
    have hw := hplaced.watching hsome
    rw [h] at hw
    cases loop with
    | catchup => rcases hw with h | h <;> cases h
    | wait place => exact .inl (by rw [cursor_over]; rfl)
  cursor cursor hc := by
    refine hplaced.cursor cursor ?_
    rw [h]
    cases loop with
    | catchup => cases (cursor_over_catchup _).symm.trans hc
    | wait place => exact (cursor_over _ _).symm.trans hc
  busy _ _ := over_ne_running
  queued cursor queue' stage' hs j hj := by
    obtain ⟨rfl,rfl⟩ := over_wait_running hs
    exact hplaced.queued _ _ _ h j (List.mem_cons_of_mem _ hj)
  sent loop i queue nonce hs := absurd hs over_sent

theorem Placed.raise (hplaced : Placed c s) (e : PyError) (renewed : Bool) :
    Placed c (s.raise c e renewed) := by
  have hidle : ∀ loop queue stage, (s.raise c e renewed).phase ≠ .running loop queue stage := by
    intro loop queue stage hs
    rcases raised_cases c s e renewed with hr | ⟨place,hr⟩ <;> cases hr.symm.trans hs
  refine ⟨fun _ => ?_,fun cursor hc => ?_,fun loop => hidle loop [],
    fun cursor queue stage hs => absurd hs (hidle _ _ _),
    fun loop i queue nonce hs => absurd hs (hidle _ _ _)⟩
  · rcases raised_cases c s e renewed with hr | ⟨place,hr⟩
    · exact .inr hr
    · exact .inl (congrArg (fun phase => phase.cursor?.isSome) hr)
  · obtain ⟨place,hplace,hhandle,-⟩ := cursor_raised hc
    obtain ⟨hnew,hold,-⟩ := cursor_handle hhandle
    by_cases he : e = .filterNotFound
    · exact (hnew he).le
    · exact (hold he).trans_le (hplaced.cursor place hplace)

theorem Placed.moves (hplaced : Placed c s) (h : Moves c s a s') : Placed c s' := by
  have hunwatched (hc : s.phase.cursor? = none) (hne : s.phase ≠ .crashed) :
      ¬s.filterBlock.isSome := hplaced.unwatched hc hne
  cases h with
  | mine => exact hplaced.mine
  | blockNumber h => exact .of_idle (hunwatched (by rw [h]; rfl) (by rw [h]; nofun)) rfl nofun
  | skipCatchup h => exact .of_idle (hunwatched (by rw [h]; rfl) (by rw [h]; nofun)) rfl nofun
  | catchup h => exact .catchup (hunwatched (by rw [h]; rfl) (by rw [h]; nofun)) _ _
  | createFilter h => exact .createFilter s _
  | getNewEntries h => exact .getNewEntries s _ (hplaced.cursor _ (by rw [h]; rfl))
  | getTransactionCount h => exact hplaced.restaged h rfl rfl rfl nofun
  | @process loop j queue nonce o respBuffer h =>
      obtain ⟨hfilter,-,hhead⟩ := hand_eq s j loop
      exact hplaced.restaged h rfl hfilter hhead nofun
  | sendRawTransaction h =>
      refine hplaced.restaged h rfl rfl rfl fun _ _ => ?_
      exact ⟨_,List.mem_append_right _ (List.mem_singleton_self _),rfl⟩
  | waitForTransactionReceipt h hmined => exact hplaced.waitForTransactionReceipt h
  | raise h => exact hplaced.raise _ _

theorem pending_iff_of_cursor {cursor : ℕ} (hplaced : Placed c s)
    (h : s.phase.cursor? = some cursor) :
    Pending s i ↔ (∃ loop queue stage, s.phase = .running loop queue stage ∧ i ∈ queue ∧ i < cursor) ∨
      cursor ≤ i := by
  unfold Pending
  cases hs : s.phase with
  | polling place =>
      rw [hs] at h
      cases h
      simp
  | running loop queue stage =>
      rw [hs] at h
      cases loop with
      | catchup => cases h
      | wait place =>
          cases h
          have hqueued := hplaced.queued cursor queue stage hs i
          constructor
          · rintro (hi | hi)
            · exact .inl ⟨_,_,_,rfl,hi,hqueued hi⟩
            · exact .inr hi
          · rintro (⟨loop,queue',stage',heq,hi,-⟩ | hi)
            · cases heq
              exact .inl hi
            · exact .inr hi
  | started | catchup | ready | crashed =>
      rw [hs] at h
      cases h

/-- A step that raises nothing settles no event otherwise than by an answer. -/
theorem moves_settled (hplaced : Placed c s) (h : Moves c s a s') (hw : Watched c s i)
    (ha : ∀ e renewed, a ≠ .raise e renewed) :
    Answered s' i ∨ Pending s' i ↔ Answered s i ∨ Pending s i := by
  have hwatched : s.filterBlock.isSome := by
    obtain ⟨⟨block,hblock,-⟩,-⟩ := hw
    rw [hblock]
    rfl
  have hwait : ∀ {loop queue stage}, s.phase = .running loop queue stage →
      ∃ cursor, loop = .wait cursor := by
    intro loop queue stage hs
    cases loop with
    | wait cursor => exact ⟨cursor,rfl⟩
    | catchup => exact absurd hwatched (hplaced.unwatched (by rw [hs]; rfl) (by rw [hs]; simp))
  cases h with
  | mine => exact Iff.rfl
  | blockNumber h =>
      exact absurd hwatched (hplaced.unwatched (by rw [h]; rfl) (by rw [h]; simp))
  | skipCatchup h =>
      exact absurd hwatched (hplaced.unwatched (by rw [h]; rfl) (by rw [h]; simp))
  | catchup h =>
      exact absurd hwatched (hplaced.unwatched (by rw [h]; rfl) (by rw [h]; simp))
  | createFilter h =>
      exact absurd hwatched (hplaced.unwatched (by rw [h]; rfl) (by rw [h]; simp))
  | @getNewEntries cursor h =>
      have hcursor := hplaced.cursor cursor (by rw [h]; rfl)
      refine or_congr Iff.rfl ?_
      rw [pending_over _ _ rfl,List.mem_range'_1]
      unfold Pending
      rw [h]
      dsimp only
      omega
  | getTransactionCount h =>
      obtain ⟨cursor,rfl⟩ := hwait h
      unfold Pending
      rw [h]
      exact Iff.rfl
  | @process loop j queue nonce o respBuffer h =>
      obtain ⟨cursor,rfl⟩ := hwait h
      unfold Pending
      rw [h]
      exact Iff.rfl
  | @sendRawTransaction loop j queue nonce response h =>
      obtain ⟨cursor,rfl⟩ := hwait h
      unfold Pending Answered
      rw [h]
      dsimp only
      constructor
      · rintro (⟨x,hx,rfl⟩ | hi)
        · rcases List.mem_append.mp hx with hx | hx
          · exact .inl ⟨x,hx,rfl⟩
          · rw [List.mem_singleton.mp hx]
            exact .inr (.inl List.mem_cons_self)
        · exact .inr hi
      · rintro (⟨x,hx,rfl⟩ | hi)
        · exact .inl ⟨x,List.mem_append_left _ hx,rfl⟩
        · exact .inr hi
  | @waitForTransactionReceipt loop j queue nonce h hmined =>
      obtain ⟨cursor,rfl⟩ := hwait h
      have hsent := hplaced.sent _ _ _ _ h
      rw [pending_over _ _ rfl]
      unfold Pending
      rw [h]
      dsimp only
      rw [List.mem_cons]
      constructor
      · rintro (hi | hi | hi)
        · exact .inl hi
        · exact .inr (.inl (.inr hi))
        · exact .inr (.inr hi)
      · rintro (hi | (rfl | hi) | hi)
        · exact .inl hi
        · exact .inl hsent
        · exact .inr (.inl hi)
        · exact .inr (.inr hi)
  | raise h => exact absurd rfl (ha _ _)

/-- An exception takes away what it drops. -/
theorem raise_settled {e : PyError} {renewed : Bool} (hplaced : Placed c s)
    (hne : s.phase ≠ .crashed) (hw : Watched c s i) :
    Pending (s.raise c e renewed) i ↔ Pending s i ∧ ¬Drops c s e renewed i := by
  obtain ⟨cursor,hcursor⟩ : ∃ cursor, s.phase.cursor? = some cursor := by
    have hwatched : s.filterBlock.isSome := by
      obtain ⟨⟨block,hblock,-⟩,-⟩ := hw
      rw [hblock]
      rfl
    exact Option.isSome_iff_exists.mp ((hplaced.watching hwatched).resolve_right hne)
  have hle := hplaced.cursor cursor hcursor
  have hqueue : (∃ loop queue stage, s.phase = .running loop queue stage ∧ i ∈ queue) ↔
      ∃ loop queue stage, s.phase = .running loop queue stage ∧ i ∈ queue ∧ i < cursor := by
    constructor
    · rintro ⟨loop,queue,stage,hs,hi⟩
      cases loop with
      | catchup =>
          rw [hs] at hcursor
          cases hcursor
      | wait place =>
          rw [hs] at hcursor
          cases hcursor
          exact ⟨_,_,_,hs,hi,hplaced.queued _ _ _ hs i hi⟩
    · rintro ⟨loop,queue,stage,hs,hi,-⟩
      exact ⟨_,_,_,hs,hi⟩
  have hraised : (s.raise c e renewed).phase = handle c s.head cursor renewed e := by
    rw [State.raise,raised,hcursor]
  rw [pending_iff_of_cursor hplaced hcursor]
  unfold Drops Pending
  rw [hqueue,hraised]
  cases e with
  | rpcError | nodeError | other =>
      simp only [handle,Ends,reduceCtorEq,false_and,or_false]
      grind
  | valueError =>
      simp [handle,Ends]
  | filterNotFound =>
      cases renewed with
      | true =>
          simp only [handle,Ends]
          grind
      | false => simp [handle,Ends]

theorem watched_back (h : Moves c s a s') (ha : a ≠ .createFilter) (hi : Watched c s' i) :
    Watched c s i := by
  cases h with
  | @process loop j queue nonce o respBuffer h =>
      obtain ⟨hfilter,-,-⟩ := hand_eq s j loop
      unfold Watched at hi ⊢
      rw [← hfilter]
      exact hi
  | createFilter h => exact absurd rfl ha
  | mine | blockNumber | skipCatchup | catchup | getNewEntries | getTransactionCount
  | sendRawTransaction | waitForTransactionReceipt | raise => exact hi

/-- From a state in which nothing is lost, exactly the careful steps lose nothing. -/
theorem lossless_step (hplaced : Placed c s) (h : Moves c s a s') (hl : Lossless c s) :
    Lossless c s' ↔ Careful c s a := by
  have hquiet : (∀ e renewed, a ≠ .raise e renewed) → a ≠ .createFilter → Lossless c s' := by
    intro ha hne i hi
    have hw := watched_back h hne hi
    exact (moves_settled hplaced h hw ha).mpr (hl i hw)
  cases h with
  | raise hne =>
      constructor
      · intro hl' i hw hdrops
        rcases hl' i hw with hi | hi
        · exact hi
        · exact absurd hdrops ((raise_settled hplaced hne hw).mp hi).2
      · intro hcareful i hw
        by_cases hi : Answered s i
        · exact .inl hi
        · have hpending := (hl i hw).resolve_left hi
          exact .inr ((raise_settled hplaced hne hw).mpr
            ⟨hpending,fun hdrops => hi (hcareful i hw hdrops)⟩)
  | createFilter h =>
      refine iff_of_true ?_ trivial
      rintro i ⟨⟨block,hblock,hle⟩,-⟩
      cases hblock
      exact .inr hle
  | mine | blockNumber | skipCatchup | catchup | getNewEntries | getTransactionCount | process
  | sendRawTransaction | waitForTransactionReceipt =>
      exact iff_of_true (hquiet (by simp) (by simp)) trivial

/-- What is lost once is never attempted again. -/
theorem lossy_step (hplaced : Placed c s) (h : Moves c s a s') (hl : ¬Lossless c s) :
    ¬Lossless c s' := by
  unfold Lossless at hl
  push Not at hl
  obtain ⟨i,hw,hanswered,hpending⟩ := hl
  have hlost : ¬(Answered s i ∨ Pending s i) := not_or.mpr ⟨hanswered,hpending⟩
  intro hl'
  have hi := hl' i (moves_watched h hplaced hw)
  by_cases ha : ∃ e renewed, a = .raise e renewed
  · obtain ⟨e,renewed,rfl⟩ := ha
    cases h with
    | raise hne =>
        rcases hi with hi | hi
        · exact hanswered hi
        · exact hpending ((raise_settled hplaced hne hw).mp hi).1
  · push Not at ha
    exact hlost ((moves_settled hplaced h hw ha).mp hi)

/-- The relay goes on, and no call of it raises. -/
def Calm (_ : State) (a : Action) : Prop := ∀ e renewed, a ≠ .raise e renewed

abbrev Goes (c : Chain) (s s' : State) : Prop := Run (Step c) Calm s s'

theorem goes_one (h : Step c s a s') (ha : Calm s a) : Goes c s s' := .step a .start h ha

theorem goes_mine (s : State) (n : ℕ) : Goes c s {s with head := s.head+n} := by
  induction n with
  | zero => exact .start
  | succ n ih => exact .step .mine ih rfl (by simp [Calm])

theorem goes_kept (hplaced : Placed c s) (h : Goes c s s') :
    Placed c s' ∧ ∀ i, Answered s i → Answered s' i :=
  h.kept (I := fun x => Placed c x ∧ ∀ i, Answered s i → Answered x i) ⟨hplaced,fun _ h => h⟩
    fun _ _ _ hx hstep _ =>
      ⟨hx.1.moves (step_moves hstep),fun i hi => moves_answered (step_moves hstep) (hx.2 i hi)⟩

/-- The first entry of a queue gets its transaction and its receipt. -/
theorem goes_entry (hcount : ∀ n, ∃ block, n < c.transactionCount block) {cursor j : ℕ}
    {queue : List ℕ} (stage : Stage) (hplaced : Placed c s)
    (hs : s.phase = .running (.wait cursor) (j::queue) stage) :
    ∃ s', Goes c s s' ∧ s'.phase = (Loop.wait cursor).over queue ∧ Answered s' j := by
  have hsent : ∀ {x : State} {nonce}, Placed c x →
      x.phase = .running (.wait cursor) (j::queue) (.sent nonce) →
      ∃ s', Goes c x s' ∧ s'.phase = (Loop.wait cursor).over queue ∧ Answered s' j := by
    intro x nonce hx hphase
    obtain ⟨block,hblock⟩ := hcount nonce
    have hmined : nonce < c.transactionCount (x.head+block) :=
      hblock.trans_le (c.counts (Nat.le_add_left _ _))
    have hreceipt : Step c {x with head := x.head+block} .waitForTransactionReceipt
        {x with head := x.head+block, phase := (Loop.wait cursor).over queue} := by
      simp only [Step,step,hphase]
      exact if_pos hmined
    exact ⟨_,(goes_mine x block).trans (goes_one hreceipt (by simp [Calm])),rfl,
      hx.sent _ _ _ _ hphase⟩
  have hresponded : ∀ {x : State} {nonce response}, Placed c x →
      x.phase = .running (.wait cursor) (j::queue) (.responded nonce response) →
      ∃ s', Goes c x s' ∧ s'.phase = (Loop.wait cursor).over queue ∧ Answered s' j := by
    intro x nonce response hx hphase
    have hstep : Step c x .sendRawTransaction {x with
        phase := .running (.wait cursor) (j::queue) (.sent nonce),
        sent := x.sent++[⟨j,nonce,response⟩]} := by
      simp only [Step,step,hphase]
    obtain ⟨s',hgoes,hrest⟩ := hsent (hx.moves (step_moves hstep)) rfl
    exact ⟨s',(goes_one hstep (by simp [Calm])).trans hgoes,hrest⟩
  have hcounted : ∀ {x : State} {nonce}, Placed c x →
      x.phase = .running (.wait cursor) (j::queue) (.counted nonce) →
      ∃ s', Goes c x s' ∧ s'.phase = (Loop.wait cursor).over queue ∧ Answered s' j := by
    intro x nonce hx hphase
    have hstep : ∃ x', Step c x (.process ⟨SGX_SUCCESS,TC_SUCCESS,[],0⟩ []) x' ∧
        ∃ response, x'.phase = .running (.wait cursor) (j::queue) (.responded nonce response) := by
      simp only [Step,step,hphase]
      exact ⟨_,rfl,_,rfl⟩
    obtain ⟨x',hstep,response,hphase'⟩ := hstep
    obtain ⟨s',hgoes,hrest⟩ := hresponded (hx.moves (step_moves hstep)) hphase'
    exact ⟨s',(goes_one hstep (by simp [Calm])).trans hgoes,hrest⟩
  cases stage with
  | sent nonce => exact hsent hplaced hs
  | responded nonce response => exact hresponded hplaced hs
  | counted nonce => exact hcounted hplaced hs
  | next =>
      have hstep : Step c s .getTransactionCount {s with
          phase := .running (.wait cursor) (j::queue) (.counted (c.transactionCount s.head))
          countBlock := some s.head} := by
        simp only [Step,step,hs]
      obtain ⟨s',hgoes,hrest⟩ := hcounted (hplaced.moves (step_moves hstep)) rfl
      exact ⟨s',(goes_one hstep (by simp [Calm])).trans hgoes,hrest⟩

theorem goes_queue (hcount : ∀ n, ∃ block, n < c.transactionCount block) {cursor : ℕ}
    (queue : List ℕ) (hplaced : Placed c s) (hs : s.phase = (Loop.wait cursor).over queue) :
    ∃ s', Goes c s s' ∧ s'.phase = .polling cursor ∧ ∀ i ∈ queue, Answered s' i := by
  induction queue generalizing s with
  | nil => exact ⟨s,.start,hs,fun i hi => absurd hi List.not_mem_nil⟩
  | cons j queue ih =>
      obtain ⟨x,hgoes,hphase,hj⟩ := goes_entry hcount .next hplaced hs
      obtain ⟨hx,-⟩ := goes_kept hplaced hgoes
      obtain ⟨s',hgoes',hphase',hqueue⟩ := ih hx hphase
      refine ⟨s',hgoes.trans hgoes',hphase',fun i hi => ?_⟩
      rcases List.mem_cons.mp hi with rfl | hi
      · exact (goes_kept hx hgoes').2 _ hj
      · exact hqueue i hi

/-- A pending event is answered if the relay goes on and its transactions are mined. -/
theorem pending_answered (hcount : ∀ n, ∃ block, n < c.transactionCount block)
    (hplaced : Placed c s) (hi : Pending s i) (hoccurs : ∃ block, i < c.events block) :
    ∃ s', Goes c s s' ∧ Answered s' i := by
  obtain ⟨block,hblock⟩ := hoccurs
  have hpolled : ∀ {x : State} {cursor}, Placed c x → x.phase = .polling cursor → cursor ≤ i →
      ∃ s', Goes c x s' ∧ Answered s' i := by
    intro x cursor hx hphase hle
    have hmine := goes_mine (c := c) x block
    have hlate : i < c.events (x.head+block) :=
      hblock.trans_le (c.events_mono (Nat.le_add_left _ _))
    have hstep : ∃ x', Step c {x with head := x.head+block} .getNewEntries x' ∧
        x'.phase = (Loop.wait (c.events (x.head+block))).over
          (List.range' cursor (c.events (x.head+block)-cursor)) := by
      simp only [Step,step,hphase]
      exact ⟨_,rfl,rfl⟩
    obtain ⟨x',hstep,hphase'⟩ := hstep
    have hgoes := hmine.trans (goes_one hstep (by simp [Calm]))
    obtain ⟨s',hgoes',-,hqueue⟩ := goes_queue hcount _ (goes_kept hx hgoes).1 hphase'
    refine ⟨s',hgoes.trans hgoes',hqueue i ?_⟩
    rw [List.mem_range'_1]
    omega
  unfold Pending at hi
  cases hs : s.phase with
  | polling cursor =>
      rw [hs] at hi
      exact hpolled hplaced hs hi
  | running loop queue stage =>
      rw [hs] at hi
      cases loop with
      | catchup => exact hi.elim
      | wait cursor =>
          cases queue with
          | nil => exact absurd hs (hplaced.busy _ _)
          | cons j queue =>
              obtain ⟨x,hgoes,hphase,hj⟩ := goes_entry hcount stage hplaced hs
              obtain ⟨hx,-⟩ := goes_kept hplaced hgoes
              obtain ⟨y,hgoes',hphase',hqueue⟩ := goes_queue hcount queue hx hphase
              obtain ⟨hy,hkept⟩ := goes_kept hx hgoes'
              dsimp only at hi
              rcases hi with hi | hi
              · rcases List.mem_cons.mp hi with rfl | hi
                · exact ⟨y,hgoes.trans hgoes',hkept _ hj⟩
                · exact ⟨y,hgoes.trans hgoes',hqueue i hi⟩
              · obtain ⟨s',hgoes'',hanswered⟩ := hpolled hy hphase' hi
                exact ⟨s',(hgoes.trans hgoes').trans hgoes'',hanswered⟩
  | started | catchup | ready | crashed =>
      rw [hs] at hi
      exact hi.elim

theorem lossless_iff {head : ℕ} (h : Run (Step c) (fun _ _ => True) (initial head) s) :
    Lossless c s ↔ Run (Step c) (Careful c) (initial head) s := by
  have hplaced : ∀ {s}, Run (Step c) (fun _ _ => True) (initial head) s → Placed c s :=
    fun h => h.kept (placed_initial head) fun _ _ _ hs hstep _ => hs.moves (step_moves hstep)
  constructor
  · intro hl
    induction h with
    | start => exact .start
    | step a h hs _ ih =>
        have hmoves := step_moves hs
        have hl' := not_imp_not.mp (lossy_step (hplaced h) hmoves) hl
        exact .step a (ih hl') hs ((lossless_step (hplaced h) hmoves hl').mp hl)
  · intro hcareful
    refine (hcareful.kept (I := fun s => Placed c s ∧ Lossless c s)
      ⟨placed_initial head,?_⟩ ?_).2
    · rintro i ⟨⟨block,hblock,-⟩,-⟩
      cases hblock
    · intro s a s' hs hstep ha
      have hmoves := step_moves hstep
      exact ⟨hs.1.moves hmoves,(lossless_step hs.1 hmoves hs.2).mpr ha⟩

/-- No event is lost in a run just when each exception in it comes at a moment at
which all that it drops has been answered. What is not lost is answered if the
relay goes on and its transactions are mined. -/
theorem requests_attempted {head : ℕ}
    (h : Run (Step c) (fun _ _ => True) (initial head) s) :
    (Lossless c s ↔ Run (Step c) (Careful c) (initial head) s) ∧
    ((∀ n, ∃ block, n < c.transactionCount block) → ∀ i, Pending s i →
      (∃ block, i < c.events block) → ∃ s', Goes c s s' ∧ Answered s' i) := by
  refine ⟨lossless_iff h,fun hcount i hi hoccurs => ?_⟩
  exact pending_answered hcount
    (h.kept (placed_initial head) fun _ _ _ hs hstep _ => hs.moves (step_moves hstep)) hi hoccurs

section Sample
open Delivery

/-- Two requests in the first block after the contract was made. -/
def burst : Chain where
  world
    | 0 => Contract.constructor 5 0
    | _+1 => (Contract.record sampleEnclave.keccak ⟨8,2*10^15,1,0,0⟩ 1 9 0 0 [6] sampleWorld).2
  transactionCount := id
  grows
    | 0 => List.nil_prefix
    | _+1 => List.prefix_rfl
  counts := monotone_id

/-- The relay polls its filter and is told that the node is not there. -/
def disturbed : State := ⟨0,.polling 0,none,none,some 0,[],[],[],none,[]⟩

theorem disturbed_run : Run (Step burst) (Careful burst) (initial 0) disturbed := by
  have hready : Run (Step burst) (Careful burst) (initial 0) _ :=
    .step .skipCatchup .start rfl trivial
  have hpolling : Run (Step burst) (Careful burst) (initial 0) disturbed :=
    .step .createFilter hready rfl trivial
  refine .step (.raise .rpcError false) hpolling rfl ?_
  rintro i - (⟨loop,queue,stage,hs,-⟩ | ⟨he,-⟩ | hends)
  · cases hs
  · cases he
  · simp [Ends] at hends

theorem requests_attempted_disturbed : Lossless burst disturbed :=
  (requests_attempted (disturbed_run.mono fun _ _ _ => trivial)).1.mpr disturbed_run

/-- The enclave's server is not there for the first of two entries. -/
def interrupted : State := ⟨1,.polling 2,none,none,some 0,[],[],[],some 1,[]⟩

/-- The second entry of the batch is never attempted. -/
theorem request_lost : Run (Step burst) (fun _ _ => True) (initial 0) interrupted ∧
    Watched burst interrupted 1 ∧ ¬Answered interrupted 1 ∧ ¬Pending interrupted 1 := by
  have hpolling : Run (Step burst) (fun _ _ => True) (initial 0) disturbed :=
    disturbed_run.mono fun _ _ _ => trivial
  have hbatch : Run (Step burst) (fun _ _ => True) (initial 0)
      ⟨1,.running (.wait 2) [0,1] .next,none,none,some 0,[],[],[],none,[]⟩ :=
    .step .getNewEntries (.step .mine hpolling rfl trivial) rfl trivial
  have hcounted : Run (Step burst) (fun _ _ => True) (initial 0)
      ⟨1,.running (.wait 2) [0,1] (.counted 1),none,none,some 0,[],[],[],some 1,[]⟩ :=
    .step .getTransactionCount hbatch rfl trivial
  refine ⟨.step (.raise .rpcError false) hcounted rfl trivial,?_,?_,?_⟩
  · exact ⟨⟨0,rfl,Nat.zero_le _⟩,1,show 1 < 2 by decide⟩
  · rintro ⟨x,hx,-⟩
    cases hx
  · exact show ¬2 ≤ 1 by decide

end Sample
end TownCrier.Relay
