import TownCrier.CatchUp

/-!
# Starting with `--catchup`

Three readings of the chain's head decide what a relay takes up that catches up
first: `catchup` goes through the log up to one block, it returns at once if the
counter is zero at another, and the filter reports the events after a third.
-/
namespace TownCrier.Relay
open BigEndian CallMachine Contract Delivery Evm RpcServer Transition

/-- The blocks are those of a contract that anyone may call. -/
structure Recorded (keccak : Bytes → Bytes32) (owner : Address) (balance : ℕ)
    (allowed : Config World Kont → CallMachine.Action Call Unit → Config World Kont → Prop)
    (c : Chain) : Prop where
  origin : Reach (code keccak) allowed (Contract.constructor owner balance) ⟨c.world 0,[]⟩
  blocks : ∀ n, Reach (code keccak) allowed (c.world n) ⟨c.world (n+1),[]⟩

/-- The enclave has got the event from one of the loops. -/
def Handed (s : State) (i : ℕ) : Prop := i ∈ s.caught ∨ i ∈ s.polled

/-- The enclave gets the event if the relay goes on. -/
def Coming (s : State) (i : ℕ) : Prop :=
  i ∈ s.phase.unhanded ∨ ∃ cursor, s.phase.cursor? = some cursor ∧ cursor ≤ i

/-- The account of the enclave has closed the request up to a block. -/
def Concluded (c : Chain) (block i : ℕ) : Prop :=
  ∃ info, (infos (c.world block))[i]? = some info ∧
    (info.id ∈ answered (c.world block) ∨ info.id ∈ charged (c.world block))

variable {c : Chain} {s s' : State} {a : Action} {keccak : Bytes → Bytes32} {owner : Address}
  {balance : ℕ}
variable {allowed : Config World Kont → CallMachine.Action Call Unit → Config World Kont → Prop}

theorem Chain.infos_prefix (c : Chain) {m n : ℕ} (h : m ≤ n) :
    infos (c.world m) <+: infos (c.world n) := by
  induction n, h using Nat.le_induction with
  | base => exact List.prefix_rfl
  | succ n _ ih => exact ih.trans (c.grows n)

namespace Recorded

theorem reach (hc : Recorded keccak owner balance allowed c) (n : ℕ) :
    Reach (code keccak) allowed (Contract.constructor owner balance) ⟨c.world n,[]⟩ := by
  induction n with
  | zero => exact hc.origin
  | succ n ih => exact ih.trans (hc.blocks n)

theorem delivers_answered (hc : Recorded keccak owner balance allowed c) {n : ℕ} {id : UInt64}
    (h : id ∈ delivers (c.world n)) : id ∈ answered (c.world n) :=
  (delivers_iff (hc.reach n) rfl id).mp h

/-- An answer stays. -/
theorem answered_mono (hc : Recorded keccak owner balance allowed c) {m n : ℕ} (h : m ≤ n)
    {id : UInt64} (hid : id ∈ answered (c.world m)) : id ∈ answered (c.world n) := by
  induction n, h using Nat.le_induction with
  | base => exact hid
  | succ n _ ih =>
      have hlogs : Logs (c.world n) := fun id => hc.delivers_answered
      have hstacked := ((logs_sound keccak hlogs).reach (fun _ _ _ _ => trivial) (hc.blocks n)).2
      exact Logged.kept hstacked id ih

end Recorded

theorem unprocessed_sublist (w : World) : (unprocessed w).Sublist (List.range (infos w).length) := by
  have h := (List.filter_sublist (l := (infos w).zipIdx) (p := fun p => p.1.id ∉ delivers w)).map
    Prod.snd
  rwa [List.zipIdx_map_snd,← List.range_eq_range'] at h

theorem entries_sublist {uptoBlock : ℕ} (h : s.uptoBlock = some uptoBlock) :
    (s.entries c).Sublist (List.range (c.events uptoBlock)) := by
  unfold State.entries
  cases s.counterBlock with
  | none => exact List.nil_sublist _
  | some counterBlock =>
      rw [h]
      dsimp only
      unfold catchupEntries
      split_ifs
      · exact List.nil_sublist _
      · exact unprocessed_sublist _

/-- The last entry may still be without its transaction. -/
theorem Traced.sent_handed (hs : Traced c s) {i : ℕ} (h : Answered s i) : Handed s i := by
  have hrest : ∃ rest, s.phase.unsent = rest++s.phase.unhanded := by
    cases s.phase with
    | running loop queue stage =>
        cases stage with
        | responded nonce response =>
            cases queue with
            | nil => exact ⟨[],rfl⟩
            | cons j queue => exact ⟨[j],rfl⟩
        | next | counted | sent => exact ⟨[],rfl⟩
    | started | catchup | ready | polling | crashed => exact ⟨[],rfl⟩
  obtain ⟨rest,hrest⟩ := hrest
  have heq := hs.sent.trans hs.handed.symm
  rw [hrest,← List.append_assoc] at heq
  have hmem : i ∈ s.caught++s.polled := by
    rw [← List.append_cancel_right heq]
    obtain ⟨x,hx,rfl⟩ := h
    exact List.mem_append_left _ (List.mem_map_of_mem hx)
  exact List.mem_append.mp hmem

theorem unhanded_subset {loop : Loop} {queue : List ℕ} {stage : Stage} :
    (Phase.running loop queue stage).unhanded ⊆ queue := by
  cases stage with
  | next | counted => exact List.Subset.refl _
  | responded | sent => exact List.tail_subset _

theorem coming_pending {cursor i : ℕ} (hcursor : s.phase.cursor? = some cursor)
    (hi : Coming s i) : Pending s i := by
  unfold Coming at hi
  unfold Pending
  cases hphase : s.phase with
  | polling place =>
      rw [hphase] at hi
      simpa [Phase.unhanded,Phase.cursor?] using hi
  | running loop queue stage =>
      rw [hphase] at hi hcursor
      cases loop with
      | catchup => cases hcursor
      | wait place =>
          rcases hi with hi | ⟨_,⟨⟩,hi⟩
          · exact .inl (unhanded_subset hi)
          · exact .inr hi
  | started | catchup | ready | crashed =>
      rw [hphase] at hcursor
      cases hcursor

section Watching
variable {uptoBlock counterBlock filterBlock : ℕ}

/-- With a filter, the events after it are with the enclave or on their way. -/
theorem Traced.watching (hs : Traced c s) (hfilter : s.filterBlock = some filterBlock) :
    s.caught = s.entries c ∧ ∃ cursor, s.phase.cursor? = some cursor ∧
      c.events filterBlock ≤ cursor ∧ s.polled++s.phase.unhanded =
        List.range' (c.events filterBlock) (cursor-c.events filterBlock) := by
  cases hcursor : s.phase.cursor? with
  | none => cases (hs.before hcursor).1.symm.trans hfilter
  | some cursor =>
      obtain ⟨hcaught,block,hblock,hle⟩ := hs.after cursor hcursor
      cases hblock.symm.trans hfilter
      refine ⟨hcaught,cursor,rfl,hle,?_⟩
      have hhanded := hs.handed
      rw [hcaught,List.append_assoc] at hhanded
      rw [List.append_cancel_left hhanded,State.reported,hfilter,hcursor]

theorem Traced.late_iff (hs : Traced c s) (hfilter : s.filterBlock = some filterBlock) (i : ℕ) :
    i ∈ s.polled ∨ Coming s i ↔ c.events filterBlock ≤ i := by
  obtain ⟨-,cursor,hcursor,hle,hrange⟩ := hs.watching hfilter
  have hmem : i ∈ s.polled ∨ i ∈ s.phase.unhanded ↔ c.events filterBlock ≤ i ∧ i < cursor := by
    rw [← List.mem_append,hrange,List.mem_range'_1]
    omega
  rw [Coming,← or_assoc,hmem,hcursor]
  simp only [Option.some.injEq,exists_eq_left']
  omega

/-- No event goes to the enclave twice. -/
theorem Traced.nodup (hs : Traced c s) (hupto : s.uptoBlock = some uptoBlock)
    (hfilter : s.filterBlock = some filterBlock) : (s.caught++s.polled).Nodup := by
  obtain ⟨hcaught,cursor,-,-,hrange⟩ := hs.watching hfilter
  have hle := c.events_mono ((hs.upto _ hupto).2 _ hfilter)
  have hentries := entries_sublist (c := c) hupto
  have hpolled : s.polled.Sublist
      (List.range' (c.events filterBlock) (cursor-c.events filterBlock)) := by
    rw [← hrange]
    exact List.sublist_append_left _ _
  rw [hcaught]
  refine List.nodup_append.mpr ⟨hentries.nodup List.nodup_range,hpolled.nodup List.nodup_range',?_⟩
  rintro i hi j hj rfl
  have hlow := List.mem_range.mp (hentries.subset hi)
  have hhigh := (List.mem_range'_1.mp (hpolled.subset hj)).1
  omega

/-- An event of the range of `catchup` is handed over or has been answered before,
unless the counter was read as zero. -/
theorem Traced.early (hs : Traced c s) (hc : Recorded keccak owner balance allowed c)
    (hupto : s.uptoBlock = some uptoBlock) (hcounter : s.counterBlock = some counterBlock)
    (hcaught : s.caught = s.entries c) (hne : (c.world counterBlock).storage.unrespondedCnt ≠ 0)
    {i : ℕ} (hi : i < c.events uptoBlock) : i ∈ s.caught ∨ Concluded c s.head i := by
  obtain ⟨info,hget⟩ : ∃ info, (infos (c.world uptoBlock))[i]? = some info :=
    ⟨_,List.getElem?_eq_getElem hi⟩
  have hle := (hs.upto _ hupto).1
  by_cases hid : info.id ∈ delivers (c.world uptoBlock)
  · obtain ⟨later,hlater⟩ := c.infos_prefix hle
    refine .inr ⟨info,?_,.inl (hc.answered_mono hle (hc.delivers_answered hid))⟩
    rw [← hlater,List.getElem?_append_left hi,hget]
  · rw [hcaught,State.entries,hcounter,hupto]
    dsimp only
    rw [catchupEntries,if_neg hne]
    exact .inl (mem_unprocessed.mpr ⟨info,hget,hid⟩)

/-- Each event is with the enclave, or on its way to it, or was answered before:
just when this was so for the events between the range of `catchup` and the
filter, and for the events of that range if the counter was read as zero. -/
theorem covers_iff (hs : Traced c s) (hc : Recorded keccak owner balance allowed c)
    (hupto : s.uptoBlock = some uptoBlock) (hcounter : s.counterBlock = some counterBlock)
    (hfilter : s.filterBlock = some filterBlock) :
    (∀ i, (∃ block, i < c.events block) → Handed s i ∨ Coming s i ∨ Concluded c s.head i) ↔
      (∀ i, c.events uptoBlock ≤ i → i < c.events filterBlock → Concluded c s.head i) ∧
      ((c.world counterBlock).storage.unrespondedCnt = 0 →
        ∀ i < c.events uptoBlock, Concluded c s.head i) := by
  obtain ⟨hcaught,-⟩ := hs.watching hfilter
  have hlate := hs.late_iff hfilter
  have hle := c.events_mono ((hs.upto _ hupto).2 _ hfilter)
  have hearly : ∀ i ∈ s.caught, i < c.events uptoBlock := fun i hi =>
    List.mem_range.mp ((entries_sublist hupto).subset (hcaught ▸ hi))
  constructor
  · intro h
    have hopen : ∀ i, i < c.events filterBlock → i ∉ s.caught → Concluded c s.head i := by
      intro i hi hcatch
      rcases h i ⟨_,hi⟩ with (hhanded | hhanded) | hcoming | hconcluded
      · exact absurd hhanded hcatch
      · exact absurd ((hlate i).mp (.inl hhanded)) (Nat.not_le.mpr hi)
      · exact absurd ((hlate i).mp (.inr hcoming)) (Nat.not_le.mpr hi)
      · exact hconcluded
    refine ⟨fun i hlow hhigh => hopen i hhigh fun hi => ?_,fun hzero i hi => ?_⟩
    · exact absurd (hearly i hi) (Nat.not_lt.mpr hlow)
    · refine hopen i (hi.trans_le hle) ?_
      rw [hcaught,State.entries,hcounter,hupto]
      dsimp only
      rw [catchupEntries,if_pos hzero]
      exact List.not_mem_nil
  · rintro ⟨hgap,hzero⟩ i -
    by_cases hafter : c.events filterBlock ≤ i
    · rcases (hlate i).mpr hafter with hi | hi
      · exact .inl (.inr hi)
      · exact .inr (.inl hi)
    · by_cases hbefore : i < c.events uptoBlock
      · by_cases hcnt : (c.world counterBlock).storage.unrespondedCnt = 0
        · exact .inr (.inr (hzero hcnt i hbefore))
        · rcases hs.early hc hupto hcounter hcaught hcnt hbefore with hi | hi
          · exact .inl (.inl hi)
          · exact .inr (.inr hi)
      · exact .inr (.inr (hgap i (Nat.not_lt.mp hbefore) (Nat.not_le.mp hafter)))

/-- An event on its way reaches the enclave if the relay goes on and its
transactions are mined. -/
theorem coming_handed (hcount : ∀ n, ∃ block, n < c.transactionCount block) {head : ℕ}
    (h : Goes c (initial head) s) (hfilter : s.filterBlock = some filterBlock) {i : ℕ}
    (hi : Coming s i) (hoccurs : ∃ block, i < c.events block) :
    ∃ s', Goes c s s' ∧ Handed s' i := by
  obtain ⟨hplaced,hs⟩ := goes_traced h
  obtain ⟨-,cursor,hcursor,-⟩ := hs.watching hfilter
  obtain ⟨s',hgoes,hanswered⟩ :=
    pending_answered hcount hplaced (coming_pending hcursor hi) hoccurs
  exact ⟨s',hgoes,(goes_traced (h.trans hgoes)).2.sent_handed hanswered⟩

/-- For every history of the contract and every run without exceptions: when the
start covers each event, that it hands none over twice, and that what is on its
way arrives. -/
theorem start_up_covers_iff (hc : Recorded keccak owner balance allowed c) {head : ℕ}
    (h : Goes c (initial head) s) (hupto : s.uptoBlock = some uptoBlock)
    (hcounter : s.counterBlock = some counterBlock) (hfilter : s.filterBlock = some filterBlock) :
    ((∀ i, (∃ block, i < c.events block) → Handed s i ∨ Coming s i ∨ Concluded c s.head i) ↔
      (∀ i, c.events uptoBlock ≤ i → i < c.events filterBlock → Concluded c s.head i) ∧
      ((c.world counterBlock).storage.unrespondedCnt = 0 →
        ∀ i < c.events uptoBlock, Concluded c s.head i)) ∧
    (s.caught++s.polled).Nodup ∧
    ((∀ n, ∃ block, n < c.transactionCount block) → ∀ i, Coming s i →
      (∃ block, i < c.events block) → ∃ s', Goes c s s' ∧ Handed s' i) := by
  have hs := (goes_traced h).2
  exact ⟨covers_iff hs hc hupto hcounter hfilter,hs.nodup hupto hfilter,
    fun hcount i => coming_handed hcount h hfilter⟩

/-- The range of `catchup` and the first filter are fixed once the filter is there. -/
theorem Traced.fixed (hs : Traced c s) (h : Moves c s a s')
    (hfilter : s.filterBlock = some filterBlock) :
    s'.filterBlock = some filterBlock ∧ s'.entries c = s.entries c := by
  obtain ⟨-,cursor,hcursor,-⟩ := hs.watching hfilter
  cases h with
  | blockNumber h | skipCatchup h | catchup h | createFilter h =>
      rw [h] at hcursor
      cases hcursor
  | @process loop i queue nonce o respBuffer h =>
      cases loop <;> exact ⟨hfilter,rfl⟩
  | mine | getNewEntries | getTransactionCount | sendRawTransaction
  | waitForTransactionReceipt | raise => exact ⟨hfilter,rfl⟩

theorem goes_fixed (hplaced : Placed c s) (hs : Traced c s) (h : Goes c s s')
    (hfilter : s.filterBlock = some filterBlock) :
    Traced c s' ∧ s'.filterBlock = some filterBlock ∧ s'.entries c = s.entries c := by
  refine (h.kept (I := fun x => Placed c x ∧ Traced c x ∧ x.filterBlock = some filterBlock ∧
    x.entries c = s.entries c) ⟨hplaced,hs,hfilter,rfl⟩ ?_).2
  rintro x a x' ⟨hplaced,hx,hf,he⟩ hstep ha
  obtain ⟨hf',he'⟩ := hx.fixed (step_moves hstep) hf
  exact ⟨hplaced.moves (step_moves hstep),hx.moves hplaced (step_moves hstep) ha,hf',he'.trans he⟩

end Watching

/-- While fewer than `2^64-1` requests are accepted and both fees are worth two
wei or more, a counter of zero means that all have been closed. -/
theorem counter_zero_concluded (hc : Recorded keccak owner balance Admissible c) {block head i : ℕ}
    (hle : block ≤ head) (hzero : (c.world block).storage.unrespondedCnt = 0)
    (hi : i < c.events block) : Concluded c head i := by
  have hsent : (c.world block).sent <+: (c.world head).sent := by
    induction head, hle using Nat.le_induction with
    | base => exact List.prefix_rfl
    | succ n _ ih => exact ih.trans (run_sent (hc.reach n) rfl (hc.blocks n) rfl)
  obtain ⟨info,hget⟩ : ∃ info, (infos (c.world block))[i]? = some info :=
    ⟨_,List.getElem?_eq_getElem hi⟩
  obtain ⟨later,hlater⟩ := c.infos_prefix hle
  have hw := run_inv (hc.reach block)
  refine ⟨info,?_,?_⟩
  · rw [← hlater,List.getElem?_append_left hi,hget]
  · rcases hw.closed_cases (List.mem_of_getElem? hget) with ⟨hne,-,-⟩ | ⟨-,hid,-⟩ | ⟨-,-,hid⟩
    · exact absurd (hw.all_settled hzero _) hne
    · exact .inl ((hsent.filterMap _).subset hid)
    · exact .inr ((hsent.filterMap _).subset hid)

section Sample

/-- A request comes in the block after the first. -/
def late : Chain where
  world
    | 0 => Contract.constructor 5 0
    | _+1 => asked.world
  transactionCount := id
  grows
    | 0 => List.nil_prefix
    | _+1 => List.prefix_rfl
  counts := monotone_id

theorem late_recorded :
    Recorded sampleEnclave.keccak 5 0 (fun _ _ _ => True) late where
  origin := .start
  blocks
    | 0 => .step (.call (requestBy 7)) .start rfl trivial
    | _+1 => .start

def watching : State := ⟨1,.polling 1,some 0,some 0,some 1,[],[],[],none,[]⟩

/-- The block is mined after `catchup` and before the filter is created. -/
theorem watching_run : Goes late (initial 0) watching := by
  have hready : Goes late (initial 0) ⟨1,.ready,some 0,some 0,none,[],[],[],none,[]⟩ := by
    refine .step .mine (.step .catchup (.step .blockNumber .start rfl ?_) rfl ?_) rfl ?_
    all_goals simp [Calm]
  exact .step .createFilter hready rfl (by simp [Calm])

/-- The event is never handed over, and its request is not answered. -/
theorem request_missed :
    Recorded sampleEnclave.keccak 5 0 (fun _ _ _ => True) late ∧ Goes late (initial 0) watching ∧
    0 < late.events 1 ∧ (∀ s, Goes late watching s → ¬Handed s 0) ∧
    ¬Coming watching 0 ∧ ∀ block, ¬Concluded late block 0 := by
  obtain ⟨hplaced,hs⟩ := goes_traced watching_run
  have hcoming : ¬Coming watching 0 := by
    rintro (h | ⟨cursor,hcursor,hle⟩)
    · exact List.not_mem_nil h
    · cases hcursor
      exact absurd hle (by decide)
  refine ⟨late_recorded,watching_run,by decide,fun s h hhanded => ?_,hcoming,?_⟩
  · obtain ⟨hs',hfilter,hentries⟩ := goes_fixed hplaced hs h rfl
    rcases hhanded with hi | hi
    · rw [(hs'.watching hfilter).1,hentries] at hi
      exact List.not_mem_nil hi
    · exact absurd ((hs'.late_iff hfilter 0).mp (.inl hi)) (by decide)
  · rintro (_ | block) ⟨info,hget,hclosed⟩
    · cases hget
    · rcases hclosed with hid | hid <;> exact List.not_mem_nil hid

theorem asked_recorded :
    Recorded sampleEnclave.keccak 5 0 (fun _ _ _ => True) (still asked.world) where
  origin := .step (.call (requestBy 7)) .start rfl trivial
  blocks := fun _ => .start

/-- After `caughtUp` the filter is created. -/
def started : State := ⟨1,.polling 1,some 0,some 0,some 1,[0],[],[⟨0,0,[7]⟩],some 0,[]⟩

theorem started_run : Goes (still asked.world) (initial 0) started :=
  .step .createFilter caughtUp_run rfl (by simp [Calm])

theorem start_up_covers_iff_asked :
    Handed started 0 ∨ Coming started 0 ∨ Concluded (still asked.world) 1 0 :=
  (start_up_covers_iff asked_recorded started_run rfl rfl rfl).1.mpr
    ⟨fun _ hlow hhigh => absurd hhigh (Nat.not_lt.mpr hlow),fun hzero => absurd hzero (by decide)⟩
    0 ⟨0,by decide⟩

end Sample
end TownCrier.Relay
