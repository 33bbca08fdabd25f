import TownCrier.Relay

/-!
# The nonces of the deliveries

The relay takes the nonce of a delivery from the number of mined transactions,
and the enclave takes it as an `int`. A transaction that is not mined yet does
not count, so the next one gets its nonce.
-/
namespace TownCrier.Relay
open BigEndian Cpp RpcServer Transition

/-- The nonce in the transaction which the enclave signs. -/
def txNonce (nonce : ℕ) : UInt64 := widen (narrow (UInt64.ofNat nonce))

def Distinct (s : State) : Prop := (s.sent.map fun x => txNonce x.nonce).Nodup

/-- The transaction of the wallet with this nonce is in the chain. -/
def Chain.Mined (c : Chain) (block nonce : ℕ) : Prop := nonce < c.transactionCount block

/-- By the block at which the nonce of a transaction was read, the transactions for
which the relay had stopped waiting were mined after all, and the wallet has not sent
a multiple of `2^32` since any other. -/
def Timely (c : Chain) (s : State) : Action → Prop
  | .sendRawTransaction => ∀ block, s.countBlock = some block →
      (∀ nonce ∈ s.abandoned, c.Mined block nonce) ∧
        ∀ x ∈ s.sent, c.Mined block x.nonce → ¬2^32 ∣ c.transactionCount block-x.nonce
  | _ => True

/-- The nonce which has been read for the entry in progress. -/
def Stage.nonce? : Stage → Option ℕ
  | .counted nonce | .responded nonce _ => some nonce
  | _ => none

def Phase.nonce? : Phase → Option ℕ
  | .running _ _ stage => stage.nonce?
  | _ => none

/-- What is known of the transactions that were sent: each has been given up, or is
mined, or is the one waited for. -/
structure Read (c : Chain) (s : State) : Prop where
  sent : ∀ x ∈ s.sent, x.nonce ≤ c.transactionCount s.head
  waited : ∀ x ∈ s.sent,
    x.nonce ∈ s.abandoned ∨ c.Mined s.head x.nonce ∨ s.phase.awaited? = some x.nonce
  given : ∀ nonce, nonce ∈ s.abandoned ∨ s.phase.awaited? = some nonce →
    ∃ x ∈ s.sent, x.nonce = nonce
  current : ∀ nonce, s.phase.nonce? = some nonce → ∃ block, s.countBlock = some block ∧
    nonce = c.transactionCount block ∧ block ≤ s.head ∧
      ∀ x ∈ s.sent, x.nonce ≤ nonce ∧ (x.nonce ∈ s.abandoned ∨ c.Mined block x.nonce)

variable {c : Chain} {s s' : State} {a : Action}

theorem nonce_over (loop : Loop) (queue : List ℕ) : (loop.over queue).nonce? = none := by
  cases loop <;> cases queue <;> rfl

theorem nonce_raised (e : PyError) (renewed : Bool) : (raised c s e renewed).nonce? = none := by
  unfold raised
  cases s.phase.cursor? with
  | none => rfl
  | some cursor =>
      cases e <;> first | rfl | (cases renewed <;> rfl)

theorem txNonce_toNat (n : ℕ) : (txNonce n).toNat =
    if n%2^32 < 2^31 then n%2^32 else 2^64-2^32+n%2^32 := by
  have hnarrow : (narrow (UInt64.ofNat n)).toInt = ((n%2^64 : ℕ) : ℤ).bmod (2^32) := by
    rw [narrow,Int32.toInt_ofInt,UInt64.toNat_ofNat']
    rfl
  rw [txNonce,widen,toNat_ofInt,hnarrow,Int.bmod_def]
  split_ifs <;> omega

theorem txNonce_eq_iff (m n : ℕ) : txNonce m = txNonce n ↔ m%2^32 = n%2^32 := by
  rw [← UInt64.toNat_inj,txNonce_toNat,txNonce_toNat]
  split_ifs <;> omega

theorem awaited_over (loop : Loop) (queue : List ℕ) : (loop.over queue).awaited? = none := by
  cases loop <;> cases queue <;> rfl

theorem awaited_raised (e : PyError) (renewed : Bool) : (raised c s e renewed).awaited? = none := by
  unfold raised
  cases s.phase.cursor? with
  | none => rfl
  | some cursor =>
      cases e <;> first | rfl | (cases renewed <;> rfl)

theorem read_initial (head : ℕ) : Read c (initial head) where
  sent := fun x hx => absurd hx List.not_mem_nil
  waited := fun x hx => absurd hx List.not_mem_nil
  given := by
    rintro nonce (h | h)
    · exact absurd h List.not_mem_nil
    · cases h
  current := fun nonce hn => by cases hn

theorem Read.mine (hs : Read c s) : Read c {s with head := s.head+1} where
  sent x hx := (hs.sent x hx).trans (c.counts (Nat.le_succ s.head))
  waited x hx := (hs.waited x hx).imp_right
    (Or.imp_left fun hmined => hmined.trans_le (c.counts (Nat.le_succ s.head)))
  given := hs.given
  current nonce hn := by
    obtain ⟨block,hblock,hnonce,hle,hsent⟩ := hs.current nonce hn
    exact ⟨block,hblock,hnonce,hle.trans (Nat.le_succ _),hsent⟩

/-- No transaction is waited for, and no nonce is in use. -/
theorem Read.idle (hs : Read c s) (hwaits : s.phase.awaited? = none) {phase : Phase}
    (hnonce : phase.nonce? = none) (hawaited : phase.awaited? = none)
    (uptoBlock counterBlock filterBlock : Option ℕ) :
    Read c {s with phase, uptoBlock, counterBlock, filterBlock} where
  sent := hs.sent
  waited x hx := by
    have hcase := hs.waited x hx
    rw [hwaits] at hcase
    exact hcase.imp_right (Or.imp_right nofun)
  given nonce h := by
    rw [hawaited] at h
    exact hs.given nonce (h.imp_right nofun)
  current nonce hn := by cases hnonce.symm.trans hn

theorem Read.getTransactionCount (hs : Read c s) (hwaits : s.phase.awaited? = none) (loop : Loop)
    (queue : List ℕ) :
    Read c {s with
      phase := .running loop queue (.counted (c.transactionCount s.head))
      countBlock := some s.head} where
  sent := hs.sent
  waited x hx := by
    have hcase := hs.waited x hx
    rw [hwaits] at hcase
    exact hcase.imp_right (Or.imp_right nofun)
  given nonce h := hs.given nonce (h.imp_right nofun)
  current nonce hn := by
    cases hn
    refine ⟨s.head,rfl,rfl,le_rfl,fun x hx => ⟨hs.sent x hx,?_⟩⟩
    have hcase := hs.waited x hx
    rw [hwaits] at hcase
    exact hcase.imp_right fun h => h.resolve_right nofun

/-- The nonce stays in use while the enclave answers. -/
theorem Read.process (hs : Read c s) {loop : Loop} {i : ℕ} {queue : List ℕ} {nonce : ℕ}
    (h : s.phase = .running loop (i::queue) (.counted nonce)) (response : Bytes) :
    Read c {s.hand i loop with
      phase := .running loop (i::queue) (.responded nonce response)} := by
  have hwaits : s.phase.awaited? = none := by rw [h]; rfl
  have hwaited : ∀ x ∈ s.sent, x.nonce ∈ s.abandoned ∨ c.Mined s.head x.nonce ∨
      (none : Option ℕ) = some x.nonce := hwaits ▸ hs.waited
  have hcurrent := hs.current nonce (by rw [h]; rfl)
  have hgiven : ∀ n, n ∈ s.abandoned ∨ (none : Option ℕ) = some n → ∃ x ∈ s.sent, x.nonce = n :=
    hwaits ▸ hs.given
  cases loop with
  | catchup | wait cursor =>
      refine ⟨hs.sent,hwaited,hgiven,?_⟩
      rintro nonce ⟨⟩
      exact hcurrent

theorem Read.sendRawTransaction (hs : Read c s) {loop : Loop} {i : ℕ} {queue : List ℕ} {nonce : ℕ}
    {response : Bytes} (h : s.phase = .running loop (i::queue) (.responded nonce response)) :
    Read c {s with
      phase := .running loop (i::queue) (.sent nonce), sent := s.sent++[⟨i,nonce,response⟩]} := by
  obtain ⟨block,-,hnonce,hle,hbefore⟩ := hs.current nonce (by rw [h]; rfl)
  have hcount : nonce ≤ c.transactionCount s.head := hnonce.trans_le (c.counts hle)
  refine ⟨fun x hx => ?_,fun x hx => ?_,fun n hn => ?_,fun n hn => by cases hn⟩
  · rcases List.mem_append.mp hx with hx | hx
    · exact hs.sent x hx
    · rw [List.mem_singleton.mp hx]
      exact hcount
  · rcases List.mem_append.mp hx with hx | hx
    · exact (hbefore x hx).2.imp_right fun hmined => .inl (hmined.trans_le (c.counts hle))
    · rw [List.mem_singleton.mp hx]
      exact .inr (.inr rfl)
  · rcases hn with hn | hn
    · obtain ⟨x,hx,hxn⟩ := hs.given n (.inl hn)
      exact ⟨x,List.mem_append_left _ hx,hxn⟩
    · exact ⟨_,List.mem_append_right _ (List.mem_singleton_self _),Option.some.inj hn⟩

/-- The receipt says that the transaction is mined. -/
theorem Read.waitForTransactionReceipt (hs : Read c s) {loop : Loop} {i : ℕ} {queue : List ℕ}
    {nonce : ℕ} (h : s.phase = .running loop (i::queue) (.sent nonce))
    (hmined : c.Mined s.head nonce) : Read c {s with phase := loop.over queue} where
  sent := hs.sent
  waited x hx := by
    have hcase := hs.waited x hx
    rw [h] at hcase
    refine hcase.imp_right fun hcase => .inl (hcase.elim id fun hx => ?_)
    cases hx
    exact hmined
  given n hn := by
    rw [awaited_over] at hn
    exact hs.given n (hn.imp_right nofun)
  current n hn := by cases (nonce_over loop queue).symm.trans hn

theorem Read.raise (hs : Read c s) (e : PyError) (renewed : Bool) :
    Read c (s.raise c e renewed) where
  sent := hs.sent
  waited x hx := by
    rcases hs.waited x hx with hgiven | hmined | hwaits
    · exact .inl (List.mem_append_left _ hgiven)
    · exact .inr (.inl hmined)
    · exact .inl (List.mem_append_right _ (by rw [hwaits]; exact List.mem_singleton_self _))
  given n hn := by
    rcases hn with hn | hn
    · rcases List.mem_append.mp hn with hn | hn
      · exact hs.given n (.inl hn)
      · exact hs.given n (.inr (Option.mem_toList.mp hn))
    · cases (awaited_raised e renewed).symm.trans hn
  current n hn := by cases (nonce_raised e renewed).symm.trans hn

theorem Read.moves (hs : Read c s) (h : Moves c s a s') : Read c s' := by
  cases h with
  | mine => exact hs.mine
  | blockNumber h => exact hs.idle (by rw [h]; rfl) rfl rfl _ _ _
  | skipCatchup h => exact hs.idle (by rw [h]; rfl) rfl rfl _ _ _
  | catchup h => exact hs.idle (by rw [h]; rfl) (nonce_over _ _) (awaited_over _ _) _ _ _
  | createFilter h => exact hs.idle (by rw [h]; rfl) rfl rfl _ _ _
  | getNewEntries h => exact hs.idle (by rw [h]; rfl) (nonce_over _ _) (awaited_over _ _) _ _ _
  | getTransactionCount h => exact hs.getTransactionCount (by rw [h]; rfl) _ _
  | process h => exact hs.process h _
  | sendRawTransaction h => exact hs.sendRawTransaction h
  | waitForTransactionReceipt h hmined => exact hs.waitForTransactionReceipt h hmined
  | raise h => exact hs.raise _ _

/-- The new nonce is none of the earlier ones, as the enclave writes them. -/
theorem sent_distinct_iff (hs : Read c s) {loop : Loop} {i : ℕ} {queue : List ℕ} {nonce : ℕ}
    {response : Bytes} (h : s.phase = .running loop (i::queue) (.responded nonce response)) :
    (∀ x ∈ s.sent, txNonce x.nonce ≠ txNonce nonce) ↔ Timely c s .sendRawTransaction := by
  obtain ⟨block,hblock,rfl,-,hsent⟩ := hs.current nonce (by rw [h]; rfl)
  have hne : ∀ x ∈ s.sent, txNonce x.nonce ≠ txNonce (c.transactionCount block) ↔
      c.Mined block x.nonce ∧ ¬2^32 ∣ c.transactionCount block-x.nonce := by
    intro x hx
    have hle := (hsent x hx).1
    rw [ne_eq,txNonce_eq_iff,Nat.dvd_iff_mod_eq_zero,Chain.Mined]
    omega
  constructor
  · intro hd block' hblock'
    cases hblock.symm.trans hblock'
    refine ⟨fun n hn => ?_,fun x hx _ => ((hne x hx).mp (hd x hx)).2⟩
    obtain ⟨x,hx,rfl⟩ := hs.given n (.inl hn)
    exact ((hne x hx).mp (hd x hx)).1
  · intro htimely x hx
    obtain ⟨hgiven,hwrap⟩ := htimely block hblock
    -- What was not given up was waited for.
    have hmined : c.Mined block x.nonce := (hsent x hx).2.elim (hgiven _) id
    exact (hne x hx).mpr ⟨hmined,hwrap x hx hmined⟩

theorem timely_step (hs : Read c s) (h : Moves c s a s') (hd : Distinct s) :
    Distinct s' ↔ Timely c s a := by
  cases h with
  | @sendRawTransaction loop j queue nonce response h =>
      rw [← sent_distinct_iff hs h]
      unfold Distinct
      dsimp only
      rw [List.map_append,List.map_singleton,List.nodup_append]
      constructor
      · rintro ⟨-,-,hdisjoint⟩ x hx
        exact hdisjoint _ (List.mem_map_of_mem hx) _ (List.mem_singleton_self _)
      · intro hne
        refine ⟨hd,List.nodup_singleton _,fun n hn m hm => ?_⟩
        obtain ⟨x,hx,rfl⟩ := List.mem_map.mp hn
        rw [List.mem_singleton.mp hm]
        exact hne x hx
  | @process loop j queue nonce o respBuffer h =>
      refine iff_of_true ?_ trivial
      cases loop <;> exact hd
  | mine | blockNumber | skipCatchup | catchup | createFilter | getNewEntries | getTransactionCount
  | waitForTransactionReceipt | raise => exact iff_of_true hd trivial

theorem moves_sent (h : Moves c s a s') : s.sent <+: s'.sent := by
  cases h with
  | @process loop j queue nonce o respBuffer h => cases loop <;> exact List.prefix_rfl
  | sendRawTransaction h => exact List.prefix_append _ _
  | mine | blockNumber | skipCatchup | catchup | createFilter | getNewEntries | getTransactionCount
  | waitForTransactionReceipt | raise => exact List.prefix_rfl

/-- The nonces of all transactions of a run are different just when each was read
after the transactions that the relay had not waited for were mined, and no multiple
of `2^32` later. -/
theorem nonces_distinct_iff {head : ℕ} (h : Run (Step c) (fun _ _ => True) (initial head) s) :
    Distinct s ↔ Run (Step c) (Timely c) (initial head) s := by
  have hread : ∀ {s}, Run (Step c) (fun _ _ => True) (initial head) s → Read c s :=
    fun h => h.kept (read_initial head) fun _ _ _ hs hstep _ => hs.moves (step_moves hstep)
  constructor
  · intro hd
    induction h with
    | start => exact .start
    | step a h hs _ ih =>
        have hmoves := step_moves hs
        have hd' : Distinct _ := List.Nodup.sublist ((moves_sent hmoves).sublist.map _) hd
        exact .step a (ih hd') hs ((timely_step (hread h) hmoves hd').mp hd)
  · intro htimely
    refine (htimely.kept (I := fun s => Read c s ∧ Distinct s)
      ⟨read_initial head,List.nodup_nil⟩ ?_).2
    intro s a s' hs hstep ha
    have hmoves := step_moves hstep
    exact ⟨hs.1.moves hmoves,(timely_step hs.1 hmoves hs.2).mpr ha⟩

section Sample
open Delivery

variable (count : ℕ → ℕ) (hcount : Monotone count)

/-- One request in each of two blocks. -/
def twoBlocks : Chain where
  world
    | 0 => Contract.constructor 5 0
    | 1 => sampleWorld
    | _+2 => (Contract.record sampleEnclave.keccak ⟨8,2*10^15,1,0,0⟩ 1 9 0 0 [6] sampleWorld).2
  transactionCount := count
  grows
    | 0 => List.nil_prefix
    | 1 => List.prefix_append _ _
    | _+2 => List.prefix_rfl
  counts := hcount

/-- The receipt of the first transaction has not come in time. -/
def timedOut : State :=
  ⟨1,.polling 1,none,none,some 0,[],[0],[⟨0,count 1,[7]⟩],some 1,[count 1]⟩

theorem timedOut_run :
    Run (Step (twoBlocks count hcount)) (Timely (twoBlocks count hcount)) (initial 0)
      (timedOut count) := by
  have hpolling : Run (Step (twoBlocks count hcount)) (Timely (twoBlocks count hcount)) (initial 0)
      ⟨0,.polling 0,none,none,some 0,[],[],[],none,[]⟩ :=
    .step .createFilter (.step .skipCatchup .start rfl trivial) rfl trivial
  have hcounted : Run (Step (twoBlocks count hcount)) (Timely (twoBlocks count hcount)) (initial 0)
      ⟨1,.running (.wait 1) [0] (.counted (count 1)),none,none,some 0,[],[],[],some 1,[]⟩ :=
    .step .getTransactionCount (.step .getNewEntries (.step .mine hpolling rfl trivial) rfl trivial)
      rfl trivial
  have hsent : Run (Step (twoBlocks count hcount)) (Timely (twoBlocks count hcount)) (initial 0)
      ⟨1,.running (.wait 1) [0] (.sent (count 1)),none,none,some 0,[],[0],[⟨0,count 1,[7]⟩],
        some 1,[]⟩ := by
    refine .step .sendRawTransaction (.step (.process oneByte [7,0]) hcounted rfl trivial) rfl ?_
    exact fun _ _ => ⟨List.forall_mem_nil _,List.forall_mem_nil _⟩
  exact .step (.raise .other false) hsent rfl trivial

/-- The relay is about to send the second transaction. -/
def respondedTwo : State :=
  ⟨2,.running (.wait 2) [1] (.responded (count 2) [7]),none,none,some 0,[],[0,1],
    [⟨0,count 1,[7]⟩],some 2,[count 1]⟩

theorem respondedTwo_run :
    Run (Step (twoBlocks count hcount)) (Timely (twoBlocks count hcount)) (initial 0)
      (respondedTwo count) := by
  have hcounted : Run (Step (twoBlocks count hcount)) (Timely (twoBlocks count hcount)) (initial 0)
      ⟨2,.running (.wait 2) [1] (.counted (count 2)),none,none,some 0,[],[0],[⟨0,count 1,[7]⟩],
        some 2,[count 1]⟩ :=
    .step .getTransactionCount
      (.step .getNewEntries (.step .mine (timedOut_run count hcount) rfl trivial) rfl trivial)
      rfl trivial
  exact .step (.process oneByte [7,0]) hcounted rfl trivial

/-- Both transactions are sent. -/
def sentTwo : State :=
  ⟨2,.running (.wait 2) [1] (.sent (count 2)),none,none,some 0,[],[0,1],
    [⟨0,count 1,[7]⟩,⟨1,count 2,[7]⟩],some 2,[count 1]⟩

theorem monotone_pred : Monotone fun block : ℕ => block-1 := fun _ _ h => Nat.sub_le_sub_right h 1

/-- The first transaction is mined after all, one block after the relay gave it up. -/
theorem nonces_distinct_iff_timedOut : ∃ s,
    Run (Step (twoBlocks _ monotone_pred)) (fun _ _ => True) (initial 0) s ∧
      s.sent = [⟨0,0,[7]⟩,⟨1,1,[7]⟩] ∧ s.abandoned = [0] ∧ Distinct s := by
  have htimely : Run (Step (twoBlocks _ monotone_pred)) (Timely (twoBlocks _ monotone_pred))
      (initial 0) (sentTwo fun block => block-1) := by
    refine .step .sendRawTransaction (respondedTwo_run _ monotone_pred) rfl ?_
    rintro block ⟨⟩
    refine ⟨fun n hn => ?_,fun x hx _ => ?_⟩
    · rw [List.mem_singleton.mp hn]
      exact Nat.one_pos
    · rw [List.mem_singleton.mp hx]
      decide
  have hrun := htimely.mono fun _ _ _ => trivial
  exact ⟨_,hrun,rfl,rfl,(nonces_distinct_iff hrun).mpr htimely⟩

theorem monotone_unsent : Monotone fun _ : ℕ => 0 := fun _ _ _ => le_rfl

/-- The next request gets the nonce of the transaction that is still waiting. -/
theorem nonce_reused : ∃ s,
    Run (Step (twoBlocks _ monotone_unsent)) (fun _ _ => True) (initial 0) s ∧
      s.sent = [⟨0,0,[7]⟩,⟨1,0,[7]⟩] ∧ ¬Distinct s := by
  have hsent : Run (Step (twoBlocks _ monotone_unsent)) (fun _ _ => True) (initial 0)
      (sentTwo fun _ => 0) :=
    .step .sendRawTransaction
      ((respondedTwo_run _ monotone_unsent).mono fun _ _ _ => trivial) rfl trivial
  exact ⟨_,hsent,rfl,by simp [Distinct,sentTwo]⟩

end Sample
end TownCrier.Relay
