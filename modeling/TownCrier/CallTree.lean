import TownCrier.CallMachine

/-!
# Inside one call

A run consists of pieces of the contract's code. `During` is the part of a run
which other code makes before a suspended call goes on, and `Returns` follows
one call from its first piece to its last. What all pieces preserve holds in
every world that such a part of a run can see or come back to.
-/
namespace TownCrier.CallMachine

variable {C A R W K : Type}

/-- The piece of code which an action runs, after the world in which it starts. -/
def Code.piece (M : Code C A R W K) (s : Config W K) : Action C A → Option (W × Outcome R W K)
  | .call c =>
      if s.stack.isEmpty || M.reentrant c then some (s.world,M.start c s.world) else none
  | .ret answer =>
      match s.stack with
      | .code _ saved k::_ =>
          let w := if answer.isSome then s.world else saved
          some (w,M.resume k answer w)
      | _ => none
  | _ => none

/-- Whether an action leaves the frames on the stack alone. -/
def Action.opens : Action C A → Bool
  | .call _ | .enter => true
  | _ => false

theorem Code.piece_cases {M : Code C A R W K} {s : Config W K} {a : Action C A} {w : W}
    {o : Outcome R W K} (h : M.piece s a = some (w,o)) :
    (∃ c, a = .call c ∧ (s.stack = [] ∨ M.reentrant c = true) ∧ w = s.world ∧
      o = M.start c s.world) ∨
      ∃ entry saved k rest answer, a = .ret answer ∧ s.stack = .code entry saved k::rest ∧
        w = (if Option.isSome answer then s.world else saved) ∧ o = M.resume k answer w := by
  obtain ⟨world,stack⟩ := s
  cases a with
  | call c =>
      simp only [Code.piece] at h
      split at h
      next hc =>
        cases h
        rw [Bool.or_eq_true,List.isEmpty_iff] at hc
        exact .inl ⟨c,rfl,hc,rfl,rfl⟩
      next => cases h
  | ret answer =>
      rcases stack with _ | ⟨⟨e,saved,k⟩ | saved,rest⟩
      · cases h
      · cases h
        exact .inr ⟨e,saved,k,rest,answer,rfl,rfl,rfl,rfl⟩
      · cases h
  | outOfGas => cases h
  | enter => cases h
  | leave success => cases h

/-- A suspended call was there before, or the step has just suspended it. -/
theorem Code.step_frame {M : Code C A R W K} {s s' : Config W K} {a : Action C A}
    (hs : M.step s a = some s') {entry saved : W} {k : K} {rest : List (Frame W K)}
    (h : .code entry saved k::rest <:+ s'.stack) :
    .code entry saved k::rest <:+ s.stack ∨ s'.stack = .code entry saved k::rest ∧
      ∃ w, M.piece s a = some (w,.call saved s'.world k) := by
  have hsettle : ∀ {e stack w o}, M.piece s a = some (w,o) → settle e stack o = s' →
      .code entry saved k::rest <:+ stack ∨ s'.stack = .code entry saved k::rest ∧
        ∃ w, M.piece s a = some (w,.call saved s'.world k) := by
    rintro e stack w o hp rfl
    cases o with
    | done result w' => exact .inl h
    | revert => exact .inl h
    | call saved' handover k' =>
        rcases List.suffix_cons_iff.mp h with heq | hsuffix
        · cases heq
          exact .inr ⟨rfl,w,hp⟩
        · exact .inl hsuffix
  obtain ⟨world,stack⟩ := s
  cases a with
  | call c =>
      simp only [Code.step] at hs
      split at hs
      next hc => exact hsettle (if_pos hc) (Option.some.inj hs)
      next => cases hs
  | ret answer =>
      rcases stack with _ | ⟨⟨e,saved',k'⟩ | saved',stack⟩
      · cases hs
      · exact (hsettle rfl (Option.some.inj hs)).imp_left fun h => h.trans (List.suffix_cons _ _)
      · cases hs
  | outOfGas =>
      rcases stack with _ | ⟨⟨e,saved',k'⟩ | saved',stack⟩
      · cases hs
      · cases hs
        exact .inl (h.trans (List.suffix_cons _ _))
      · cases hs
  | enter =>
      cases hs
      rcases List.suffix_cons_iff.mp h with heq | hsuffix
      · cases heq
      · exact .inl hsuffix
  | leave success =>
      rcases stack with _ | ⟨⟨e,saved',k'⟩ | saved',stack⟩
      · cases hs
      · cases hs
      · cases hs
        exact .inl (h.trans (List.suffix_cons _ _))

/-- The part of a run above the stack of `s₀`, whose frames stay suspended. -/
inductive During (M : Code C A R W K) (allowed : Config W K → Action C A → Config W K → Prop)
    (s₀ : Config W K) : Config W K → Prop
  | start : During M allowed s₀ s₀
  | step {s s'} (a : Action C A) (h : During M allowed s₀ s) (hs : M.step s a = some s')
      (ha : allowed s a s') (hstack : s.stack = s₀.stack → a.opens = true) :
      During M allowed s₀ s'

/-- A call that was entered in `entry` returns, from one piece of its code on. -/
inductive Returns (M : Code C A R W K) (allowed : Config W K → Action C A → Config W K → Prop)
    (entry : W) (rest : List (Frame W K)) : Outcome R W K → R → W → Prop
  | done {result w} : Returns M allowed entry rest (.done result w) result w
  | resumed {saved handover k w result w'} (answer : Option A)
      (h : During M allowed ⟨handover,.code entry saved k::rest⟩ ⟨w,.code entry saved k::rest⟩)
      (h' : Returns M allowed entry rest
        (M.resume k answer (if answer.isSome then w else saved)) result w') :
      Returns M allowed entry rest (.call saved handover k) result w'

theorem During.reach {M : Code C A R W K} {allowed : Config W K → Action C A → Config W K → Prop}
    {w₀ : W} {s₀ s : Config W K} (h₀ : Reach M allowed w₀ s₀) (h : During M allowed s₀ s) :
    Reach M allowed w₀ s := by
  induction h with
  | start => exact h₀
  | step a _ hs ha _ ih => exact .step a ih hs ha

/-- What a piece leaves behind, wherever it stops. -/
def Outcome.All (I : W → Prop) (L : K → Prop) : Outcome R W K → Prop
  | .done _ w => I w
  | .revert => True
  | .call saved handover k => I saved ∧ I handover ∧ L k

theorem Outcome.All.mono {I I' : W → Prop} {L L' : K → Prop} {o : Outcome R W K} (h : o.All I L)
    (hI : ∀ w, I w → I' w) (hL : ∀ k, L k → L' k) : o.All I' L' := by
  cases o with
  | done result w => exact hI w h
  | revert => trivial
  | call saved handover k => exact ⟨hI _ h.1,hI _ h.2.1,hL _ h.2.2⟩

theorem Outcome.All.and {I I' : W → Prop} {L : K → Prop} {o : Outcome R W K} (h : o.All I L)
    (h' : o.All I' L) : o.All (fun w => I w ∧ I' w) L := by
  cases o with
  | done result w => exact ⟨h,h'⟩
  | revert => trivial
  | call saved handover k => exact ⟨⟨h.1,h'.1⟩,⟨h.2.1,h'.2.1⟩,h.2.2⟩

theorem Outcome.All.settle {I : W → Prop} {L : K → Prop} {entry : W} {stack : List (Frame W K)}
    {o : Outcome R W K} (h : o.All I L) (he : I entry) : I (settle entry stack o).world := by
  cases o with
  | done result w => exact h
  | revert => exact he
  | call saved handover k => exact h.2.1

def Frame.All (I : W → Prop) (L : K → Prop) : Frame W K → Prop
  | .code entry saved k => I entry ∧ I saved ∧ L k
  | .other saved => I saved

/-- The worlds of a configuration down to the stack `base`. -/
def Above (I : W → Prop) (L : K → Prop) (base : List (Frame W K)) (s : Config W K) : Prop :=
  I s.world ∧ ∃ frames, s.stack = frames++base ∧ ∀ f ∈ frames, f.All I L

section Above
variable {M : Code C A R W K} {I : W → Prop} {L : K → Prop} {base : List (Frame W K)}

theorem Above.mono {I' : W → Prop} {L' : K → Prop} {s : Config W K} (h : Above I L base s)
    (hI : ∀ w, I w → I' w) (hL : ∀ k, L k → L' k) : Above I' L' base s := by
  obtain ⟨hw,frames,hstack,hframes⟩ := h
  refine ⟨hI _ hw,frames,hstack,fun f hf => ?_⟩
  have hf := hframes f hf
  cases f with
  | code entry saved k => exact ⟨hI _ hf.1,hI _ hf.2.1,hL _ hf.2.2⟩
  | other saved => exact hI _ hf

theorem settle_above {entry : W} {frames : List (Frame W K)} {o : Outcome R W K}
    (he : I entry) (hframes : ∀ f ∈ frames, f.All I L) (ho : o.All I L) :
    Above I L base (settle entry (frames++base) o) := by
  cases o with
  | done result w => exact ⟨ho,frames,rfl,hframes⟩
  | revert => exact ⟨he,frames,rfl,hframes⟩
  | call saved handover k =>
      exact ⟨ho.2.1,_::frames,rfl,List.forall_mem_cons.mpr ⟨⟨he,ho.1,ho.2.2⟩,hframes⟩⟩

/-- A step that takes a frame finds one above the stack it must not touch. -/
theorem top_frame {w : W} {frames : List (Frame W K)} {s' : Config W K} {a : Action C A}
    (hs : M.step ⟨w,frames++base⟩ a = some s') (ha : a.opens = false)
    (hstack : base ≠ [] → frames++base = base → a.opens = true) : ∃ f rest, frames = f::rest := by
  cases frames with
  | cons f rest => exact ⟨f,rest,rfl⟩
  | nil =>
      cases base with
      | nil =>
          cases a with
          | call c => cases ha
          | enter => cases ha
          | ret answer => cases hs
          | outOfGas => cases hs
          | leave success => cases hs
      | cons f rest => cases ha.symm.trans (hstack (List.cons_ne_nil _ _) rfl)

/-- A step keeps `I` and `L` if the piece of code it runs does. -/
theorem step_above {s s' : Config W K} {a : Action C A} (h : Above I L base s)
    (hs : M.step s a = some s') (hstack : base ≠ [] → s.stack = base → a.opens = true)
    (hstart : ∀ c, a = .call c → s.stack = [] ∨ M.reentrant c = true → I s.world →
      (M.start c s.world).All I L)
    (hresume : ∀ k answer w, L k → I w → (M.resume k answer w).All I L) : Above I L base s' := by
  obtain ⟨w,stack⟩ := s
  obtain ⟨hw,frames,rfl,hframes⟩ := h
  cases a with
  | call c =>
      simp only [Code.step] at hs
      split at hs
      next hc =>
        cases hs
        rw [Bool.or_eq_true,List.isEmpty_iff] at hc
        exact settle_above hw hframes (hstart c rfl hc hw)
      next => cases hs
  | enter =>
      cases hs
      exact ⟨hw,_::frames,rfl,List.forall_mem_cons.mpr ⟨hw,hframes⟩⟩
  | ret answer =>
      obtain ⟨f,frames,rfl⟩ := top_frame hs rfl hstack
      obtain ⟨hf,hrest⟩ := List.forall_mem_cons.mp hframes
      cases f with
      | other saved => cases hs
      | code entry saved k =>
          cases hs
          refine settle_above hf.1 hrest (hresume k answer _ hf.2.2 ?_)
          split
          · exact hw
          · exact hf.2.1
  | outOfGas =>
      obtain ⟨f,frames,rfl⟩ := top_frame hs rfl hstack
      obtain ⟨hf,hrest⟩ := List.forall_mem_cons.mp hframes
      cases f with
      | other saved => cases hs
      | code entry saved k =>
          cases hs
          exact ⟨hf.1,frames,rfl,hrest⟩
  | leave success =>
      obtain ⟨f,frames,rfl⟩ := top_frame hs rfl hstack
      obtain ⟨hf,hrest⟩ := List.forall_mem_cons.mp hframes
      cases f with
      | code entry saved k => cases hs
      | other saved =>
          cases hs
          refine ⟨?_,frames,rfl,hrest⟩
          cases success with
          | false => exact hf
          | true => exact hw

variable {allowed : Config W K → Action C A → Config W K → Prop}

/-- What holds in all worlds of a run, also of its own earlier states. -/
theorem Reach.above {w₀ : W} {s : Config W K} (hI : I w₀)
    (hstart : ∀ s c, Reach M allowed w₀ s → s.stack = [] ∨ M.reentrant c = true → I s.world →
      (M.start c s.world).All I L)
    (hresume : ∀ k answer w, L k → I w → (M.resume k answer w).All I L)
    (h : Reach M allowed w₀ s) : Above I L [] s := by
  induction h with
  | start => exact ⟨hI,[],rfl,by simp⟩
  | @step s s' a h hs _ ih =>
      exact step_above ih hs (fun hne => absurd rfl hne) (fun c _ => hstart s c h) hresume

end Above

/-- `I` for worlds and `L` for continuations are kept by the code, from calls
that can be made inside another or, with an empty stack below, by any call. -/
structure Kept (M : Code C A R W K) (I : W → Prop) (L : K → Prop) (base : List (Frame W K)) :
    Prop where
  start : ∀ c w, base = [] ∨ M.reentrant c = true → I w → (M.start c w).All I L
  resume : ∀ k a w, L k → I w → (M.resume k a w).All I L

namespace Kept
variable {M : Code C A R W K} {I : W → Prop} {L : K → Prop}
variable {allowed : Config W K → Action C A → Config W K → Prop}

/-- What other code can do while a call is suspended. -/
theorem during {s₀ s : Config W K} (hM : Kept M I L s₀.stack) (hI : I s₀.world)
    (h : During M allowed s₀ s) : Above I L s₀.stack s := by
  induction h with
  | start => exact ⟨hI,[],rfl,by simp⟩
  | step a _ hs _ hstack ih =>
      refine step_above ih hs (fun _ => hstack) (fun c _ hc => hM.start c _ ?_) hM.resume
      obtain ⟨-,frames,heq,-⟩ := ih
      rw [heq] at hc
      exact hc.imp_left fun h => (List.append_eq_nil_iff.mp h).2

theorem reach {w₀ : W} {s : Config W K} (hM : Kept M I L []) (hI : I w₀)
    (h : Reach M allowed w₀ s) : Above I L [] s :=
  Reach.above hI (fun _ c _ _ => hM.start c _ (.inl rfl)) hM.resume h

end Kept

/-- What a piece of a run starts with. -/
theorem Above.piece {M : Code C A R W K} {I : W → Prop} {L : K → Prop} {s : Config W K}
    {a : Action C A} {w : W} {o : Outcome R W K} (h : Above I L [] s)
    (hp : M.piece s a = some (w,o)) :
    I w ∧ ((∃ c, o = M.start c w) ∨ ∃ k answer, L k ∧ o = M.resume k answer w) := by
  obtain ⟨hw,frames,hstack,hframes⟩ := h
  rcases Code.piece_cases hp with
    ⟨c,-,-,rfl,rfl⟩ | ⟨e,saved,k,rest,answer,-,heq,rfl,rfl⟩
  · exact ⟨hw,.inl ⟨c,rfl⟩⟩
  · rw [hstack,List.append_nil] at heq
    obtain ⟨-,hs,hk⟩ := hframes _ (heq ▸ List.mem_cons_self)
    refine ⟨?_,.inr ⟨k,answer,hk,rfl⟩⟩
    split
    · exact hw
    · exact hs

open Classical in
/-- The code without the calls that do not meet a condition. -/
noncomputable def Code.restrict (M : Code C A R W K) (ok : C → W → Prop) : Code C A R W K :=
  {M with start := fun c w => if ok c w then M.start c w else .revert}

theorem Code.step_restrict {M : Code C A R W K} {ok : C → W → Prop} {s s' : Config W K}
    {a : Action C A} (hs : M.step s a = some s') (ha : ∀ c, a = .call c → ok c s.world) :
    (M.restrict ok).step s a = some s' := by
  cases a with
  | call c =>
      simp only [Code.step,Code.restrict] at hs ⊢
      rw [if_pos (ha c rfl)]
      exact hs
  | ret answer => exact hs
  | outOfGas => exact hs
  | enter => exact hs
  | leave success => exact hs

/-- A call that starts in a good world and returns is part of a run through good
worlds, if good worlds are what its pieces leave behind. -/
theorem Returns.reach {M : Code C A R W K} {good : W → Prop} {w₀ entry w : W}
    {rest : List (Frame W K)} {o : Outcome R W K} {result : R}
    (hresume : ∀ k answer w, good w → (M.resume k answer w).All good fun _ => True)
    (he : good entry) (h : Returns M (fun _ _ s => good s.world) entry rest o result w)
    (ho : o.All good fun _ => True)
    (hr : Reach M (fun _ _ s => good s.world) w₀ (settle entry rest o)) :
    good w ∧ Reach M (fun _ _ s => good s.world) w₀ ⟨w,rest⟩ := by
  induction h with
  | done => exact ⟨ho,hr⟩
  | @resumed saved handover k x result w' answer hduring h' ih =>
      obtain ⟨hsaved,hhandover,-⟩ := ho
      have hx : good x := by
        cases hduring with
        | start => exact hhandover
        | step a _ _ ha _ => exact ha
      have hy : good (if answer.isSome then x else saved) := by
        split
        · exact hx
        · exact hsaved
      have hall := hresume k answer _ hy
      exact ih hall (.step (.ret answer) (hduring.reach hr) rfl (hall.settle he))

section Restrict
variable {M : Code C A R W K} {ok : C → W → Prop}
variable {allowed : Config W K → Action C A → Config W K → Prop}

/-- A run whose calls all meet the condition. -/
theorem Reach.restrict {w₀ : W} {s : Config W K}
    (hallowed : ∀ s c s', allowed s (.call c) s' → ok c s.world) (h : Reach M allowed w₀ s) :
    Reach (M.restrict ok) allowed w₀ s := by
  induction h with
  | start => exact .start
  | @step s s' a _ hs ha ih =>
      refine .step a ih (Code.step_restrict hs ?_) ha
      rintro c rfl
      exact hallowed _ _ _ ha

theorem During.restrict {s₀ s : Config W K}
    (hallowed : ∀ s c s', allowed s (.call c) s' → ok c s.world) (h : During M allowed s₀ s) :
    During (M.restrict ok) allowed s₀ s := by
  induction h with
  | start => exact .start
  | @step s s' a _ hs ha hstack ih =>
      refine .step a ih (Code.step_restrict hs ?_) ha hstack
      rintro c rfl
      exact hallowed _ _ _ ha

end Restrict

end TownCrier.CallMachine
