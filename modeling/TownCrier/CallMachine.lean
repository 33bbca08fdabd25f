/-!
# A contract among other code

A call runs the contract's own code up to its next external call. Other code
runs from there and may call the contract again, to any depth; the suspended
call goes on when that code returns. Whatever fails takes back everything since
its start, nested calls included. Gas is not counted: a suspended call may run
out of it at any time.

`Assertions.Sound` collects what a proof about a contract has to check for each
call and each continuation, and `Sound.reach` extends it to every run.
-/
namespace TownCrier.CallMachine

inductive Outcome (R W K : Type) where
  | done (result : R) (w : W)
  | revert
  /-- Other code starts in `handover`; if it fails, the contract is back in `saved`. -/
  | call (saved handover : W) (k : K)

/-- `C` are the calls, `K` the continuations, `A` what other code returns. -/
structure Code (C A R W K : Type) where
  start : C → W → Outcome R W K
  resume : K → Option A → W → Outcome R W K
  /-- Whether code which has been called can make this call. -/
  reentrant : C → Bool

inductive Frame (W K : Type) where
  | code (entry saved : W) (k : K)
  /-- Other code whose effects can still be taken back. -/
  | other (saved : W)

structure Config (W K : Type) where
  world : W
  stack : List (Frame W K)

inductive Action (C A : Type) where
  | call (c : C)
  | ret (answer : Option A)
  | outOfGas
  | enter
  | leave (success : Bool)

variable {C A R W K : Type}

/-- The configuration after a piece of code that was entered in `entry`. -/
def settle (entry : W) (stack : List (Frame W K)) : Outcome R W K → Config W K
  | .done _ w => ⟨w,stack⟩
  | .revert => ⟨entry,stack⟩
  | .call saved handover k => ⟨handover,.code entry saved k::stack⟩

def Code.step (M : Code C A R W K) (s : Config W K) : Action C A → Option (Config W K)
  | .call c =>
      if s.stack.isEmpty || M.reentrant c then
        some (settle s.world s.stack (M.start c s.world)) else none
  | .ret answer =>
      match s.stack with
      | .code entry saved k::rest =>
          some (settle entry rest (M.resume k answer (if answer.isSome then s.world else saved)))
      | _ => none
  | .outOfGas =>
      match s.stack with
      | .code entry _ _::rest => some ⟨entry,rest⟩
      | _ => none
  | .enter => some ⟨s.world,.other s.world::s.stack⟩
  | .leave success =>
      match s.stack with
      | .other saved::rest => some ⟨if success then s.world else saved,rest⟩
      | _ => none

/-- What runs lead to, along steps which `allowed` admits. -/
inductive Reach (M : Code C A R W K)
    (allowed : Config W K → Action C A → Config W K → Prop) (w₀ : W) : Config W K → Prop
  | start : Reach M allowed w₀ ⟨w₀,[]⟩
  | step {s s'} (a : Action C A) (h : Reach M allowed w₀ s) (hs : M.step s a = some s')
      (ha : allowed s a s') : Reach M allowed w₀ s'

/-- Between two calls from outside a run can be cut. -/
theorem Reach.trans {M : Code C A R W K}
    {allowed : Config W K → Action C A → Config W K → Prop} {w₀ w₁ : W} {s : Config W K}
    (h₁ : Reach M allowed w₀ ⟨w₁,[]⟩) (h₂ : Reach M allowed w₁ s) : Reach M allowed w₀ s := by
  induction h₂ with
  | start => exact h₁
  | step a _ hs ha ih => exact .step a ih hs ha

/-- `rel` bounds what happens to the contract between two moments of one call,
`held` describes a handover and `failed` the state to which a failure returns. -/
structure Assertions (W K : Type) where
  inv : W → Prop
  rel : W → W → Prop
  held : K → W → W → Prop
  failed : K → W → W → Prop

/-- Demanded of each piece of code, only where the state it leaves is `good`. -/
def Assertions.Post (P : Assertions W K) (good : W → Prop) (entry : W) : Outcome R W K → Prop
  | .done _ w => good w → P.inv w ∧ P.rel entry w
  | .revert => True
  | .call saved handover k =>
      good handover → P.inv handover ∧ P.held k entry handover ∧ P.failed k entry saved

structure Assertions.Sound (P : Assertions W K) (M : Code C A R W K) (good : W → Prop)
    (w₀ : W) : Prop where
  refl : ∀ w, P.rel w w
  trans : ∀ {w₁ w₂ w₃}, P.rel w₁ w₂ → P.rel w₂ w₃ → P.rel w₁ w₃
  initial : P.inv w₀
  start : ∀ c w, P.inv w → M.reentrant c = true ∨ P.rel w₀ w → P.Post good w (M.start c w)
  resume : ∀ k a e h w, P.held k e h → P.rel h w → P.inv w →
    P.Post good e (M.resume k (some a) w)
  recover : ∀ k e s, P.failed k e s → P.Post good e (M.resume k none s)

/-- The frames below a world: each relates to what runs above it. -/
def Assertions.Stacked (P : Assertions W K) (w₀ : W) : W → List (Frame W K) → Prop
  | w, [] => P.rel w₀ w
  | w, .code e s k::rest =>
      P.inv e ∧ (∃ h, P.held k e h ∧ P.rel h w) ∧ P.failed k e s ∧ P.Stacked w₀ e rest
  | w, .other s::rest => P.inv s ∧ P.rel s w ∧ P.Stacked w₀ s rest

namespace Assertions.Sound
variable {P : Assertions W K} {M : Code C A R W K} {good : W → Prop} {w₀ : W}

theorem stacked_rel (hP : P.Sound M good w₀) {w w' : W} {stack : List (Frame W K)}
    (h : P.Stacked w₀ w stack) (hrel : P.rel w w') : P.Stacked w₀ w' stack := by
  cases stack with
  | nil => exact hP.trans h hrel
  | cons f rest =>
      cases f with
      | code e s k =>
          obtain ⟨he,⟨x,hheld,hx⟩,hf,hrest⟩ := h
          exact ⟨he,⟨x,hheld,hP.trans hx hrel⟩,hf,hrest⟩
      | other s => exact ⟨h.1,hP.trans h.2.1 hrel,h.2.2⟩

/-- A piece of code that meets its demands leaves a well-formed configuration. -/
theorem settle_kept (hP : P.Sound M good w₀) {entry : W} {stack : List (Frame W K)}
    {o : Outcome R W K} (he : P.inv entry) (hstack : P.Stacked w₀ entry stack)
    (hpost : P.Post good entry o) (hgood : good (settle entry stack o).world) :
    P.inv (settle entry stack o).world ∧
      P.Stacked w₀ (settle entry stack o).world (settle entry stack o).stack := by
  cases o with
  | done result w =>
      obtain ⟨hw,hrel⟩ := hpost hgood
      exact ⟨hw,hP.stacked_rel hstack hrel⟩
  | revert => exact ⟨he,hstack⟩
  | call saved handover k =>
      obtain ⟨hh,hheld,hf⟩ := hpost hgood
      exact ⟨hh,he,⟨handover,hheld,hP.refl _⟩,hf,hstack⟩

theorem step_kept (hP : P.Sound M good w₀) {s s' : Config W K} {a : Action C A}
    (hs : M.step s a = some s') (hgood : good s'.world) (hw : P.inv s.world)
    (hstack : P.Stacked w₀ s.world s.stack) :
    P.inv s'.world ∧ P.Stacked w₀ s'.world s'.stack := by
  obtain ⟨w,stack⟩ := s
  cases a with
  | call c =>
      simp only [Code.step] at hs
      split at hs
      next hc =>
        cases hs
        refine hP.settle_kept hw hstack (hP.start c w hw ?_) hgood
        cases stack with
        | nil => exact .inr hstack
        | cons f rest => exact .inl (by simpa using hc)
      next => cases hs
  | ret answer =>
      rcases stack with _ | ⟨⟨e,saved,k⟩ | s,rest⟩
      · cases hs
      · obtain ⟨he,⟨x,hheld,hx⟩,hf,hrest⟩ := hstack
        cases answer with
        | none =>
            cases hs
            exact hP.settle_kept he hrest (hP.recover k e saved hf) hgood
        | some a =>
            cases hs
            exact hP.settle_kept he hrest (hP.resume k a e x w hheld hx hw) hgood
      · cases hs
  | outOfGas =>
      rcases stack with _ | ⟨⟨e,saved,k⟩ | s,rest⟩
      · cases hs
      · cases hs
        exact ⟨hstack.1,hstack.2.2.2⟩
      · cases hs
  | enter =>
      cases hs
      exact ⟨hw,hw,hP.refl _,hstack⟩
  | leave success =>
      rcases stack with _ | ⟨⟨e,saved,k⟩ | s,rest⟩
      · cases hs
      · cases hs
      · obtain ⟨hinv,hrel,hrest⟩ := hstack
        cases hs
        cases success with
        | false => exact ⟨hinv,hrest⟩
        | true => exact ⟨hw,hP.stacked_rel hrest hrel⟩

theorem reach (hP : P.Sound M good w₀)
    {allowed : Config W K → Action C A → Config W K → Prop}
    (hallowed : ∀ s a s', allowed s a s' → good s'.world) {s : Config W K}
    (h : Reach M allowed w₀ s) : P.inv s.world ∧ P.Stacked w₀ s.world s.stack := by
  induction h with
  | start => exact ⟨hP.initial,hP.refl _⟩
  | step a _ hs ha ih => exact hP.step_kept hs (hallowed _ _ _ ha) ih.1 ih.2

end Assertions.Sound
end TownCrier.CallMachine
