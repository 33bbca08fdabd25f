import TownCrier.CallMachine

/-!
# Contracts that call each other

The code which a handover reaches can be known itself, so that it starts there
and answers with its own result. All other code may make some of the calls, any
number of them and to any depth. `Exec` relates a task to its answer and to the
world in which it ends, and `Within` finds the worlds in which other code has
control and those in which a call starts, also where a failure takes everything
back afterwards.

A `Spec` gives each call what it may rely on and what it promises. A call of
known code counts on the promise, a call of other code on the invariant alone.
-/
namespace TownCrier.CallMachine

structure System (C R W K : Type) where
  start : C → W → Outcome R W K
  resume : K → Option R → W → Outcome R W K
  /-- The calls of known code that a handover can be. -/
  callee : K → W → C → Prop
  /-- Whether a handover goes to other code. -/
  outside : K → W → Prop
  /-- What other code can call in the middle of a transaction. -/
  external : C → Prop
  /-- What a transaction can start with. -/
  transaction : C → Prop
  /-- Whether a call can run out of gas before it makes one itself. -/
  costly : C → Prop

inductive Task (R W K : Type) where
  | code (entry : W) (o : Outcome R W K)
  | handover (saved handover : W) (k : K)
  | other (w : W)

/-- A moment at which other code has control or a call starts. -/
inductive Moment (C W : Type) where
  | other (w : W)
  | call (c : C) (w : W)

namespace System
variable {C R W K : Type} (S : System C R W K) (ok : C → W → Prop)

/-- The answer of a task, `none` for a failure, and the world after it, with
calls that all meet `ok`. A handover ends where its caller goes on. -/
inductive Exec : Task R W K → Option R → W → Prop
  | done {e r w} : Exec (.code e (.done r w)) (some r) w
  | revert {e} : Exec (.code e .revert) none e
  | outOfGas {e s h k} : Exec (.code e (.call s h k)) none e
  | resumed {e s h k a w b w'} (hcall : Exec (.handover s h k) a w)
      (hrest : Exec (.code e (S.resume k a w)) b w') : Exec (.code e (.call s h k)) b w'
  | starved {s h k c} (hc : S.callee k h c) (hcost : S.costly c) : Exec (.handover s h k) none s
  | inner {s h k c a w} (hc : S.callee k h c) (hok : ok c h)
      (hcall : Exec (.code h (S.start c h)) a w) :
      Exec (.handover s h k) a (if a.isSome then w else s)
  | outer {s h k a w} (hout : S.outside k h) (hother : Exec (.other h) a w) :
      Exec (.handover s h k) a (if a.isSome then w else s)
  | idle {w a} : Exec (.other w) a w
  | nested {w c b w₁ a w₂} (hc : S.external c) (hok : ok c w)
      (hcall : Exec (.code w (S.start c w)) b w₁) (hrest : Exec (.other w₁) a w₂) :
      Exec (.other w) a w₂

inductive Within : Task R W K → Moment C W → Prop
  | here {w} : Within (.other w) (.other w)
  | called {e s h k x} (hx : Within (.handover s h k) x) : Within (.code e (.call s h k)) x
  | resumed {e s h k a w x} (hcall : S.Exec ok (.handover s h k) a w)
      (hx : Within (.code e (S.resume k a w)) x) : Within (.code e (.call s h k)) x
  | entered {s h k c} (hc : S.callee k h c) (hok : ok c h) : Within (.handover s h k) (.call c h)
  | inner {s h k c x} (hc : S.callee k h c) (hok : ok c h)
      (hx : Within (.code h (S.start c h)) x) : Within (.handover s h k) x
  | outer {s h k x} (hout : S.outside k h) (hx : Within (.other h) x) : Within (.handover s h k) x
  | calling {w c} (hc : S.external c) (hok : ok c w) : Within (.other w) (.call c w)
  | nested {w c x} (hc : S.external c) (hok : ok c w) (hx : Within (.code w (S.start c w)) x) :
      Within (.other w) x
  | after {w c b w₁ x} (hc : S.external c) (hok : ok c w)
      (hcall : S.Exec ok (.code w (S.start c w)) b w₁) (hx : Within (.other w₁) x) :
      Within (.other w) x

/-- Whole transactions, one after the other. -/
inductive Run : W → W → Prop
  | start {w} : Run w w
  | step {w₀ w c a w'} (h : Run w₀ w) (hc : S.transaction c) (hok : ok c w)
      (hcall : S.Exec ok (.code w (S.start c w)) a w') : Run w₀ w'

/-- The moments of all runs, also those inside a transaction. -/
inductive Seen (w₀ : W) : Moment C W → Prop
  | between {w} (h : S.Run ok w₀ w) : Seen w₀ (.other w)
  | calling {w c} (h : S.Run ok w₀ w) (hc : S.transaction c) (hok : ok c w) : Seen w₀ (.call c w)
  | inside {w c x} (h : S.Run ok w₀ w) (hc : S.transaction c) (hok : ok c w)
      (hx : S.Within ok (.code w (S.start c w)) x) : Seen w₀ x

section Allowed
variable {S ok}

theorem Within.allowed {t : Task R W K} {c : C} {w : W} (h : S.Within ok t (.call c w)) :
    ok c w := by
  generalize hx : Moment.call c w = x at h
  induction h with
  | here => cases hx
  | called _ ih | resumed _ _ ih | inner _ _ _ ih | outer _ _ ih | nested _ _ _ ih
  | after _ _ _ _ ih => exact ih hx
  | entered _ hok | calling _ hok =>
      cases hx
      exact hok

theorem Seen.allowed {w₀ w : W} {c : C} (h : S.Seen ok w₀ (.call c w)) : ok c w := by
  cases h with
  | calling _ _ hok => exact hok
  | inside _ _ _ hx => exact hx.allowed

end Allowed

/-- What can happen from one moment at which other code has control to another. -/
def Leads (w w' : W) : Prop := ∃ a, S.Exec ok (.other w) a w'

end System

/-- `inv` holds wherever other code has control, which leaves the world related
to what it found by `rel`. -/
structure Spec (C R W K : Type) where
  inv : W → Prop
  rel : W → W → Prop
  pre : C → W → Prop
  post : C → W → Option R → W → Prop
  held : C → W → K → W → W → Prop

namespace Spec
variable {C R W K : Type} (P : Spec C R W K)

/-- Demanded of each piece of the code of `c`, which was entered in `e`. -/
def Piece (c : C) (e : W) : Outcome R W K → Prop
  | .done r w => P.post c e (some r) w
  | .revert => P.post c e none e
  | .call s h k => P.held c e k s h ∧ P.post c e none e

structure Sound (S : System C R W K) (ok : C → W → Prop) : Prop where
  refl : ∀ w, P.rel w w
  trans : ∀ {w₁ w₂ w₃}, P.rel w₁ w₂ → P.rel w₂ w₃ → P.rel w₁ w₃
  entry : ∀ c w, S.external c ∨ S.transaction c → P.inv w → ok c w → P.pre c w
  exit : ∀ c w a w', S.external c ∨ S.transaction c → P.inv w → P.post c w a w' →
    P.inv w' ∧ P.rel w w'
  start : ∀ c w, P.pre c w → ok c w → P.Piece c w (S.start c w)
  starved : ∀ c e k s h c', P.held c e k s h → S.callee k h c' → S.costly c' →
    P.Piece c e (S.resume k none s)
  inner : ∀ c e k s h c', P.held c e k s h → S.callee k h c' → ok c' h →
    P.pre c' h ∧ ∀ a w, P.post c' h a w → P.Piece c e (S.resume k a (if a.isSome then w else s))
  outer : ∀ c e k s h, P.held c e k s h → S.outside k h →
    P.inv h ∧ ∀ a w, P.inv w → P.rel h w → P.Piece c e (S.resume k a (if a.isSome then w else s))

/-- What the induction over a run shows of each task. -/
def Kept (S : System C R W K) : Task R W K → Option R → W → Prop
  | .code e o, a, w => ∀ c, P.Piece c e o → P.post c e a w
  | .handover s h k, a, w => ∀ c e, P.held c e k s h → P.Piece c e (S.resume k a w)
  | .other w₁, _, w => P.inv w₁ → P.inv w ∧ P.rel w₁ w

/-- What holds at a moment. -/
def Holds : Moment C W → Prop
  | .other w => P.inv w
  | .call c w => P.pre c w

/-- Where a task finds what it relies on, its moments hold. -/
def Ready : Task R W K → Prop
  | .code e o => ∃ c, P.Piece c e o
  | .handover s h k => ∃ c e, P.held c e k s h
  | .other w => P.inv w

namespace Sound
variable {P : Spec C R W K} {S : System C R W K} {ok : C → W → Prop}

theorem exec (hP : P.Sound S ok) {t : Task R W K} {a : Option R} {w : W} (h : S.Exec ok t a w) :
    P.Kept S t a w := by
  induction h with
  | done => exact fun c hpiece => hpiece
  | revert => exact fun c hpiece => hpiece
  | outOfGas => exact fun c hpiece => hpiece.2
  | resumed _ _ ihcall ihrest => exact fun c hpiece => ihrest c (ihcall c _ hpiece.1)
  | starved hc hcost => exact fun c e hheld => hP.starved c e _ _ _ _ hheld hc hcost
  | inner hc hok _ ih =>
      intro c e hheld
      obtain ⟨hpre,hrest⟩ := hP.inner c e _ _ _ _ hheld hc hok
      exact hrest _ _ (ih _ (hP.start _ _ hpre hok))
  | outer hout _ ih =>
      intro c e hheld
      obtain ⟨hinv,hrest⟩ := hP.outer c e _ _ _ hheld hout
      obtain ⟨hinv',hrel⟩ := ih hinv
      exact hrest _ _ hinv' hrel
  | idle => exact fun hinv => ⟨hinv,hP.refl _⟩
  | nested hc hok _ _ ihcall ihrest =>
      intro hinv
      have hpost := ihcall _ (hP.start _ _ (hP.entry _ _ (.inl hc) hinv hok) hok)
      obtain ⟨hinv₁,hrel₁⟩ := hP.exit _ _ _ _ (.inl hc) hinv hpost
      obtain ⟨hinv₂,hrel₂⟩ := ihrest hinv₁
      exact ⟨hinv₂,hP.trans hrel₁ hrel₂⟩

theorem within (hP : P.Sound S ok) {t : Task R W K} {x : Moment C W} (h : S.Within ok t x)
    (ht : P.Ready t) : P.Holds x := by
  induction h with
  | here => exact ht
  | called _ ih =>
      obtain ⟨c,hpiece⟩ := ht
      exact ih ⟨c,_,hpiece.1⟩
  | resumed hcall _ ih =>
      obtain ⟨c,hpiece⟩ := ht
      exact ih ⟨c,hP.exec hcall c _ hpiece.1⟩
  | entered hc hok =>
      obtain ⟨c,e,hheld⟩ := ht
      exact (hP.inner c e _ _ _ _ hheld hc hok).1
  | inner hc hok _ ih =>
      obtain ⟨c,e,hheld⟩ := ht
      exact ih ⟨_,hP.start _ _ (hP.inner c e _ _ _ _ hheld hc hok).1 hok⟩
  | outer hout _ ih =>
      obtain ⟨c,e,hheld⟩ := ht
      exact ih (hP.outer c e _ _ _ hheld hout).1
  | calling hc hok => exact hP.entry _ _ (.inl hc) ht hok
  | nested hc hok _ ih => exact ih ⟨_,hP.start _ _ (hP.entry _ _ (.inl hc) ht hok) hok⟩
  | after hc hok hcall _ ih =>
      have hpost := hP.exec hcall _ (hP.start _ _ (hP.entry _ _ (.inl hc) ht hok) hok)
      exact ih (hP.exit _ _ _ _ (.inl hc) ht hpost).1

theorem run (hP : P.Sound S ok) {w₀ w : W} (h : S.Run ok w₀ w) (h₀ : P.inv w₀) :
    P.inv w ∧ P.rel w₀ w := by
  induction h with
  | start => exact ⟨h₀,hP.refl _⟩
  | step _ hc hok hcall ih =>
      obtain ⟨hinv,hrel⟩ := ih
      have hpost := hP.exec hcall _ (hP.start _ _ (hP.entry _ _ (.inr hc) hinv hok) hok)
      obtain ⟨hinv',hrel'⟩ := hP.exit _ _ _ _ (.inr hc) hinv hpost
      exact ⟨hinv',hP.trans hrel hrel'⟩

/-- Every moment of every run finds what it relies on. -/
theorem seen (hP : P.Sound S ok) {w₀ : W} (h₀ : P.inv w₀) {x : Moment C W}
    (h : S.Seen ok w₀ x) : P.Holds x := by
  cases h with
  | between h => exact (hP.run h h₀).1
  | calling h hc hok => exact hP.entry _ _ (.inr hc) (hP.run h h₀).1 hok
  | inside h hc hok hx =>
      exact hP.within hx ⟨_,hP.start _ _ (hP.entry _ _ (.inr hc) (hP.run h h₀).1 hok) hok⟩

/-- What a call that starts in some run promises. -/
theorem called (hP : P.Sound S ok) {w₀ w w' : W} {c : C} {a : Option R} (h₀ : P.inv w₀)
    (h : S.Seen ok w₀ (.call c w)) (hcall : S.Exec ok (.code w (S.start c w)) a w') :
    P.pre c w ∧ P.post c w a w' :=
  ⟨hP.seen h₀ h,hP.exec hcall c (hP.start c w (hP.seen h₀ h) h.allowed)⟩

end Sound
end Spec
end TownCrier.CallMachine
