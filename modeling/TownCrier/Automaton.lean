import Mathlib.Data.List.Basic
import Mathlib.Data.Option.Basic

/-!
# Machines and their runs

A machine that reads a stream takes one item after the other. It can get stuck, and
in a final state it takes no more. Where the stream was cut does not matter to it.

Other systems take steps with labels. `allowed` restricts the steps that a run takes,
and what each of these steps keeps holds in every state of the run.
-/
namespace TownCrier.Automaton

structure Machine (S A : Type) where
  step : S → A → Option S
  final : S → Bool

namespace Machine
variable {S A : Type} (M : Machine S A)

def read (s : S) (a : A) : Option S := if M.final s then some s else M.step s a

def feed (s : S) : List A → Option S
  | [] => some s
  | a::x => (M.read s a).bind fun s => feed s x

variable {M} {s s' : S} {a : A} {x y : List A}

@[simp] theorem feed_nil : M.feed s [] = some s := rfl

theorem feed_cons : M.feed s (a::x) = (M.read s a).bind fun s => M.feed s x := rfl

theorem read_final (h : M.final s = true) : M.read s a = some s := if_pos h

theorem read_step (h : M.final s = false) : M.read s a = M.step s a := by
  rw [read,h]
  rfl

theorem feed_final (h : M.final s = true) : M.feed s x = some s := by
  induction x with
  | nil => rfl
  | cons a x ih =>
      rw [feed_cons,read_final h]
      exact ih

theorem feed_append : M.feed s (x++y) = (M.feed s x).bind fun s => M.feed s y := by
  induction x generalizing s with
  | nil => rfl
  | cons a x ih =>
      rw [List.cons_append,feed_cons,feed_cons]
      cases M.read s a with
      | none => rfl
      | some s => exact ih

theorem feed_cons_eq_some : M.feed s (a::x) = some s' ↔
    ∃ t, M.read s a = some t ∧ M.feed t x = some s' :=
  Option.bind_eq_some_iff

/-- What each step keeps holds at the end. -/
theorem feed_keeps {P : S → Prop} (hstep : ∀ s a t, P s → M.final s = false → M.step s a = some t →
    P t) (hs : P s) (h : M.feed s x = some s') : P s' := by
  induction x generalizing s with
  | nil =>
      cases h
      exact hs
  | cons a x ih =>
      obtain ⟨t,hread,hrest⟩ := feed_cons_eq_some.mp h
      cases hfinal : M.final s with
      | true =>
          rw [read_final hfinal] at hread
          cases hread
          exact ih hs hrest
      | false =>
          rw [read_step hfinal] at hread
          exact ih (hstep s a t hs hfinal hread) hrest

end Machine
end TownCrier.Automaton

namespace TownCrier.Transition

variable {S A : Type}

/-- What runs from `s₀` lead to, along steps which `allowed` admits. -/
inductive Run (step : S → A → S → Prop) (allowed : S → A → Prop) (s₀ : S) : S → Prop
  | start : Run step allowed s₀ s₀
  | step {s s'} (a : A) (h : Run step allowed s₀ s) (hs : step s a s') (ha : allowed s a) :
      Run step allowed s₀ s'

variable {step : S → A → S → Prop} {allowed allowed' : S → A → Prop} {s₀ s₁ s : S}

theorem Run.kept {I : S → Prop} (h₀ : I s₀)
    (hstep : ∀ s a s', I s → step s a s' → allowed s a → I s') (h : Run step allowed s₀ s) :
    I s := by
  induction h with
  | start => exact h₀
  | step a _ hs ha ih => exact hstep _ a _ ih hs ha

theorem Run.mono (h : Run step allowed s₀ s) (ha : ∀ s a, allowed s a → allowed' s a) :
    Run step allowed' s₀ s := by
  induction h with
  | start => exact .start
  | step a _ hs h ih => exact .step a ih hs (ha _ a h)

theorem Run.trans (h₁ : Run step allowed s₀ s₁) (h₂ : Run step allowed s₁ s) :
    Run step allowed s₀ s := by
  induction h₂ with
  | start => exact h₁
  | step a _ hs ha ih => exact .step a ih hs ha

end TownCrier.Transition
