import Mathlib.Algebra.BigOperators.Group.List.Basic
import Mathlib.Algebra.Ring.Nat
import Mathlib.Data.Nat.Notation
import Mathlib.Tactic.Common

/-!
# The proleptic Gregorian calendar

Days are counted from the first of January of year 1. A date stands for the day
with `date.dayNumber`, and different dates stand for different days.
-/
namespace TownCrier.Gregorian

def IsLeap (year : ℕ) : Prop := year%4 = 0 ∧ (year%100 = 0 → year%400 = 0)

instance (year : ℕ) : Decidable (IsLeap year) := inferInstanceAs (Decidable (_ ∧ _))

def yearDays (year : ℕ) : ℕ := if IsLeap year then 366 else 365

/-- Months count from 1. -/
def monthDays (year : ℕ) : ℕ → ℕ
  | 2 => if IsLeap year then 29 else 28
  | 4 | 6 | 9 | 11 => 30
  | _ => 31

theorem monthDays_le (year month : ℕ) : monthDays year month ≤ 31 := by
  unfold monthDays
  split
  · split_ifs <;> decide
  all_goals decide

/-- The days of all years before this one. -/
def daysBeforeYear (year : ℕ) : ℕ := 365*(year-1)+(year-1)/4-(year-1)/100+(year-1)/400

def daysBeforeMonth (year month : ℕ) : ℕ :=
  ((List.range (month-1)).map fun i => monthDays year (i+1)).sum

structure Date where
  year : ℕ
  month : ℕ
  day : ℕ
  year_pos : 1 ≤ year
  month_mem : 1 ≤ month ∧ month ≤ 12
  day_mem : 1 ≤ day ∧ day ≤ monthDays year month

def Date.dayNumber (date : Date) : ℕ :=
  daysBeforeYear date.year+daysBeforeMonth date.year date.month+(date.day-1)

theorem div_succ (n k : ℕ) :
    (n+1)/k = n/k+if (n+1)%k = 0 then 1 else 0 := by
  rw [Nat.succ_div]
  simp only [Nat.dvd_iff_mod_eq_zero]

theorem daysBeforeYear_succ {year : ℕ} (h : 1 ≤ year) :
    daysBeforeYear (year+1) = daysBeforeYear year+yearDays year := by
  obtain ⟨n,rfl⟩ := Nat.exists_eq_add_of_le' h
  have h₄ := div_succ n 4
  have h₁₀₀ := div_succ n 100
  have h₄₀₀ := div_succ n 400
  have hle : n/100 ≤ n/4 := Nat.div_le_div_left (by decide) (by decide)
  unfold daysBeforeYear yearDays IsLeap
  simp only [Nat.add_sub_cancel,h₄,h₁₀₀,h₄₀₀]
  by_cases hfour : (n+1)%4 = 0
  · by_cases hhundred : (n+1)%100 = 0
    · by_cases hrest : (n+1)%400 = 0
      · simp only [hfour,hhundred,hrest,true_and,implies_true,if_true]
        omega
      · simp only [hfour,hhundred,hrest,true_and,forall_const,if_true,if_false]
        omega
    · have hrest : (n+1)%400 ≠ 0 := by omega
      simp only [hfour,hhundred,hrest,true_and,false_imp_iff,if_true,if_false]
      omega
  · have hhundred : (n+1)%100 ≠ 0 := by omega
    have hrest : (n+1)%400 ≠ 0 := by omega
    simp only [hfour,hhundred,hrest,false_and,if_false]
    omega

theorem daysBeforeYear_mono {year year' : ℕ} (h : 1 ≤ year) (hle : year ≤ year') :
    daysBeforeYear year ≤ daysBeforeYear year' := by
  induction hle with
  | refl => exact Nat.le_refl _
  | step hle ih =>
      rw [Nat.succ_eq_add_one,daysBeforeYear_succ (Nat.le_trans h hle)]
      exact Nat.le_trans ih (Nat.le_add_right _ _)

theorem daysBeforeMonth_succ (year : ℕ) {month : ℕ} (h : 1 ≤ month) :
    daysBeforeMonth year (month+1) = daysBeforeMonth year month+monthDays year month := by
  obtain ⟨n,rfl⟩ := Nat.exists_eq_add_of_le' h
  simp [daysBeforeMonth,List.range_succ]

/-- The months make up the year. -/
theorem daysBeforeMonth_end (year : ℕ) : daysBeforeMonth year 13 = yearDays year := by
  by_cases hleap : IsLeap year <;> simp [daysBeforeMonth,yearDays,monthDays,List.range_succ,hleap]

theorem daysBeforeMonth_mono (year : ℕ) {month month' : ℕ} (h : 1 ≤ month) (hle : month ≤ month') :
    daysBeforeMonth year month ≤ daysBeforeMonth year month' := by
  induction hle with
  | refl => exact Nat.le_refl _
  | step hle ih =>
      rw [Nat.succ_eq_add_one,daysBeforeMonth_succ year (Nat.le_trans h hle)]
      exact Nat.le_trans ih (Nat.le_add_right _ _)

namespace Date

theorem before_next_month (date : Date) :
    daysBeforeMonth date.year date.month+(date.day-1) < daysBeforeMonth date.year (date.month+1) := by
  have hday := date.day_mem
  rw [daysBeforeMonth_succ _ date.month_mem.1]
  omega

theorem before_next_year (date : Date) : date.dayNumber < daysBeforeYear (date.year+1) := by
  have hmonth := date.before_next_month
  have hend := daysBeforeMonth_mono date.year (Nat.le_add_left 1 date.month)
    (Nat.succ_le_succ date.month_mem.2)
  rw [daysBeforeMonth_end] at hend
  rw [dayNumber,daysBeforeYear_succ date.year_pos]
  omega

theorem daysBeforeYear_le (date : Date) : daysBeforeYear date.year ≤ date.dayNumber := by
  rw [dayNumber,Nat.add_assoc]
  exact Nat.le_add_right _ _

/-- A day is in one year only, in one month of it, and so on. -/
theorem dayNumber_injective : Function.Injective dayNumber := by
  intro a b h
  have hyear : a.year = b.year := by
    by_contra hne
    rcases Nat.lt_or_gt_of_ne hne with hlt | hlt
    · have hnext := daysBeforeYear_mono (Nat.le_add_left 1 a.year) hlt
      have ha := a.before_next_year
      have hb := b.daysBeforeYear_le
      omega
    · have hnext := daysBeforeYear_mono (Nat.le_add_left 1 b.year) hlt
      have hb := b.before_next_year
      have ha := a.daysBeforeYear_le
      omega
  have hday : daysBeforeMonth a.year a.month+(a.day-1) =
      daysBeforeMonth a.year b.month+(b.day-1) := by
    rw [dayNumber,dayNumber,← hyear] at h
    omega
  have hmonth : a.month = b.month := by
    by_contra hne
    rcases Nat.lt_or_gt_of_ne hne with hlt | hlt
    · have hnext := daysBeforeMonth_mono a.year (Nat.le_add_left 1 a.month) hlt
      have ha := a.before_next_month
      omega
    · have hnext := daysBeforeMonth_mono a.year (Nat.le_add_left 1 b.month) hlt
      have hb := b.before_next_month
      rw [← hyear] at hb
      omega
  have ha := a.day_mem
  have hb := b.day_mem
  rw [hmonth] at hday
  cases a
  cases b
  simp only at hyear hmonth hday ha hb
  subst hyear hmonth
  congr 1
  omega

end Date

/-- The first of January 1970. -/
def EPOCH : ℕ := daysBeforeYear 1970

end TownCrier.Gregorian
