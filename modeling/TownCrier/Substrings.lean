import Mathlib.Data.List.Infix

/-!
# The first place of a word in a text

A place of a text is what is left of it from there on. `strstr` gives the first
place at which a word stands. A text in front can be left out when the word stands
at none of its places, and for that it can be cut into pieces.
-/
namespace TownCrier.Substrings

section
variable {A : Type} {w t u rest : List A}

/-- The word stands at no place of `t`, also not over its end. -/
def Clear (w t rest : List A) : Prop := ∀ u v, t = u++v → v ≠ [] → ¬w <+: v++rest

theorem clear_nil : Clear w [] rest := by
  intro u v h hv
  exact absurd (List.append_eq_nil_iff.mp h.symm).2 hv

theorem clear_cons {c : A} : Clear w (c::t) rest ↔ ¬w <+: c::(t++rest) ∧ Clear w t rest := by
  constructor
  · intro h
    exact ⟨h [] (c::t) rfl (List.cons_ne_nil _ _),fun u v huv hv => h (c::u) v (by rw [huv]; rfl) hv⟩
  · intro ⟨hfirst,h⟩ u v huv hv
    cases u with
    | nil =>
        rw [List.nil_append] at huv
        rw [← huv]
        exact hfirst
    | cons d u =>
        rw [List.cons_append,List.cons.injEq] at huv
        exact h u v huv.2 hv

theorem clear_append : Clear w (t++u) rest ↔ Clear w t (u++rest) ∧ Clear w u rest := by
  induction t with
  | nil => simp [clear_nil]
  | cons c t ih => rw [List.cons_append,clear_cons,clear_cons,ih,List.append_assoc,and_assoc]

/-- A longer word stands at fewer places. -/
theorem Clear.mono {w' : List A} (h : Clear w t rest) (hw : w <+: w') : Clear w' t rest :=
  fun u v huv hv hfront => h u v huv hv (hw.trans hfront)

theorem clear_of_notMem {c : A} (h : c ∉ t) : Clear (c::w) t rest := by
  intro u v huv hv hfront
  cases v with
  | nil => exact hv rfl
  | cons d v =>
      rw [List.cons_append,List.cons_prefix_cons] at hfront
      rw [huv,← hfront.1] at h
      exact h (List.mem_append_right u List.mem_cons_self)

/-- No end of `t` and the word begin with each other. -/
def Apart (w t : List A) : Prop := ∀ v ∈ t.tails, v ≠ [] → ¬v <+: w ∧ ¬w <+: v

theorem clear_of_apart (h : Apart w t) : Clear w t rest := by
  intro u v huv hv hfront
  have hv' := h v (by rw [List.mem_tails,huv]; exact List.suffix_append u v) hv
  rcases Nat.le_total w.length v.length with hle | hle
  · exact hv'.2 (List.prefix_of_prefix_length_le hfront (List.prefix_append v rest) hle)
  · exact hv'.1 (List.prefix_of_prefix_length_le (List.prefix_append v rest) hfront hle)

/-- A word does not stand over a border between two letters that are never together in it. -/
theorem clear_of_border {c d : A} (h : ¬w <:+: t++[c]) (hborder : ¬[c,d] <:+: w) :
    Clear w (t++[c]) (d::rest) := by
  intro u v huv hv hfront
  rcases Nat.lt_or_ge v.length w.length with hlt | hle
  · have hboth : v++[d] <+: v++d::rest := ⟨rest,by rw [List.append_assoc]; rfl⟩
    have hshort : (v++[d]).length ≤ w.length := by
      rw [List.length_append]
      exact hlt
    have hlong : v++[d] <+: w := List.prefix_of_prefix_length_le hboth hfront hshort
    obtain ⟨v,rfl⟩ : ∃ v', v = v'++[c] := by
      have hlast := congrArg List.getLast? huv
      rw [List.getLast?_concat,List.getLast?_append_of_ne_nil u hv] at hlast
      exact ⟨v.dropLast,(List.dropLast_append_getLast? c hlast.symm).symm⟩
    refine hborder (List.IsInfix.trans ?_ hlong.isInfix)
    rw [List.append_assoc]
    exact (List.suffix_append v _).isInfix
  · refine h ?_
    rw [huv]
    exact (List.prefix_of_prefix_length_le hfront (List.prefix_append v _) hle).isInfix.trans
      (List.suffix_append u v).isInfix

/-- A word without the letter `c` stands before it or not at all. -/
theorem front_iff {c : A} (h : c ∉ w) : w <+: t++c::rest ↔ w <+: t := by
  constructor
  · intro hfront
    rcases Nat.lt_or_ge t.length w.length with hlt | hle
    · have hboth : t++[c] <+: t++c::rest := ⟨rest,by rw [List.append_assoc]; rfl⟩
      have hshort : (t++[c]).length ≤ w.length := by
        rw [List.length_append]
        exact hlt
      have hmem := (List.prefix_of_prefix_length_le hboth hfront hshort).subset
        (List.mem_append_right t List.mem_cons_self)
      exact absurd hmem h
    · exact List.prefix_of_prefix_length_le hfront (List.prefix_append t _) hle
  · exact fun hfront => hfront.trans (List.prefix_append t _)

/-- A word stands on one of the sides of a letter that it does not have. -/
theorem infix_separated {c : A} (h : c ∉ w) : w <:+: t++c::rest ↔ w <:+: t ∨ w <:+: rest := by
  induction t with
  | nil =>
      rw [List.nil_append,List.infix_cons_iff,List.infix_nil]
      refine or_congr_left ⟨fun hfront => ?_,fun hw => hw ▸ List.nil_prefix⟩
      exact List.prefix_nil.mp ((front_iff (t := []) h).mp hfront)
  | cons d t ih =>
      rw [List.cons_append,List.infix_cons_iff,List.infix_cons_iff,ih,or_assoc,
        ← List.cons_append,front_iff h]

/-- A word does not begin where its first letter is missing. -/
theorem infix_skip {c : A} (h : c ∉ t) : c::w <:+: t++rest ↔ c::w <:+: rest := by
  induction t with
  | nil => rfl
  | cons d t ih =>
      rw [List.mem_cons,not_or] at h
      rw [List.cons_append,List.infix_cons_iff,ih h.2,List.cons_prefix_cons]
      exact or_iff_right fun hfront => h.1 hfront.1

/-- A word does not end with a letter that is not its last one. -/
theorem infix_concat {c d : A} (h : c ≠ d) : w++[c] <:+: t++[d] ↔ w++[c] <:+: t := by
  rw [List.infix_concat_iff]
  refine or_iff_right fun hend => ?_
  obtain ⟨u,hu⟩ := hend
  rw [← List.append_assoc] at hu
  exact h (List.cons.inj (List.append_inj' hu rfl).2).1

end

section
variable {A : Type} [DecidableEq A] {w t rest s : List A}

def strstr (w : List A) : List A → Option (List A)
  | [] => if w = [] then some [] else none
  | c::s => if w.isPrefixOf (c::s) then some (c::s) else strstr w s

theorem strstr_cons {c : A} :
    strstr w (c::s) = if w <+: c::s then some (c::s) else strstr w s := by
  simp only [strstr, List.isPrefixOf_iff_prefix]

theorem strstr_here (h : w <+: t) : strstr w t = some t := by
  cases t with
  | nil => rw [strstr,if_pos (List.prefix_nil.mp h)]
  | cons c t => rw [strstr_cons,if_pos h]

theorem strstr_clear (h : Clear w t rest) : strstr w (t++rest) = strstr w rest := by
  induction t with
  | nil => rfl
  | cons c t ih =>
      rw [clear_cons] at h
      rw [List.cons_append,strstr_cons,if_neg h.1,ih h.2]

theorem strstr_at (h : Clear w t (w++rest)) : strstr w (t++(w++rest)) = some (w++rest) := by
  rw [strstr_clear h,strstr_here (List.prefix_append w rest)]

theorem strstr_eq_some :
    strstr w s = some t ↔ ∃ u, s = u++t ∧ Clear w u t ∧ w <+: t := by
  constructor
  · intro h
    induction s with
    | nil =>
        rw [strstr] at h
        split_ifs at h with hw
        cases h
        exact ⟨[],rfl,clear_nil,by rw [hw]⟩
    | cons c s ih =>
        rw [strstr_cons] at h
        split_ifs at h with hw
        · cases h
          exact ⟨[],rfl,clear_nil,hw⟩
        · obtain ⟨u,rfl,hclear,hfront⟩ := ih h
          exact ⟨c::u,rfl,clear_cons.mpr ⟨hw,hclear⟩,hfront⟩
  · intro ⟨u,hs,hclear,hfront⟩
    rw [hs,strstr_clear hclear,strstr_here hfront]

theorem strstr_eq_none : strstr w s = none ↔ ¬w <:+: s := by
  induction s with
  | nil => simp [strstr]
  | cons c s ih =>
      rw [strstr_cons,List.infix_cons_iff,not_or,← ih]
      split_ifs with h
      · simp [h]
      · simp [h]

theorem strstr_length (h : strstr w s = some t) : t.length ≤ s.length ∧ w.length ≤ t.length := by
  obtain ⟨u,rfl,-,hfront⟩ := strstr_eq_some.mp h
  rw [List.length_append]
  exact ⟨Nat.le_add_left _ _,hfront.length_le⟩

/-- No earlier place will do. -/
theorem strstr_first {before after : List A} (h : strstr w s = some t)
    (hs : s = before++(w++after)) : s.length ≤ before.length+t.length := by
  obtain ⟨u,rfl,hclear,-⟩ := strstr_eq_some.mp h
  by_contra hlt
  rw [List.length_append,not_le] at hlt
  have hcut : before++u.drop before.length = u := by
    have htake := congrArg (List.take before.length) hs
    rw [List.take_append_of_le_length (by omega),List.take_left] at htake
    have hboth := List.take_append_drop before.length u
    rwa [htake] at hboth
  refine hclear before (u.drop before.length) hcut.symm ?_ ?_
  · intro hnil
    rw [List.drop_eq_nil_iff] at hnil
    omega
  · rw [← hcut,List.append_assoc,List.append_cancel_left_eq] at hs
    rw [hs]
    exact List.prefix_append w after

end

end TownCrier.Substrings
