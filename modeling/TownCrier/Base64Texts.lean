import TownCrier.Base64

/-!
# The texts that `b64_pton` accepts

White space may stand anywhere in a text. Without it the text is the encoding of
the bytes that come out: the bits behind the last whole byte have to be zero and
both pad characters have to be there, so that no two compact texts give the same
bytes.
-/
namespace TownCrier.HybridCipher
open BigEndian Cpp

/-- The text without its white space. -/
def compact (s : Bytes) : Bytes := s.filter fun c => !isSpace c

theorem compact_cons (c : UInt8) (s : Bytes) :
    compact (c::s) = if isSpace c then compact s else c::compact s := by
  rw [compact,List.filter_cons]
  cases isSpace c <;> rfl

theorem compact_not_space (s : Bytes) : ∀ c ∈ compact s, isSpace c = false := by
  intro c hc
  simpa using (List.mem_filter.mp hc).2

theorem all_isSpace_iff (s : Bytes) : s.all isSpace = true ↔ compact s = [] := by
  simp [compact]

theorem dropWhile_compact (s : Bytes) :
    (compact s).dropWhile isSpace = compact (s.dropWhile isSpace) := by
  induction s with
  | nil => rfl
  | cons c s ih =>
      rw [compact_cons,List.dropWhile_cons]
      split_ifs with hc
      · exact ih
      · rw [compact_cons,if_neg hc,List.dropWhile_cons,if_neg hc]

theorem compact_compact (s : Bytes) : compact (compact s) = compact s := by
  simp [compact]

theorem b64Padding_compact (targsize : ℕ) (state : Fin 4) (t : Target) (s : Bytes) :
    b64Padding targsize state t (compact s) = b64Padding targsize state t s := by
  have hall : ∀ s : Bytes, (compact s).all isSpace = true ↔ s.all isSpace = true := by
    intro s
    rw [all_isSpace_iff,all_isSpace_iff,compact_compact]
  unfold b64Padding
  match state with
  | 0 | 1 => rfl
  | 2 =>
      dsimp only
      rw [dropWhile_compact]
      cases hs : s.dropWhile isSpace with
      | nil => rfl
      | cons c rest =>
          have hc : isSpace c = false := by
            have hne : s.dropWhile isSpace ≠ [] := by simp [hs]
            simpa [hs] using List.head_dropWhile_not isSpace hne
          rw [compact_cons,hc,if_neg Bool.false_ne_true]
          by_cases h61 : c = 61
          · subst h61
            simp only [hall]
          · split
            · exact absurd (List.cons.inj ‹_›).1 h61
            · split
              · exact absurd (List.cons.inj ‹_›).1 h61
              · rfl
  | 3 =>
      dsimp only
      simp only [hall]

/-- White space makes no difference, wherever it stands. -/
theorem b64Loop_compact (targsize : ℕ) (state : Fin 4) (t : Target) (s : Bytes) :
    b64Loop targsize state t (compact s) = b64Loop targsize state t s := by
  induction s generalizing state t with
  | nil => rfl
  | cons c s ih =>
      rw [compact_cons,b64Loop]
      split_ifs with hspace hpad
      · exact ih state t
      · rw [b64Loop,if_neg hspace,if_pos hpad,b64Padding_compact]
      · rw [b64Loop,if_neg hspace,if_neg hpad]
        simp only [ih]

theorem idxOf?_spec {c : UInt8} {pos : ℕ} (h : base64Alphabet.idxOf? c = some pos) :
    pos < 64 ∧ base64Char (UInt8.ofNat pos) = c := by
  obtain ⟨hlt,hget,-⟩ := List.idxOf?_eq_some_iff.mp h
  have hpos : pos < 64 := hlt
  refine ⟨hpos,?_⟩
  have hnat : (UInt8.ofNat pos).toNat = pos := by
    rw [UInt8.toNat_ofNat']
    omega
  rw [base64Char,hnat,List.getD_eq_getElem?_getD,List.getElem?_eq_getElem hlt,hget]
  rfl

/-- One character of a compact text: the pad, or one of the alphabet. -/
theorem b64Loop_cons {targsize : ℕ} {state : Fin 4} {t : Target} {c : UInt8} {s out : Bytes}
    (hc : isSpace c = false) (h : b64Loop targsize state t (c::s) = some out) :
    c = 61 ∧ b64Padding targsize state t s = some out ∨
      ∃ (p : UInt8) (t' : Target), p.toNat < 64 ∧ c = base64Char p ∧
        b64Step targsize state t p = some t' ∧ b64Loop targsize (state+1) t' s = some out := by
  rw [b64Loop,hc,if_neg Bool.false_ne_true] at h
  split_ifs at h with hpad
  · exact .inl ⟨hpad,h⟩
  · cases hidx : base64Alphabet.idxOf? c with
    | none =>
        rw [hidx] at h
        cases h
    | some pos =>
        rw [hidx] at h
        obtain ⟨t',hstep,hrest⟩ := Option.bind_eq_some_iff.mp h
        obtain ⟨hlt,hchar⟩ := idxOf?_spec hidx
        refine .inr ⟨.ofNat pos,t',?_,hchar.symm,hstep,hrest⟩
        rw [UInt8.toNat_ofNat']
        omega

section Groups
variable {p q r w : UInt8}

/-- The bytes which four positions fill up. -/
def fill0 (p q : UInt8) : UInt8 := p <<< 2 ||| q >>> 4
def fill1 (q r : UInt8) : UInt8 := (q &&& 0x0f) <<< 4 ||| r >>> 2
def fill2 (r w : UInt8) : UInt8 := (r &&& 0x03) <<< 6 ||| w

theorem fill0_toNat (hp : p.toNat < 64) (hq : q.toNat < 64) :
    (fill0 p q).toNat = p.toNat*4+q.toNat/16 := by
  have hhigh : (p <<< 2).toNat = p.toNat*4 := by
    rw [shiftLeft_toNat 2 rfl (by decide)]
    omega
  have hlow : (q >>> 4).toNat = q.toNat/16 := shiftRight_toNat 4 rfl (by decide)
  rw [fill0,or_toNat 2 (by omega) (by omega),hhigh,hlow]

theorem fill1_toNat (hr : r.toNat < 64) : (fill1 q r).toNat = q.toNat%16*16+r.toNat/4 := by
  have hhigh : ((q &&& 0x0f) <<< 4).toNat = q.toNat%16*16 := by
    rw [shiftLeft_toNat 4 rfl (by decide),and_toNat 4 rfl]
    omega
  have hlow : (r >>> 2).toNat = r.toNat/4 := shiftRight_toNat 2 rfl (by decide)
  rw [fill1,or_toNat 4 (by omega) (by omega),hhigh,hlow]

theorem fill2_toNat (hw : w.toNat < 64) : (fill2 r w).toNat = r.toNat%4*64+w.toNat := by
  have hhigh : ((r &&& 0x03) <<< 6).toNat = r.toNat%4*64 := by
    rw [shiftLeft_toNat 6 rfl (by decide),and_toNat 2 rfl]
    omega
  rw [fill2,or_toNat 6 (by omega) (by omega),hhigh]

theorem output0_fill (hp : p.toNat < 64) (hq : q.toNat < 64) : output0 (fill0 p q) = p := by
  apply UInt8.toNat_inj.mp
  rw [output0_toNat,fill0_toNat hp hq]
  omega

theorem output1_fill (hp : p.toNat < 64) (hq : q.toNat < 64) (hr : r.toNat < 64) :
    output1 (fill0 p q) (fill1 q r) = q := by
  apply UInt8.toNat_inj.mp
  rw [output1_toNat,fill0_toNat hp hq,fill1_toNat hr]
  omega

theorem output2_fill (hr : r.toNat < 64) (hw : w.toNat < 64) :
    output2 (fill1 q r) (fill2 r w) = r := by
  apply UInt8.toNat_inj.mp
  rw [output2_toNat,fill1_toNat hr,fill2_toNat hw]
  omega

theorem output3_fill (hw : w.toNat < 64) : output3 (fill2 r w) = w := by
  apply UInt8.toNat_inj.mp
  rw [output3_toNat,fill2_toNat hw]
  omega

/-- Four low bits of zero leave nothing behind the first byte. -/
theorem output1_rest (hp : p.toNat < 64) (hq : q.toNat < 64) (h : (q &&& 0x0f) <<< 4 = 0) :
    output1 (fill0 p q) 0 = q := by
  have hzero := congrArg UInt8.toNat h
  rw [shiftLeft_toNat 4 rfl (by decide),and_toNat 4 rfl,UInt8.toNat_zero] at hzero
  apply UInt8.toNat_inj.mp
  rw [output1_toNat,fill0_toNat hp hq,UInt8.toNat_zero]
  omega

theorem output2_rest (hr : r.toNat < 64) (h : (r &&& 0x03) <<< 6 = 0) :
    output2 (fill1 q r) 0 = r := by
  have hzero := congrArg UInt8.toNat h
  rw [shiftLeft_toNat 6 rfl (by decide),and_toNat 2 rfl,UInt8.toNat_zero] at hzero
  apply UInt8.toNat_inj.mp
  rw [output2_toNat,fill1_toNat hr,UInt8.toNat_zero]
  omega

end Groups

theorem spill_spec {t t' : Target} {targsize : ℕ} {high low : UInt8}
    (h : t.spill targsize high low = some t') :
    t' = ⟨t.bytes++[t.next ||| high],low⟩ ∧ t.bytes.length+1 ≤ targsize ∧
      (t.bytes.length+1 < targsize ∨ low = 0) := by
  rw [Target.spill] at h
  split_ifs at h with hfull hroom
  cases h
  exact ⟨rfl,by omega,hroom⟩

theorem eq_nil_of_all_isSpace {s : Bytes} (hs : ∀ c ∈ s, isSpace c = false)
    (h : s.all isSpace = true) : s = [] := by
  cases s with
  | nil => rfl
  | cons c s =>
      have hc := List.all_eq_true.mp h c (List.mem_cons_self ..)
      rw [hs c (List.mem_cons_self ..)] at hc
      cases hc

theorem first_spec {t t' : Target} {targsize : ℕ} {pos : UInt8}
    (h : b64Step targsize 0 t pos = some t') :
    t' = ⟨t.bytes,pos <<< 2⟩ ∧ t.bytes.length < targsize := by
  rw [b64Step] at h
  split_ifs at h with hfull
  exact ⟨(Option.some.inj h).symm,not_le.mp hfull⟩

theorem fourth_spec {t t' : Target} {targsize : ℕ} {pos : UInt8}
    (h : b64Step targsize 3 t pos = some t') :
    t' = ⟨t.bytes++[t.next ||| pos],0⟩ ∧ t.bytes.length < targsize := by
  rw [b64Step] at h
  split_ifs at h with hfull
  exact ⟨(Option.some.inj h).symm,not_le.mp hfull⟩

/-- Behind the pad of a compact text stands nothing, and nothing is left over. -/
theorem b64Padding_spec {targsize : ℕ} {state : Fin 4} {t : Target} {s out : Bytes}
    (hs : ∀ c ∈ s, isSpace c = false) (h : b64Padding targsize state t s = some out) :
    out = t.bytes ∧ (t.bytes.length < targsize → t.next = 0) ∧
      (state = 2 ∧ s = [61] ∨ state = 3 ∧ s = []) := by
  unfold b64Padding at h
  match state with
  | 0 | 1 => cases h
  | 2 =>
      cases s with
      | nil => cases h
      | cons c s =>
          dsimp only at h
          rw [List.dropWhile_cons,hs c (List.mem_cons_self ..),if_neg Bool.false_ne_true] at h
          split at h
          · rename_i rest heq
            obtain ⟨rfl,rfl⟩ := List.cons.inj heq
            split_ifs at h with hfinish
            cases h
            have hnil := eq_nil_of_all_isSpace (fun c hc => hs c (List.mem_cons_of_mem _ hc)) hfinish.1
            exact ⟨rfl,by simpa using hfinish.2,.inl ⟨rfl,by rw [hnil]⟩⟩
          · cases h
  | 3 =>
      dsimp only at h
      split_ifs at h with hfinish
      cases h
      exact ⟨rfl,by simpa using hfinish.2,.inr ⟨rfl,eq_nil_of_all_isSpace hs hfinish.1⟩⟩

theorem b64Loop_nil {targsize : ℕ} {state : Fin 4} {t : Target} {out : Bytes}
    (h : b64Loop targsize state t [] = some out) : state = 0 ∧ out = t.bytes := by
  rw [b64Loop] at h
  split_ifs at h with hstate
  exact ⟨hstate,(Option.some.inj h).symm⟩

/-- A compact text that is accepted is the encoding of the bytes it adds. -/
theorem eq_base64_of_b64Loop {targsize : ℕ} (k : ℕ) (s : Bytes) (hk : s.length ≤ k)
    (hs : ∀ c ∈ s, isSpace c = false) (bytes : Bytes) (next : UInt8) {out : Bytes}
    (h : b64Loop targsize 0 ⟨bytes,next⟩ s = some out) :
    ∃ src, s = base64 src ∧ out = bytes++src ∧ (src = [] ∨ out.length ≤ targsize) := by
  induction k generalizing s bytes next with
  | zero =>
      obtain rfl := List.length_eq_zero_iff.mp (Nat.le_zero.mp hk)
      exact ⟨[],rfl,by rw [(b64Loop_nil h).2,List.append_nil],.inl rfl⟩
  | succ k ih =>
      cases s with
      | nil => exact ⟨[],rfl,by rw [(b64Loop_nil h).2,List.append_nil],.inl rfl⟩
      | cons c₀ s =>
      rw [List.forall_mem_cons] at hs
      obtain ⟨hc₀,hs⟩ := hs
      obtain ⟨-,hpad⟩ | ⟨p,t₁,hp,rfl,hstep₁,h⟩ := b64Loop_cons hc₀ h
      · cases hpad
      obtain ⟨rfl,hlen₁⟩ := first_spec hstep₁
      cases s with
      | nil => exact absurd (b64Loop_nil h).1 (by decide)
      | cons c₁ s =>
      rw [List.forall_mem_cons] at hs
      obtain ⟨hc₁,hs⟩ := hs
      obtain ⟨-,hpad⟩ | ⟨q,t₂,hq,rfl,hstep₂,h⟩ := b64Loop_cons hc₁ h
      · cases hpad
      obtain ⟨rfl,hlen₂,hroom₂⟩ := spill_spec hstep₂
      cases s with
      | nil => exact absurd (b64Loop_nil h).1 (by decide)
      | cons c₂ s =>
      rw [List.forall_mem_cons] at hs
      obtain ⟨hc₂,hs⟩ := hs
      obtain ⟨rfl,hpad⟩ | ⟨r,t₃,hr,rfl,hstep₃,h⟩ := b64Loop_cons hc₂ h
      · -- One byte: its four low bits are zero.
        obtain ⟨rfl,hnext,⟨-,rfl⟩ | ⟨himp,-⟩⟩ := b64Padding_spec hs hpad
        · have hzero : (q &&& 0x0f) <<< 4 = 0 := by
            rcases hroom₂ with hroom | hzero
            · exact hnext (by simpa using hroom)
            · exact hzero
          refine ⟨[fill0 p q],?_,rfl,.inr (by simpa using hlen₂)⟩
          rw [base64,output0_fill hp hq,output1_rest hp hq hzero]
        · exact absurd himp (by decide)
      obtain ⟨rfl,hlen₃,hroom₃⟩ := spill_spec hstep₃
      cases s with
      | nil => exact absurd (b64Loop_nil h).1 (by decide)
      | cons c₃ s =>
      rw [List.forall_mem_cons] at hs
      obtain ⟨hc₃,hs⟩ := hs
      obtain ⟨rfl,hpad⟩ | ⟨w,t₄,hw,rfl,hstep₄,h⟩ := b64Loop_cons hc₃ h
      · obtain ⟨rfl,hnext,⟨himp,-⟩ | ⟨-,rfl⟩⟩ := b64Padding_spec hs hpad
        · exact absurd himp (by decide)
        · have hzero : (r &&& 0x03) <<< 6 = 0 := by
            rcases hroom₃ with hroom | hzero
            · exact hnext (by simpa using hroom)
            · exact hzero
          refine ⟨[fill0 p q,fill1 q r],?_,by simp [fill0,fill1],.inr ?_⟩
          · rw [base64,output0_fill hp hq,output1_fill hp hq hr,output2_rest hr hzero]
          · simp only [List.length_append,List.length_cons,List.length_nil] at hlen₃ ⊢
            omega
      obtain ⟨rfl,hlen₄⟩ := fourth_spec hstep₄
      obtain ⟨src,rfl,rfl,hlen⟩ := ih s (by simp only [List.length_cons] at hk; omega) hs _ _ h
      refine ⟨fill0 p q::fill1 q r::fill2 r w::src,?_,by simp [fill0,fill1,fill2],.inr ?_⟩
      · rw [base64,output0_fill hp hq,output1_fill hp hq hr,output2_fill hr hw,output3_fill hw]
      · rcases hlen with rfl | hlen
        · simp only [List.length_append,List.length_cons,List.length_nil] at hlen₄ ⊢
          omega
        · exact hlen

theorem compact_base64 (src : Bytes) : compact (base64 src) = base64 src := by
  have h := @b64Loop_base64 src.length src [] 0 (by simp)
  rw [← b64Loop_compact] at h
  obtain ⟨src',hsrc,hout,-⟩ := eq_base64_of_b64Loop _ _ le_rfl (compact_not_space _) [] 0 h
  rw [hsrc,← List.nil_append src,hout,List.nil_append]

/-- A text that differs from an encoding in its white space only is read alike. -/
theorem b64Pton_of_compact {s src : Bytes} {targsize : ℕ} (hs : compact s = base64 src)
    (h : src.length ≤ targsize) : b64Pton s targsize = some src := by
  rw [b64Pton,← b64Loop_compact,hs]
  exact b64Pton_base64 h

/-- The accepted texts are the encodings of the bytes that fit the buffer, with
white space anywhere: the padding carries no further information. -/
theorem b64Pton_iff (s : Bytes) (targsize : ℕ) (out : Bytes) :
    b64Pton s targsize = some out ↔ compact s = base64 out ∧ out.length ≤ targsize := by
  rw [b64Pton,← b64Loop_compact]
  constructor
  · intro h
    obtain ⟨src,hsrc,hout,hlen⟩ := eq_base64_of_b64Loop _ _ le_rfl (compact_not_space s) [] 0 h
    rw [List.nil_append] at hout
    subst hout
    refine ⟨hsrc,?_⟩
    rcases hlen with rfl | hlen
    · exact Nat.zero_le _
    · exact hlen
  · rintro ⟨hs,hlen⟩
    rw [hs]
    exact b64Pton_base64 hlen

end TownCrier.HybridCipher
