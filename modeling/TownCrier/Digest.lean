import TownCrier.Keccak
import TownCrier.Sponge
import Mathlib.Data.Fintype.Basic
import Mathlib.Tactic.FinCases

/-!
# The hash of the enclave is Keccak-256

The lanes of `keccak.c` against the bits of the sponge. Each part of a round is
compared lane by lane, where the table of positions and the table of rotation
counts agree with the walk and the round constants with the register.
-/
namespace TownCrier.Keccak
open BigEndian Sponge

/-- Lane `5*y+x` is column `x` of row `y`. -/
def view (st : List UInt64) : State := fun x y z => st[5*y.val+x.val]!.toNat.testBit z.val

/-- A rotation to the left reads the bits further down. -/
theorem testBit_ROTL64 (x : UInt64) {r : UInt64} (h : 0 < r ∧ r < 64) (z : Fin 64) :
    (ROTL64 x r).toNat.testBit z.val = x.toNat.testBit (z-Fin.ofNat 64 r.toNat).val := by
  have hlow : 0 < r.toNat := UInt64.lt_iff_toNat_lt.mp h.1
  have hhigh : r.toNat < 64 := UInt64.lt_iff_toNat_lt.mp h.2
  have hz := z.isLt
  have hsub : (z-Fin.ofNat 64 r.toNat).val = if r.toNat ≤ z.val then z.val-r.toNat else
      z.val+(64-r.toNat) := by
    rw [Fin.val_sub,Fin.val_ofNat,Nat.mod_eq_of_lt hhigh]
    split_ifs <;> omega
  rw [toNat_ROTL64 x h,rotl,Nat.testBit_or,Nat.testBit_mod_two_pow,Nat.testBit_shiftLeft,
    Nat.testBit_shiftRight,hsub]
  split_ifs with hr
  · have hbig : x.toNat.testBit (64-r.toNat+z.val) = false :=
      Nat.testBit_lt_two_pow (x.toNat_lt.trans_le (Nat.pow_le_pow_right (by decide) (by omega)))
    simp [hbig,hz,hr]
  · simp [hr,Nat.add_comm]

/-- The lanes of a column added up. -/
def column (st : List UInt64) (x : Fin 5) : UInt64 :=
  st[5*0+x.val]! ^^^ st[5*1+x.val]! ^^^ st[5*2+x.val]! ^^^ st[5*3+x.val]! ^^^ st[5*4+x.val]!

theorem testBit_column (st : List UInt64) (x : Fin 5) (z : Fin 64) :
    (column st x).toNat.testBit z.val = parity (view st) x z := by
  simp only [column,UInt64.toNat_xor,Nat.testBit_xor]
  rfl

theorem lane_theta (st : List UInt64) (x y : Fin 5) :
    (theta st)[5*y.val+x.val]! =
      st[5*y.val+x.val]! ^^^ (column st (x-1) ^^^ ROTL64 (column st (x+1)) 1) := by
  fin_cases x <;> fin_cases y <;> rfl

theorem view_theta (st : List UInt64) : view (theta st) = Sponge.theta (view st) := by
  funext x y z
  rw [view,lane_theta,UInt64.toNat_xor,UInt64.toNat_xor,Nat.testBit_xor,Nat.testBit_xor,
    testBit_column,testBit_ROTL64 _ (by decide),testBit_column]
  rfl

/-- The lane `w` turned by any count. -/
def turn (w : UInt64) (r : ℕ) : UInt64 := if r%64 = 0 then w else ROTL64 w (UInt64.ofNat (r%64))

theorem testBit_turn (w : UInt64) (r : ℕ) (z : Fin 64) :
    (turn w r).toNat.testBit z.val = w.toNat.testBit (z-Fin.ofNat 64 r).val := by
  have hr := Nat.mod_lt r (show 0 < 64 by decide)
  have hmod : Fin.ofNat 64 (r%64) = Fin.ofNat 64 r := Fin.ext (Nat.mod_mod r 64)
  rw [turn]
  split_ifs with h
  · have hz : z-Fin.ofNat 64 0 = z := by
      apply Fin.ext
      rw [Fin.val_sub]
      simp
    rw [← hmod,h,hz]
  · have hval : (UInt64.ofNat (r%64)).toNat = r%64 := by
      rw [UInt64.toNat_ofNat',Nat.mod_eq_of_lt (by omega)]
    rw [testBit_ROTL64,hval,hmod]
    rw [UInt64.lt_iff_toNat_lt,UInt64.lt_iff_toNat_lt,hval]
    exact ⟨Nat.pos_of_ne_zero h,hr⟩

/-- The lane on its way has come back to its start when the loop ends. -/
theorem lane_rhoPi (x y : Fin 5) : ∀ st : List UInt64, st.length = 25 →
    (rhoPi st)[5*y.val+x.val]! =
      turn st[5*x.val+(x+3*y).val]! (offset (x+3*y) x) := by
  apply forall_lanes
  intros
  simp only [rhoPi,keccakf_piln,keccakf_rotc,List.zip_cons_cons,List.zip_nil_right,
    List.foldl_cons,List.foldl_nil,List.set_cons_succ,List.set_cons_zero,
    List.getElem!_cons_succ,List.getElem!_cons_zero]
  fin_cases x <;> fin_cases y <;> rfl

theorem view_rhoPi {st : List UInt64} (h : st.length = 25) :
    view (rhoPi st) = pi (rho (view st)) := by
  funext x y z
  rw [view,lane_rhoPi x y st h,testBit_turn]
  rfl

theorem lane_chi (st : List UInt64) (x y : Fin 5) :
    (chi st)[5*y.val+x.val]! = st[5*y.val+x.val]! ^^^
      (~~~st[5*y.val+(x+1).val]! &&& st[5*y.val+(x+2).val]!) := by
  fin_cases x <;> fin_cases y <;> rfl

theorem view_chi (st : List UInt64) : view (chi st) = Sponge.chi (view st) := by
  funext x y z
  have hnot : (~~~st[5*y.val+(x+1).val]!).toNat.testBit z.val = !view st (x+1) y z := by
    rw [UInt64.toNat_not]
    have := Nat.testBit_two_pow_sub_succ (st[5*y.val+(x+1).val]!).toNat_lt z.val
    simpa [view] using this
  rw [view,lane_chi,UInt64.toNat_xor,UInt64.toNat_and,Nat.testBit_xor,Nat.testBit_and,hnot]
  rfl

theorem testBit_rndc : ∀ (i : Fin 24) (z : Fin 64),
    keccakf_rndc[i.val]!.toNat.testBit z.val = roundConstant i.val z := by
  decide +kernel

theorem view_iota (i : Fin 24) {st : List UInt64} (h : st.length = 25) :
    view (iota keccakf_rndc[i.val]! st) = Sponge.iota i.val (view st) := by
  obtain ⟨a,st,rfl⟩ := List.exists_cons_of_length_pos (l := st) (by omega)
  funext x y z
  have hxy : (x = 0 ∧ y = 0) ↔ 5*y.val+x.val = 0 := by
    rw [← Fin.val_inj,← Fin.val_inj]
    simp only [Fin.val_zero]
    omega
  rw [Sponge.iota,← testBit_rndc,view,view]
  simp only [iota,List.set_cons_zero,List.getElem!_cons_zero,hxy]
  cases 5*y.val+x.val with
  | zero =>
      rw [if_pos rfl,← Nat.testBit_xor,← UInt64.toNat_xor]
      rfl
  | succ n => rw [if_neg (by omega),List.getElem!_cons_succ,List.getElem!_cons_succ]

/-- One round of the loop over the constants. -/
def turnRound (st : List UInt64) (rndc : UInt64) : List UInt64 := iota rndc (chi (rhoPi (theta st)))

theorem turnRound_length {st : List UInt64} (rndc : UInt64) :
    (turnRound st rndc).length = 25 := by
  simp [turnRound,iota,chi]

theorem view_turnRound (i : Fin 24) (st : List UInt64) :
    view (turnRound st keccakf_rndc[i.val]!) = round (view st) i.val := by
  have hchi : (chi (rhoPi (theta st))).length = 25 := by simp [chi]
  have htheta : (theta st).length = 25 := by simp [theta]
  rw [turnRound,view_iota i hchi,view_chi,view_rhoPi htheta,view_theta]
  rfl

theorem view_rounds (l : List ℕ) (hl : ∀ i ∈ l, i < 24) (st : List UInt64) :
    view (l.foldl (fun st i => turnRound st keccakf_rndc[i]!) st) = l.foldl round (view st) := by
  induction l generalizing st with
  | nil => rfl
  | cons i l ih =>
      have hi := view_turnRound ⟨i,hl i (List.mem_cons_self ..)⟩ st
      rw [List.foldl_cons,List.foldl_cons,ih (fun j hj => hl j (List.mem_cons_of_mem _ hj)),hi]

theorem keccakf_eq (st : List UInt64) :
    keccakf st = (List.range 24).foldl (fun st i => turnRound st keccakf_rndc[i]!) st := by
  have htable : keccakf_rndc = (List.range 24).map fun i => keccakf_rndc[i]! := by decide
  rw [keccakf,htable,List.foldl_map]
  rfl

/-- The permutation on lanes is the one on bits. -/
theorem view_keccakf (st : List UInt64) : view (keccakf st) = permutation (view st) := by
  rw [keccakf_eq]
  exact view_rounds _ (fun i hi => List.mem_range.mp hi) st

theorem keccakf_length (st : List UInt64) : (keccakf st).length = 25 := by
  rw [keccakf_eq,List.range_succ,List.foldl_append]
  exact turnRound_length _

theorem testBit_word (b : Bytes) (i : ℕ) (z : Fin 64) :
    (word b i).toNat.testBit z.val = (bits b).getD (64*i+z.val) false := by
  have hz := z.isLt
  have hlt : value ((b.drop (8*i)).take 8).reverse < 2^64 := by
    refine (value_lt _).trans_le ?_
    rw [show 2^64 = 256^8 by norm_num]
    refine Nat.pow_le_pow_right (by decide) ?_
    rw [List.length_reverse,List.length_take]
    omega
  rw [word,UInt64.toNat_ofNat',Nat.mod_eq_of_lt hlt,testBit_value_reverse,bits_take,bits_drop]
  simp only [List.getD_eq_getElem?_getD,List.getElem?_take,List.getElem?_drop]
  rw [if_pos (by omega),show 8*(8*i)+z.val = 64*i+z.val by omega]

/-- Only the words of the block are mixed in, whatever follows it in the buffer. -/
theorem view_xorBlock (st : List UInt64) (b : Bytes) :
    view (xorBlock 17 st b) = mix (view st) (bits (b.take 136)) := by
  funext x y z
  have hk : 5*y.val+x.val < 25 := by omega
  have hlane : (xorBlock 17 st b)[5*y.val+x.val]! = if 5*y.val+x.val < 17 then
      st[5*y.val+x.val]! ^^^ word b (5*y.val+x.val) else st[5*y.val+x.val]! := by
    simp [xorBlock,hk]
  have hz := z.isLt
  rw [view,hlane,mix,bits_take,List.getD_eq_getElem?_getD,List.getElem?_take]
  by_cases hlow : 5*y.val+x.val < 17
  · rw [if_pos hlow,if_pos (by omega),UInt64.toNat_xor,Nat.testBit_xor,testBit_word,
      List.getD_eq_getElem?_getD]
    rfl
  · rw [if_neg hlow,if_neg (by omega),Option.getD_none,Bool.xor_false]
    rfl

/-- The loop over the whole blocks leaves less than a block and has done the
same to the state as the sponge. -/
theorem absorb_spec (n : ℕ) (st : List UInt64) (input : Bytes) (h : input.length ≤ n) :
    (absorb 136 n st input).2.length < 136 ∧
      Sponge.absorb 1088 (view st) (bits input++Sponge.pad 1088 (bits input).length) =
        Sponge.absorb 1088 (view (absorb 136 n st input).1)
          (bits (absorb 136 n st input).2++
            Sponge.pad 1088 (bits (absorb 136 n st input).2).length) := by
  induction n generalizing st input with
  | zero =>
      have hrest : input.length < 136 := by omega
      exact ⟨hrest,rfl⟩
  | succ n ih =>
      rw [absorb]
      split_ifs with hlong
      · have hdrop : (input.drop 136).length ≤ n := by
          rw [List.length_drop]
          omega
        have hsplit : bits input = bits (input.take 136)++bits (input.drop 136) := by
          rw [← bits_append,List.take_append_drop]
        have hblock : (bits (input.take 136)).length = 1088 := by
          rw [bits_length,List.length_take_of_le hlong]
        obtain ⟨hrest,hsame⟩ := ih (keccakf (xorBlock (136/8) st input)) (input.drop 136) hdrop
        refine ⟨hrest,?_⟩
        rw [← hsame,view_keccakf,view_xorBlock,hsplit,List.length_append,hblock,pad_add,
          List.append_assoc,absorb_append (by decide) _ hblock]
      · have hrest : input.length < 136 := by omega
        exact ⟨hrest,rfl⟩

theorem bits_replicate (k : ℕ) : bits (List.replicate k 0) = List.replicate (8*k) false := by
  induction k with
  | zero => rfl
  | succ k ih =>
      rw [List.replicate_succ,bits_cons,ih,Nat.mul_succ,Nat.add_comm,List.replicate_add]
      rfl

theorem set_last {l : Bytes} (c : UInt8) (h : l.length = 135) :
    (l++[c]).set 135 ((l++[c])[135]! ||| 0x80) = l++[c ||| 0x80] := by
  simp [← h]

/-- The padded block ends with the padding of the sponge. -/
theorem bits_pad {input : Bytes} (h : input.length < 136) :
    bits (pad 136 input) = bits input++Sponge.pad 1088 (bits input).length := by
  rw [bits_length,pad,Sponge.pad]
  rcases Nat.lt_or_eq_of_le (show input.length ≤ 135 by omega) with hlt | heq
  · have htemp : input++1::List.replicate (136-input.length-1) 0 =
        (input++1::List.replicate (134-input.length) 0)++[0] := by
      rw [show 136-input.length-1 = 134-input.length+1 by omega,List.replicate_succ']
      simp
    have hone : bits [1] = true::List.replicate 7 false := by decide
    have hlast : bits [0 ||| 0x80] = List.replicate 7 false++[true] := by decide
    have hzeros : (1088-(8*input.length+2)%1088)%1088 = 7+8*(134-input.length)+7 := by omega
    rw [htemp,set_last _ (by simp; omega),bits_append,bits_append,← List.singleton_append,
      bits_append,bits_replicate,hone,hlast,hzeros,List.replicate_add,List.replicate_add]
    simp
  · have hone : bits [1 ||| 0x80] = true::(List.replicate 6 false++[true]) := by decide
    rw [heq,List.replicate_zero,set_last 1 heq,bits_append,hone]

theorem getD_bits_lanes (st : List UInt64) (i : ℕ) :
    (bits (st.flatMap fun lane => (fixed 8 lane.toNat).reverse)).getD i false =
      st[i/64]!.toNat.testBit (i%64) := by
  induction st generalizing i with
  | nil => exact (Nat.zero_testBit (i%64)).symm
  | cons w st ih =>
      rw [List.flatMap_cons,bits_append,bits_reverse_fixed]
      rcases Nat.lt_or_ge i 64 with hlt | hge
      · rw [List.getD_append _ _ _ _ (by simpa using hlt),
          List.getD_eq_getElem _ _ (by simpa using hlt),Nat.div_eq_of_lt hlt,Nat.mod_eq_of_lt hlt]
        simp
      · rw [List.getD_append_right _ _ _ _ (by simpa using hge),ih,
          show i/64 = (i-64)/64+1 by omega,show i%64 = (i-64)%64 by omega]
        simp

/-- The digest is the front of the state, lane after lane. -/
theorem bits_squeeze {st : List UInt64} (h : st.length = 25) :
    bits ((st.flatMap fun lane => (fixed 8 lane.toNat).reverse).take 32) =
      squeeze 256 (view st) := by
  have hlen : (st.flatMap fun lane => (fixed 8 lane.toNat).reverse).length = 200 := by
    simp [List.length_flatMap,h]
  apply List.ext_getElem
  · rw [bits_length,List.length_take,hlen,squeeze,List.length_map,List.length_range]
    rfl
  · intro i h₁ h₂
    have hi : i < 256 := by simpa [squeeze] using h₂
    have hbits := getD_bits_lanes st i
    rw [List.getD_eq_getElem _ _ (by rw [bits_length,hlen]; omega)] at hbits
    have hindex : 5*(i/320%5)+i/64%5 = i/64 := by omega
    simp only [bits_take,List.getElem_take,hbits,squeeze,List.getElem_map,List.getElem_range,
      view,Fin.val_ofNat,hindex]

theorem pad_length {input : Bytes} (h : input.length < 136) : (pad 136 input).length = 136 := by
  simp [pad]
  omega

/-- For every message the code computes the sponge with a rate of 1088 bits, a
capacity of 512 and a digest of 256. -/
theorem keccak_eq_sponge (input : Bytes) :
    bits (keccak input 32) = digest 1088 256 (bits input) := by
  have hzero : view (List.replicate 25 0) = fun _ _ _ => false := by
    funext x y z
    fin_cases x <;> fin_cases y <;> exact Nat.zero_testBit z.val
  obtain ⟨hrest,hsame⟩ := absorb_spec input.length (List.replicate 25 0) input le_rfl
  have hcode : keccak input 32 =
      ((keccakf (xorBlock 17 (absorb 136 input.length (List.replicate 25 0) input).1
        (pad 136 (absorb 136 input.length (List.replicate 25 0) input).2))).flatMap
          fun lane => (fixed 8 lane.toNat).reverse).take 32 := rfl
  rw [hcode,digest,← hzero,hsame]
  generalize absorb 136 input.length (List.replicate 25 0) input = r at hrest
  have hblock : (bits (pad 136 r.2)).length = 1088 := by rw [bits_length,pad_length hrest]
  rw [← bits_pad hrest,absorb_block (by decide) _ hblock,bits_squeeze (keccakf_length _),
    view_keccakf,view_xorBlock,List.take_of_length_le (pad_length hrest).le]

end TownCrier.Keccak
