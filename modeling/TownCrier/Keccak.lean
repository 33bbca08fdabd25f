import TownCrier.Evm

/-!
# The hash of the chain

`keccak.c`, with a digest of 32 bytes. The state is a list of 25 lanes, and each
loop over it is a map or a fold over the positions that it visits.
-/
namespace TownCrier.Keccak
open BigEndian Evm

def keccakf_rndc : List UInt64 :=
  [0x0000000000000001,0x0000000000008082,0x800000000000808a,0x8000000080008000,
    0x000000000000808b,0x0000000080000001,0x8000000080008081,0x8000000000008009,
    0x000000000000008a,0x0000000000000088,0x0000000080008009,0x000000008000000a,
    0x000000008000808b,0x800000000000008b,0x8000000000008089,0x8000000000008003,
    0x8000000000008002,0x8000000000000080,0x000000000000800a,0x800000008000000a,
    0x8000000080008081,0x8000000000008080,0x0000000080000001,0x8000000080008008]

def keccakf_rotc : List UInt64 :=
  [1,3,6,10,15,21,28,36,45,55,2,14,27,41,56,8,25,43,62,18,39,61,20,44]

def keccakf_piln : List ℕ :=
  [10,7,11,17,18,3,5,16,8,21,24,4,15,23,19,13,12,2,20,14,22,9,6,1]

def ROTL64 (x y : UInt64) : UInt64 := x <<< y ||| x >>> (64-y)

def theta (st : List UInt64) : List UInt64 :=
  let bc := (List.range 5).map fun i =>
    st[i]! ^^^ st[i+5]! ^^^ st[i+10]! ^^^ st[i+15]! ^^^ st[i+20]!
  let t := (List.range 5).map fun i => bc[(i+4)%5]! ^^^ ROTL64 bc[(i+1)%5]! 1
  (List.range 25).map fun k => st[k]! ^^^ t[k%5]!

/-- The lane `t` on its way is put in each place and takes out the one there. -/
def rhoPi (st : List UInt64) : List UInt64 :=
  ((keccakf_piln.zip keccakf_rotc).foldl
    (fun (t,st) (j,r) => (st[j]!,st.set j (ROTL64 t r))) (st[1]!,st)).2

def chi (st : List UInt64) : List UInt64 :=
  (List.range 25).map fun k => st[k]! ^^^ (~~~st[k/5*5+(k+1)%5]! &&& st[k/5*5+(k+2)%5]!)

def iota (rndc : UInt64) (st : List UInt64) : List UInt64 := st.set 0 (st[0]! ^^^ rndc)

def keccakf (st : List UInt64) : List UInt64 :=
  keccakf_rndc.foldl (fun st rndc => iota rndc (chi (rhoPi (theta st)))) st

/-- The `i`th word of a buffer on a little-endian machine. -/
def word (b : Bytes) (i : ℕ) : UInt64 :=
  UInt64.ofNat (value ((b.drop (8*i)).take 8).reverse)

def xorBlock (rsizw : ℕ) (st : List UInt64) (b : Bytes) : List UInt64 :=
  (List.range 25).map fun i => if i < rsizw then st[i]! ^^^ word b i else st[i]!

/-- The whole blocks of the input, and what is left of it. -/
def absorb (rsiz : ℕ) : ℕ → List UInt64 → Bytes → List UInt64 × Bytes
  | 0, st, input => (st,input)
  | n+1, st, input =>
      if rsiz ≤ input.length then
        absorb rsiz n (keccakf (xorBlock (rsiz/8) st input)) (input.drop rsiz)
      else (st,input)

/-- The last block: a one after the input, and the highest bit at the end. -/
def pad (rsiz : ℕ) (input : Bytes) : Bytes :=
  let temp := input++1::List.replicate (rsiz-input.length-1) 0
  temp.set (rsiz-1) (temp[rsiz-1]! ||| 0x80)

def keccak (input : Bytes) (mdlen : ℕ) : Bytes :=
  let rsiz := 200-2*mdlen
  let (st,rest) := absorb rsiz input.length (List.replicate 25 0) input
  let st := keccakf (xorBlock (rsiz/8) st (pad rsiz rest))
  (st.flatMap fun lane => (fixed 8 lane.toNat).reverse).take mdlen

def keccak256 (input : Bytes) : Bytes32 := BitVec.ofNat 256 (value (keccak input 32))

/-! The hash of a short text by numbers, which the kernel evaluates fast: a state
is taken apart into its lanes once a round, and each round ends with literals. -/

/-- The list itself; each of its numbers is evaluated before it is used. -/
def force {A : Type} : List ℕ → (List ℕ → A) → A
  | [], k => k []
  | 0::l, k => force l fun l => k (0::l)
  | (n+1)::l, k => force l fun l => k ((n+1)::l)

def lanes (st : List UInt64) : List ℕ := st.map UInt64.toNat

def rotl (x y : ℕ) : ℕ := x <<< y%2^64 ||| x >>> (64-y)

def chiLane (x y z : ℕ) : ℕ := x ^^^ ((2^64-1-y) &&& z)

def thetaNat : List ℕ → List ℕ
  | [a0,a1,a2,a3,a4,a5,a6,a7,a8,a9,a10,a11,a12,a13,a14,a15,a16,a17,a18,a19,a20,a21,a22,a23,a24] =>
      let c0 := a0 ^^^ a5 ^^^ a10 ^^^ a15 ^^^ a20
      let c1 := a1 ^^^ a6 ^^^ a11 ^^^ a16 ^^^ a21
      let c2 := a2 ^^^ a7 ^^^ a12 ^^^ a17 ^^^ a22
      let c3 := a3 ^^^ a8 ^^^ a13 ^^^ a18 ^^^ a23
      let c4 := a4 ^^^ a9 ^^^ a14 ^^^ a19 ^^^ a24
      let t0 := c4 ^^^ rotl c1 1
      let t1 := c0 ^^^ rotl c2 1
      let t2 := c1 ^^^ rotl c3 1
      let t3 := c2 ^^^ rotl c4 1
      let t4 := c3 ^^^ rotl c0 1
      [a0 ^^^ t0,a1 ^^^ t1,a2 ^^^ t2,a3 ^^^ t3,a4 ^^^ t4,a5 ^^^ t0,a6 ^^^ t1,a7 ^^^ t2,
        a8 ^^^ t3,a9 ^^^ t4,a10 ^^^ t0,a11 ^^^ t1,a12 ^^^ t2,a13 ^^^ t3,a14 ^^^ t4,a15 ^^^ t0,
        a16 ^^^ t1,a17 ^^^ t2,a18 ^^^ t3,a19 ^^^ t4,a20 ^^^ t0,a21 ^^^ t1,a22 ^^^ t2,a23 ^^^ t3,
        a24 ^^^ t4]
  | st => st

def rhoPiNat : List ℕ → List ℕ
  | [a0,a1,a2,a3,a4,a5,a6,a7,a8,a9,a10,a11,a12,a13,a14,a15,a16,a17,a18,a19,a20,a21,a22,a23,a24] =>
      [a0,rotl a6 44,rotl a12 43,rotl a18 21,rotl a24 14,rotl a3 28,rotl a9 20,rotl a10 3,
        rotl a16 45,rotl a22 61,rotl a1 1,rotl a7 6,rotl a13 25,rotl a19 8,rotl a20 18,
        rotl a4 27,rotl a5 36,rotl a11 10,rotl a17 15,rotl a23 56,rotl a2 62,rotl a8 55,
        rotl a14 39,rotl a15 41,rotl a21 2]
  | st => st

def chiNat : List ℕ → List ℕ
  | [a0,a1,a2,a3,a4,a5,a6,a7,a8,a9,a10,a11,a12,a13,a14,a15,a16,a17,a18,a19,a20,a21,a22,a23,a24] =>
      [chiLane a0 a1 a2,chiLane a1 a2 a3,chiLane a2 a3 a4,chiLane a3 a4 a0,chiLane a4 a0 a1,
        chiLane a5 a6 a7,chiLane a6 a7 a8,chiLane a7 a8 a9,chiLane a8 a9 a5,chiLane a9 a5 a6,
        chiLane a10 a11 a12,chiLane a11 a12 a13,chiLane a12 a13 a14,chiLane a13 a14 a10,
        chiLane a14 a10 a11,chiLane a15 a16 a17,chiLane a16 a17 a18,chiLane a17 a18 a19,
        chiLane a18 a19 a15,chiLane a19 a15 a16,chiLane a20 a21 a22,chiLane a21 a22 a23,
        chiLane a22 a23 a24,chiLane a23 a24 a20,chiLane a24 a20 a21]
  | st => st

def keccakfNat : List ℕ → List ℕ → List ℕ
  | [], st => st
  | c::cs, st =>
      force (chiNat (rhoPiNat (thetaNat st))) fun st => keccakfNat cs (st.set 0 (st[0]! ^^^ c))

theorem force_eq {A : Type} (l : List ℕ) (k : List ℕ → A) : force l k = k l := by
  induction l generalizing k with
  | nil => rfl
  | cons n l ih => cases n <;> exact ih _

theorem toNat_ROTL64 (x : UInt64) {y : UInt64} (h : 0 < y ∧ y < 64) :
    (ROTL64 x y).toNat = rotl x.toNat y.toNat := by
  have hlow : 0 < y.toNat := UInt64.lt_iff_toNat_lt.mp h.1
  have hhigh : y.toNat < 64 := UInt64.lt_iff_toNat_lt.mp h.2
  have hsub : (64-y).toNat = 64-y.toNat :=
    UInt64.toNat_sub_of_le _ _ (UInt64.le_of_lt h.2)
  rw [ROTL64,rotl,UInt64.toNat_or,UInt64.toNat_shiftLeft,UInt64.toNat_shiftRight,hsub,
    Nat.mod_eq_of_lt hhigh,Nat.mod_eq_of_lt (a := 64-y.toNat) (by omega)]

/-- A property of every state, shown of the lanes by name. -/
theorem forall_lanes {p : List UInt64 → Prop}
    (h : ∀ a0 a1 a2 a3 a4 a5 a6 a7 a8 a9 a10 a11 a12 a13 a14 a15 a16 a17 a18 a19 a20 a21 a22 a23
        a24,
      p [a0,a1,a2,a3,a4,a5,a6,a7,a8,a9,a10,a11,a12,
        a13,a14,a15,a16,a17,a18,a19,a20,a21,a22,a23,a24]) :
    ∀ st : List UInt64, st.length = 25 → p st
  | [a0,a1,a2,a3,a4,a5,a6,a7,a8,a9,a10,a11,a12,a13,a14,a15,a16,a17,a18,a19,a20,a21,a22,a23,a24],_ =>
      h a0 a1 a2 a3 a4 a5 a6 a7 a8 a9 a10 a11 a12 a13 a14 a15 a16 a17 a18 a19 a20 a21 a22 a23
        a24


theorem lanes_theta : ∀ st : List UInt64, st.length = 25 →
    lanes (theta st) = thetaNat (lanes st) := by
  apply forall_lanes
  intros
  rfl

theorem lanes_rhoPi : ∀ st : List UInt64, st.length = 25 →
    lanes (rhoPi st) = rhoPiNat (lanes st) ∧ (rhoPi st).length = 25 := by
  apply forall_lanes
  intros
  simp only [rhoPi,keccakf_piln,keccakf_rotc,List.zip_cons_cons,List.zip_nil_right,
    List.foldl_cons,List.foldl_nil,List.set_cons_succ,List.set_cons_zero,
    List.getElem!_cons_succ,List.getElem!_cons_zero]
  constructor
  · simp (disch := decide) only [lanes,List.map_cons,List.map_nil,toNat_ROTL64]
    rfl
  · rfl

theorem lanes_chi : ∀ st : List UInt64, st.length = 25 →
    lanes (chi st) = chiNat (lanes st) := by
  apply forall_lanes
  intros
  have hnot (x : UInt64) : (~~~x).toNat = 2^64-1-x.toNat := UInt64.toNat_not x
  simp only [lanes,List.map_cons,List.map_nil,chiNat,chiLane,← hnot]
  rfl

theorem lanes_iota (c : UInt64) : ∀ st : List UInt64, st.length = 25 →
    lanes (iota c st) = (lanes st).set 0 ((lanes st)[0]! ^^^ c.toNat) := by
  apply forall_lanes
  intros
  simp only [lanes,iota,List.set_cons_zero,List.map_cons,List.getElem!_cons_zero]
  rfl

theorem lanes_rounds (rndc : List UInt64) {st : List UInt64} (h : st.length = 25) :
    lanes (rndc.foldl (fun st rndc => iota rndc (chi (rhoPi (theta st)))) st) =
      keccakfNat (lanes rndc) (lanes st) := by
  induction rndc generalizing st with
  | nil => rfl
  | cons c rndc ih =>
      have htheta : (theta st).length = 25 := by simp [theta]
      obtain ⟨hlanes,hrhoPi⟩ := lanes_rhoPi _ htheta
      have hchi : (chi (rhoPi (theta st))).length = 25 := by simp [chi]
      have hiota : (iota c (chi (rhoPi (theta st)))).length = 25 := by rwa [iota,List.length_set]
      have hcons : lanes (c::rndc) = c.toNat::lanes rndc := rfl
      rw [List.foldl_cons,ih hiota,lanes_iota c _ hchi,lanes_chi _ hrhoPi,hlanes,
        lanes_theta _ h,hcons,keccakfNat,force_eq]

/-- The lanes of the hash of a short text: it is one block. -/
def shortLanes (input : Bytes) : List ℕ :=
  force ((List.range 25).map fun i => if i < 17 then (word (pad 136 input) i).toNat else 0)
    (keccakfNat (lanes keccakf_rndc))

def selectorNat (signature : String) : Bytes4 :=
  let input := signature.toList.map fun c => UInt8.ofNat c.toNat
  (BitVec.ofNat 256 (value (((shortLanes input).flatMap fun lane =>
    (fixed 8 lane).reverse).take 32))).extractLsb' 224 32

theorem keccak_short {input : Bytes} (h : input.length < 136) :
    keccak input 32 = ((shortLanes input).flatMap fun lane => (fixed 8 lane).reverse).take 32 := by
  have habsorb : absorb 136 input.length (List.replicate 25 0) input =
      (List.replicate 25 0,input) := by
    cases hn : input.length with
    | zero => rfl
    | succ n => rw [absorb,if_neg (by omega)]
  have hlength : (xorBlock 17 (List.replicate 25 0) (pad 136 input)).length = 25 := by
    simp [xorBlock]
  have hblock : lanes (xorBlock 17 (List.replicate 25 0) (pad 136 input)) =
      (List.range 25).map fun i => if i < 17 then (word (pad 136 input) i).toNat else 0 := by
    rw [lanes,xorBlock,List.map_map]
    apply List.map_congr_left
    intro i hi
    have hzero : (List.replicate 25 (0 : UInt64))[i]! = 0 := by
      rw [List.getElem!_eq_getElem?_getD,List.getElem?_replicate_of_lt (List.mem_range.mp hi)]
      rfl
    rw [Function.comp_apply,hzero,UInt64.zero_xor]
    split_ifs
    · rfl
    · rfl
  rw [shortLanes,force_eq,← hblock,← lanes_rounds _ hlength,lanes,List.flatMap_map]
  simp only [keccak]
  rw [habsorb]
  rfl

theorem selector_short {signature : String} (h : signature.toList.length < 136) :
    selector keccak256 signature = selectorNat signature := by
  rw [selector,keccak256,keccak_short (by rwa [List.length_map])]
  rfl

end TownCrier.Keccak
