import TownCrier.BigEndian
import Mathlib.Algebra.Field.Basic
import Mathlib.Algebra.Field.ZMod
import Mathlib.Algebra.Module.Torsion.Field
import Mathlib.Tactic.IntervalCases
import Mathlib.Tactic.NormNum.Prime

/-!
# Signatures over a curve of prime order

Verification, the recovery of the public key from a signature, and the exchange
of a shared secret. The points form a vector space over the field of scalars; a
point other than the origin is known by its first coordinate and the parity of
the second one. Nothing here depends on which curve it is.
-/
namespace TownCrier.Ecdsa
open BigEndian

structure Curve (K G : Type) [Field K] [AddCommGroup G] [Module K G] where
  /-- The number of points. -/
  n : ℕ
  base : G
  /-- The first coordinate of a point, and whether the second one is odd. -/
  x : G → ℕ
  odd : G → Bool
  /-- The point with these coordinates. -/
  lift : ℕ → Bool → Option G
  /-- Both coordinates in 64 bytes, and the reader of the uncompressed form. -/
  coordinates : G → Bytes
  read : Bytes → Option G
  base_ne : base ≠ 0
  cast_eq_zero : ∀ k : ℕ, (k : K) = 0 ↔ n ∣ k
  lift_iff : ∀ r b R, lift r b = some R ↔ R ≠ 0 ∧ x R = r ∧ odd R = b
  coordinates_length : ∀ R, (coordinates R).length = 64
  read_coordinates : ∀ R, R ≠ 0 → read (4::coordinates R) = some R

namespace Curve
variable {K G : Type} [Field K] [AddCommGroup G] [Module K G] (C : Curve K G)

/-- What a private key and each half of a signature has to be. -/
def Scalar (k : ℕ) : Prop := 0 < k ∧ k < C.n

instance (k : ℕ) : Decidable (C.Scalar k) := inferInstanceAs (Decidable (_ ∧ _))

def pubkey (d : ℕ) : G := (d : K) • C.base

/-- The point which the verifier computes. -/
def nonce (Q : G) (z r s : ℕ) : G := ((z : K)/(s : K)) • C.base+((r : K)/(s : K)) • Q

def verify [DecidableEq G] (Q : G) (z r s : ℕ) : Bool :=
  C.Scalar r ∧ C.Scalar s ∧ C.nonce Q z r s ≠ 0 ∧ C.x (C.nonce Q z r s)%C.n = r

/-- The public key under which the signature holds, if `r` is the whole first
coordinate of the point. -/
def recover [DecidableEq G] (z r s : ℕ) (b : Bool) : Option G :=
  if C.Scalar r ∧ C.Scalar s then
    (C.lift r b).bind fun R =>
      let Q := (r : K)⁻¹ • ((s : K) • R-(z : K) • C.base)
      if Q = 0 then none else some Q
  else none

/-- The first coordinate of the product of a private key and a foreign point. -/
def shared [DecidableEq G] (d : ℕ) (Q : G) : Option ℕ :=
  if (d : K) • Q = 0 then none else some (C.x ((d : K) • Q))

variable {C}

theorem Scalar.cast_ne_zero {k : ℕ} (h : C.Scalar k) : (k : K) ≠ 0 := by
  rw [ne_eq,C.cast_eq_zero]
  intro hdvd
  exact absurd (Nat.le_of_dvd h.1 hdvd) (not_le.mpr h.2)

theorem Scalar.pubkey_ne_zero {d : ℕ} (h : C.Scalar d) : C.pubkey d ≠ 0 :=
  smul_ne_zero h.cast_ne_zero C.base_ne

theorem verify_iff [DecidableEq G] {Q : G} {z r s : ℕ} :
    C.verify Q z r s = true ↔
      C.Scalar r ∧ C.Scalar s ∧ C.nonce Q z r s ≠ 0 ∧ C.x (C.nonce Q z r s)%C.n = r :=
  decide_eq_true_iff

/-- The point of a signature is determined by the equation that it solves. -/
theorem nonce_unique {Q R : G} {z r s : ℕ} (hs : C.Scalar s) :
    (s : K) • R = (z : K) • C.base+(r : K) • Q ↔ R = C.nonce Q z r s := by
  have hne := hs.cast_ne_zero
  rw [nonce]
  constructor
  · intro h
    calc R = (s : K)⁻¹ • ((s : K) • R) := (inv_smul_smul₀ hne R).symm
      _ = _ := by rw [h,smul_add,smul_smul,smul_smul,div_eq_inv_mul,div_eq_inv_mul]
  · rintro rfl
    rw [smul_add,smul_smul,smul_smul,mul_div_cancel₀ _ hne,mul_div_cancel₀ _ hne]

/-- A verified signature leads back to its key exactly if the two values next to
`s` give the point of the signature; the verification does not look at `b`. -/
theorem recover_eq_some_iff [DecidableEq G] {Q : G} {z r s : ℕ} (hQ : Q ≠ 0)
    (h : C.verify Q z r s = true) (b : Bool) :
    C.recover z r s b = some Q ↔ C.x (C.nonce Q z r s) = r ∧ C.odd (C.nonce Q z r s) = b := by
  obtain ⟨hr,hs,hne,-⟩ := verify_iff.mp h
  have hcancel : ∀ R : G, (r : K)⁻¹ • ((s : K) • R-(z : K) • C.base) = Q ↔
      R = C.nonce Q z r s := by
    intro R
    rw [← nonce_unique hs,inv_smul_eq_iff₀ hr.cast_ne_zero,sub_eq_iff_eq_add']
  rw [recover,if_pos ⟨hr,hs⟩]
  constructor
  · intro hrec
    obtain ⟨R,hlift,hR⟩ := Option.bind_eq_some_iff.mp hrec
    dsimp only at hR
    split_ifs at hR with hzero
    obtain rfl := (hcancel R).mp (Option.some.inj hR)
    exact ((C.lift_iff _ _ _).mp hlift).2
  · intro hb
    have hpoint := (hcancel _).mpr rfl
    rw [(C.lift_iff _ _ _).mpr ⟨hne,hb⟩]
    simp only [Option.bind_some,hpoint,if_neg hQ]

/-- Both sides of an exchange arrive at the same secret. -/
theorem shared_comm [DecidableEq G] (d e : ℕ) : C.shared d (C.pubkey e) = C.shared e (C.pubkey d) := by
  rw [shared,shared,pubkey,pubkey,smul_smul,smul_smul,mul_comm]

theorem shared_pubkey [DecidableEq G] {d e : ℕ} (hd : C.Scalar d) (he : C.Scalar e) :
    ∃ k, C.shared d (C.pubkey e) = some k :=
  ⟨_,if_neg (smul_ne_zero hd.cast_ne_zero he.pubkey_ne_zero)⟩

end Curve

instance prime_seven : Fact (Nat.Prime 7) := ⟨by norm_num⟩

/-- Seven points, `1` to `3` with even second coordinates and `4` to `6` with odd ones. -/
def sevenPoints : Curve (ZMod 7) (ZMod 7) where
  n := 7
  base := 1
  x R := min R.val (7-R.val)
  odd R := 3 < R.val
  lift r b := if 0 < r ∧ r < 4 then some (if b then -(r : ZMod 7) else r) else none
  coordinates R := fixed 64 R.val
  read b := if b.head? = some 4 ∧ b.length = 65 then some (value b.tail : ZMod 7) else none
  base_ne := by decide
  cast_eq_zero k := ZMod.natCast_eq_zero_iff k 7
  lift_iff r b R := by
    by_cases hr : 0 < r ∧ r < 4
    · obtain ⟨hpos,hlt⟩ := hr
      interval_cases r <;> revert b R <;> decide
    · rw [if_neg hr]
      have hx : ∀ R : ZMod 7, R ≠ 0 → 0 < min R.val (7-R.val) ∧ min R.val (7-R.val) < 4 := by decide
      constructor
      · intro h
        cases h
      · rintro ⟨hR,rfl,-⟩
        exact absurd (hx R hR) hr
  coordinates_length R := fixed_length ..
  read_coordinates R _ := by
    have hlt : R.val < 256^64 := (ZMod.val_lt R).trans (by norm_num)
    rw [if_pos (by simp),List.tail_cons,value_fixed,Nat.mod_eq_of_lt hlt,ZMod.natCast_zmod_val]

end TownCrier.Ecdsa
