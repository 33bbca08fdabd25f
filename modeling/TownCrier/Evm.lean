import Mathlib.Algebra.BigOperators.Intervals
import Mathlib.Algebra.Order.BigOperators.Group.Finset
import Mathlib.Data.UInt
import TownCrier.BigEndian
import TownCrier.CallTree

/-!
# Accounts and words of the chain

What the contracts share: 256-bit words that wrap around, the message of a
call, and the account of a contract with its storage, balance and log. The list
of outgoing transfers has no counterpart on the chain. It remembers the place in
the source which made each of them and whether the recipient accepted it, and a
reverted call takes its entries back like everything else.

A table of a contract has a record for every 64-bit number; those from one up to a
counter are in use. `total` adds up an amount of each, and the lemmas say how it changes
when one record is written or the next one is taken into use.
-/
namespace TownCrier.Evm
open BigEndian CallMachine

abbrev Address := BitVec 160
abbrev UInt256 := BitVec 256
abbrev Bytes32 := BitVec 256
abbrev Bytes4 := BitVec 32

/-- `gasLeft` is what `msg.gas` yields when the call reads it. -/
structure Msg where
  sender : Address
  value : UInt256
  gasPrice : UInt256
  gasLeft : UInt256
  timestamp : UInt256

structure Transfer (P : Type) where
  recipient : Address
  value : UInt256
  purpose : P
  success : Bool

structure Account (S E P : Type) where
  storage : S
  balance : ℕ
  logs : List E
  sent : List (Transfer P)

namespace Account
variable {S E P R K : Type} (a : Account S E P)

def set (s : S) : Account S E P := {a with storage := s}

def emit (e : E) : Account S E P := {a with logs := a.logs++[e]}

def credit (value : UInt256) : Account S E P := {a with balance := a.balance+value.toNat}

def pay (recipient : Address) (value : UInt256) (purpose : P) : Account S E P :=
  {a with balance := a.balance-value.toNat, sent := a.sent++[⟨recipient,value,purpose,true⟩]}

/-- The recipient did not accept the transfer. -/
def keep (recipient : Address) (value : UInt256) (purpose : P) : Account S E P :=
  {a with sent := a.sent++[⟨recipient,value,purpose,false⟩]}

/-- `call.value`: without the funds the call fails before the recipient runs. -/
def callOut (recipient : Address) (value : UInt256) (purpose : P) (k : K)
    (onFailure : Account S E P → Outcome R (Account S E P) K) : Outcome R (Account S E P) K :=
  if value.toNat ≤ a.balance then
    .call (a.keep recipient value purpose) (a.pay recipient value purpose) k
  else onFailure (a.keep recipient value purpose)

theorem callOut_zero (recipient : Address) (purpose : P) (k : K)
    (onFailure : Account S E P → Outcome R (Account S E P) K) :
    a.callOut recipient 0 purpose k onFailure =
      .call (a.keep recipient 0 purpose) (a.pay recipient 0 purpose) k := if_pos (Nat.zero_le _)

/-- `transfer` to an account without code; `none` when it reverts. -/
def transfer (recipient : Address) (value : UInt256) (purpose : P) : Option (Account S E P) :=
  if value.toNat ≤ a.balance then some (a.pay recipient value purpose) else none

@[simp] theorem storage_set (s : S) : (a.set s).storage = s := rfl
@[simp] theorem balance_set (s : S) : (a.set s).balance = a.balance := rfl
@[simp] theorem logs_set (s : S) : (a.set s).logs = a.logs := rfl
@[simp] theorem sent_set (s : S) : (a.set s).sent = a.sent := rfl
@[simp] theorem storage_emit (e : E) : (a.emit e).storage = a.storage := rfl
@[simp] theorem balance_emit (e : E) : (a.emit e).balance = a.balance := rfl
@[simp] theorem logs_emit (e : E) : (a.emit e).logs = a.logs++[e] := rfl
@[simp] theorem sent_emit (e : E) : (a.emit e).sent = a.sent := rfl
@[simp] theorem storage_credit (v : UInt256) : (a.credit v).storage = a.storage := rfl
@[simp] theorem balance_credit (v : UInt256) : (a.credit v).balance = a.balance+v.toNat := rfl
@[simp] theorem logs_credit (v : UInt256) : (a.credit v).logs = a.logs := rfl
@[simp] theorem sent_credit (v : UInt256) : (a.credit v).sent = a.sent := rfl
@[simp] theorem credit_zero : a.credit 0 = a := rfl
@[simp] theorem storage_pay (r : Address) (v : UInt256) (p : P) :
    (a.pay r v p).storage = a.storage := rfl
@[simp] theorem balance_pay (r : Address) (v : UInt256) (p : P) :
    (a.pay r v p).balance = a.balance-v.toNat := rfl
@[simp] theorem logs_pay (r : Address) (v : UInt256) (p : P) : (a.pay r v p).logs = a.logs := rfl
@[simp] theorem sent_pay (r : Address) (v : UInt256) (p : P) :
    (a.pay r v p).sent = a.sent++[⟨r,v,p,true⟩] := rfl
theorem getLast?_sent_pay (r : Address) (v : UInt256) (p : P) :
    (a.pay r v p).sent.getLast? = some ⟨r,v,p,true⟩ := List.getLast?_concat
variable {a} in
theorem eq_of_last_pay {r : Address} {v : UInt256} {p : P} {t : Transfer P}
    (h : (a.pay r v p).sent.getLast? = some t) : t = ⟨r,v,p,true⟩ :=
  (Option.some.inj ((a.getLast?_sent_pay r v p).symm.trans h)).symm
@[simp] theorem storage_keep (r : Address) (v : UInt256) (p : P) :
    (a.keep r v p).storage = a.storage := rfl
@[simp] theorem balance_keep (r : Address) (v : UInt256) (p : P) :
    (a.keep r v p).balance = a.balance := rfl
@[simp] theorem logs_keep (r : Address) (v : UInt256) (p : P) : (a.keep r v p).logs = a.logs := rfl
@[simp] theorem sent_keep (r : Address) (v : UInt256) (p : P) :
    (a.keep r v p).sent = a.sent++[⟨r,v,p,false⟩] := rfl

theorem post_callOut {Q : Assertions (Account S E P) K} {good : Account S E P → Prop}
    {entry : Account S E P} {recipient : Address} {value : UInt256} {purpose : P} {k : K}
    {onFailure : Account S E P → Outcome R (Account S E P) K}
    (hcall : value.toNat ≤ a.balance → good (a.pay recipient value purpose) →
      Q.inv (a.pay recipient value purpose) ∧ Q.held k entry (a.pay recipient value purpose) ∧
        Q.failed k entry (a.keep recipient value purpose))
    (hfail : ¬value.toNat ≤ a.balance → Q.Post good entry (onFailure (a.keep recipient value purpose))) :
    Q.Post good entry (a.callOut recipient value purpose k onFailure) := by
  unfold callOut
  split_ifs with h
  · exact hcall h
  · exact hfail h

theorem all_callOut {I : Account S E P → Prop} {L : K → Prop} {recipient : Address}
    {value : UInt256} {purpose : P} {k : K}
    {onFailure : Account S E P → Outcome R (Account S E P) K}
    (hkeep : I (a.keep recipient value purpose)) (hpay : I (a.pay recipient value purpose))
    (hk : L k) (hfail : (onFailure (a.keep recipient value purpose)).All I L) :
    (a.callOut recipient value purpose k onFailure).All I L := by
  unfold callOut
  split_ifs
  · exact ⟨hkeep,hpay,hk⟩
  · exact hfail

theorem callOut_ne_revert {recipient : Address} {value : UInt256} {purpose : P} {k : K}
    {onFailure : Account S E P → Outcome R (Account S E P) K}
    (h : value.toNat ≤ a.balance ∨ onFailure (a.keep recipient value purpose) ≠ .revert) :
    a.callOut recipient value purpose k onFailure ≠ .revert := by
  unfold callOut
  split_ifs with hfunds
  · nofun
  · exact h.resolve_left hfunds

/-- A call hands over an account which has paid, and keeps one which has not. -/
def Outgoing : Outcome R (Account S E P) K → Prop
  | .call saved handover _ => ∃ a recipient value purpose,
      saved = keep a recipient value purpose ∧ handover = pay a recipient value purpose
  | _ => True

theorem outgoing_callOut {recipient : Address} {value : UInt256} {purpose : P} {k : K}
    {onFailure : Account S E P → Outcome R (Account S E P) K}
    (h : Outgoing (onFailure (a.keep recipient value purpose))) :
    Outgoing (a.callOut recipient value purpose k onFailure) := by
  unfold callOut
  split_ifs
  · exact ⟨a,recipient,value,purpose,rfl,rfl⟩
  · exact h

theorem Outgoing.storage {saved handover : Account S E P} {k : K}
    (h : Outgoing (.call saved handover k : Outcome R (Account S E P) K)) :
    saved.storage = handover.storage := by
  obtain ⟨a,r,v,p,rfl,rfl⟩ := h
  rfl

/-- Recipient, value and place of each transfer, whether it succeeded or not. -/
def attempts : List (Address × UInt256 × P) := a.sent.map fun t => (t.recipient,t.value,t.purpose)

@[simp] theorem attempts_pay (r : Address) (v : UInt256) (p : P) :
    (a.pay r v p).attempts = a.attempts++[(r,v,p)] := by
  simp [attempts]

@[simp] theorem attempts_keep (r : Address) (v : UInt256) (p : P) :
    (a.keep r v p).attempts = a.attempts++[(r,v,p)] := by
  simp [attempts]

/-- The transfers that have been tried when a piece of code stops. -/
def tried : Outcome R (Account S E P) K → List (Address × UInt256 × P)
  | .done _ a => a.attempts
  | .revert => []
  | .call _ handover _ => handover.attempts

theorem tried_callOut {recipient : Address} {value : UInt256} {purpose : P} {k : K}
    {onFailure : Account S E P → Outcome R (Account S E P) K}
    (h : tried (onFailure (a.keep recipient value purpose)) =
      (a.keep recipient value purpose).attempts) :
    tried (a.callOut recipient value purpose k onFailure) =
      a.attempts++[(recipient,value,purpose)] := by
  unfold callOut
  split_ifs
  · simp [tried,attempts]
  · rw [h]
    simp [attempts]

end Account

section Wei
variable {P : Type}

/-- The wei of some of the transfers, as far as they were accepted. -/
def wei (f : Transfer P → Bool) (L : List (Transfer P)) : ℕ :=
  ((L.filter fun t => t.success && f t).map fun t => t.value.toNat).sum

theorem wei_append (f : Transfer P → Bool) (L M : List (Transfer P)) :
    wei f (L++M) = wei f L+wei f M := by
  simp [wei]

theorem wei_mono (f : Transfer P → Bool) {L M : List (Transfer P)} (h : L <+: M) :
    wei f L ≤ wei f M := by
  obtain ⟨N,rfl⟩ := h
  rw [wei_append]
  exact Nat.le_add_right _ _

theorem wei_paid (f : Transfer P → Bool) (L : List (Transfer P)) (r : Address) (v : UInt256)
    (p : P) : wei f (L++[⟨r,v,p,true⟩]) = wei f L+if f ⟨r,v,p,true⟩ then v.toNat else 0 := by
  rw [wei_append]
  by_cases h : f ⟨r,v,p,true⟩ <;> simp [wei,h]

theorem wei_kept (f : Transfer P → Bool) (L : List (Transfer P)) (r : Address) (v : UInt256)
    (p : P) : wei f (L++[⟨r,v,p,false⟩]) = wei f L := by
  simp [wei]

end Wei

/-- A function that is not `payable` reverts when value comes with the call. -/
def nonPayable {R W K : Type} (m : Msg) (o : Outcome R W K) : Outcome R W K :=
  if m.value = 0 then o else .revert

theorem post_nonPayable {W K R : Type} {Q : Assertions W K} {good : W → Prop} {entry : W}
    {m : Msg} {o : Outcome R W K} (h : Q.Post good entry o) :
    Q.Post good entry (nonPayable m o) := by
  unfold nonPayable
  split_ifs
  · exact h
  · trivial

theorem all_nonPayable {W K R : Type} {I : W → Prop} {L : K → Prop} {m : Msg} {o : Outcome R W K}
    (h : o.All I L) : (nonPayable m o).All I L := by
  unfold nonPayable
  split_ifs
  · exact h
  · trivial

theorem outgoing_nonPayable {S E P R K : Type} {m : Msg} {o : Outcome R (Account S E P) K}
    (h : Account.Outgoing o) : Account.Outgoing (nonPayable m o) := by
  unfold nonPayable
  split_ifs
  · exact h
  · trivial

def wordBytes (w : Bytes32) : Bytes := fixed 32 w.toNat

/-- `abi.encodePacked(uint8, bytes32[])` -/
def encodePacked (t : UInt8) (words : List Bytes32) : Bytes := t::words.flatMap wordBytes

/-- The first four bytes of the hash of a signature. -/
def selector (keccak : Bytes → Bytes32) (signature : String) : Bytes4 :=
  (keccak (signature.toList.map fun c => UInt8.ofNat c.toNat)).extractLsb' 224 32

theorem ofInt_toNat (n : UInt64) : UInt64.ofInt (n.toNat : ℤ) = n := by
  apply UInt64.toNat_inj.mp
  have hlt : (n.toNat : ℤ) < 2^64 := by exact_mod_cast n.toNat_lt
  rw [UInt64.ofInt,Int.emod_eq_of_lt (Int.natCast_nonneg _) hlt,Int.toNat_natCast,
    UInt64.ofNat_toNat]

@[simp] theorem wordBytes_length (w : Bytes32) : (wordBytes w).length = 32 := fixed_length _ _

end TownCrier.Evm

namespace TownCrier.Ledger

variable {A : Type} (amount : A → ℕ)

def total (table : UInt64 → A) (n : ℕ) : ℕ :=
  ∑ i ∈ Finset.Ico 1 n, amount (table (UInt64.ofNat i))

theorem ofNat_inj {i : ℕ} {id : UInt64} (hi : i < 2^64) :
    UInt64.ofNat i = id ↔ i = id.toNat := by
  rw [← UInt64.toNat_inj,UInt64.toNat_ofNat',Nat.mod_eq_of_lt hi]

theorem total_congr {amount' : A → ℕ} {table table' : UInt64 → A} {n : ℕ} (hn : n ≤ 2^64)
    (h : ∀ id, 1 ≤ id.toNat → id.toNat < n → amount (table id) = amount' (table' id)) :
    total amount table n = total amount' table' n := by
  apply Finset.sum_congr rfl
  intro i hi
  obtain ⟨hlow,hhigh⟩ := Finset.mem_Ico.mp hi
  have hid : (UInt64.ofNat i).toNat = i := by
    rw [UInt64.toNat_ofNat',Nat.mod_eq_of_lt (by omega)]
  exact h _ (by omega) (by omega)

theorem total_write (table : UInt64 → A) {n : ℕ} (hn : n ≤ 2^64) {id : UInt64} (a : A)
    (hlow : 1 ≤ id.toNat) (hhigh : id.toNat < n) :
    total amount (Function.update table id a) n+amount (table id) =
      total amount table n+amount a := by
  have hmem : id.toNat ∈ Finset.Ico 1 n := Finset.mem_Ico.mpr ⟨hlow,hhigh⟩
  have hother : ∀ i ∈ (Finset.Ico 1 n).erase id.toNat,
      amount (Function.update table id a (UInt64.ofNat i)) = amount (table (UInt64.ofNat i)) := by
    intro i hi
    obtain ⟨hne,hi⟩ := Finset.mem_erase.mp hi
    have hlt := (Finset.mem_Ico.mp hi).2
    rw [Function.update_of_ne (fun h => hne ((ofNat_inj (by omega)).mp h))]
  unfold total
  rw [← Finset.add_sum_erase _ _ hmem,← Finset.add_sum_erase _ _ hmem,
    Finset.sum_congr rfl hother]
  simp only [UInt64.ofNat_toNat,Function.update_self]
  omega

/-- Writing the first unused record and taking it into use adds its amount. -/
theorem total_push (table : UInt64 → A) {id : UInt64} (a : A) (hlow : 1 ≤ id.toNat) :
    total amount (Function.update table id a) (id.toNat+1) =
      total amount table id.toNat+amount a := by
  have hlt := id.toNat_lt
  have hold : total amount (Function.update table id a) id.toNat = total amount table id.toNat := by
    apply total_congr amount (by omega)
    intro i _ hi
    rw [Function.update_of_ne (fun h => by rw [h] at hi; omega)]
  rw [total,Finset.sum_Ico_succ_top hlow]
  simp only [UInt64.ofNat_toNat,Function.update_self]
  rw [← hold,total]

theorem le_total (table : UInt64 → A) {n : ℕ} {id : UInt64} (hlow : 1 ≤ id.toNat)
    (hhigh : id.toNat < n) : amount (table id) ≤ total amount table n := by
  have h := Finset.single_le_sum (fun i _ => Nat.zero_le (amount (table (UInt64.ofNat i))))
    (Finset.mem_Ico.mpr ⟨hlow,hhigh⟩)
  rwa [UInt64.ofNat_toNat] at h

theorem total_eq_zero {table : UInt64 → A} {n : ℕ} (hn : n ≤ 2^64) :
    total amount table n = 0 ↔ ∀ id, 1 ≤ id.toNat → id.toNat < n → amount (table id) = 0 := by
  constructor
  · intro h id hlow hhigh
    have := le_total amount table hlow hhigh
    omega
  · intro h
    rw [@total_congr _ amount (fun _ => 0) _ table _ hn h]
    exact Finset.sum_const_zero

theorem total_le (h : ∀ a, amount a ≤ 1) (table : UInt64 → A) (n : ℕ) :
    total amount table n ≤ n-1 := by
  have := Finset.sum_le_card_nsmul (Finset.Ico 1 n)
    (fun i => amount (table (UInt64.ofNat i))) 1 (fun i _ => h _)
  simpa [total] using this

/-- An amount of one for certain records counts them. -/
theorem total_indicator (p : A → Prop) [DecidablePred p] (table : UInt64 → A) (n : ℕ) :
    total (fun a => if p a then 1 else 0) table n =
      ((Finset.Ico 1 n).filter fun i => p (table (UInt64.ofNat i))).card :=
  (Finset.card_filter _ _).symm

end TownCrier.Ledger
