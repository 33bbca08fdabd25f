import TownCrier.Application
import TownCrier.Linked

/-!
# What Application pays out

TownCrier gives ether back for a request when it is cancelled or answered with an
error, and Application passes it on to the user. While TownCrier has a request of
Application open, both have the same fee on record and nothing was paid out for
it. What TownCrier gives back on closing it is what Application may pay, as long
as the charge of TownCrier is not above the constant in Application.
-/
namespace TownCrier.Application
open BigEndian CallMachine Evm Linked

/-- A callback names `response`, or runs another function on whatever it decodes. -/
def client (keccak : Bytes → Bytes32) (self : Address) :
    Client Storage Event Purpose Kont Function where
  start := start
  resume := resume
  fallback := .fallback
  dispatch fid d f :=
    if fid = TC_CALLBACK_FID keccak then f = .response d.requestId d.error d.respData
    else ∀ requestId error respData, f ≠ .response requestId error respData
  asks
    | _, .tcRequest requestType requestData =>
        .request requestType self (TC_CALLBACK_FID keccak) 0 requestData
    | _, .tcCancel requestId => .cancel requestId
    | _, _ => .fallback

abbrev Joint := Linked.World Storage Event Purpose
abbrev JointCall := Contract.Call ⊕ Linked.Call Function

/-- Both contracts, before anyone has called them. -/
def initial (A : Addresses) (owner : Address) (balance : ℕ) (creator : Address) (capital : ℕ) :
    Joint :=
  (Contract.constructor owner balance,constructor creator A.townCrier capital)

/-- The request for which TownCrier gives ether back in this place. -/
def returned : Contract.Purpose → Option UInt64
  | .cancelRefund requestId => some requestId
  | .errorRefund d => some d.requestId
  | _ => none

/-- The request for which Application pays in this place. -/
def repaid : Purpose → Option UInt64
  | .errorRefund requestId | .cancelRefund requestId => some requestId
  | _ => none

/-- What TownCrier has sent to Application for a request. -/
def given (A : Addresses) (t : Contract.World) (requestId : UInt64) : ℕ :=
  wei (fun x => x.recipient = A.client ∧ returned x.purpose = some requestId) t.sent

/-- What Application has paid out for a request. -/
def paidOut (a : World) (requestId : UInt64) : ℕ :=
  wei (fun x => repaid x.purpose = some requestId) a.sent

theorem given_mono {A : Addresses} {t t' : Contract.World} (h : t.sent <+: t'.sent)
    (j : UInt64) : given A t j ≤ given A t' j := wei_mono _ h

section Simp
variable (a : World) (j : UInt64)

@[simp] theorem paidOut_set (s : Storage) : paidOut (a.set s) j = paidOut a j := rfl
@[simp] theorem paidOut_emit (e : Event) : paidOut (a.emit e) j = paidOut a j := rfl
@[simp] theorem paidOut_credit (v : UInt256) : paidOut (a.credit v) j = paidOut a j := rfl

@[simp] theorem paidOut_pay (r : Address) (v : UInt256) (p : Purpose) :
    paidOut (a.pay r v p) j = paidOut a j+if repaid p = some j then v.toNat else 0 := by
  rw [paidOut,Account.sent_pay,wei_paid]
  simp [paidOut]

@[simp] theorem paidOut_keep (r : Address) (v : UInt256) (p : Purpose) :
    paidOut (a.keep r v p) j = paidOut a j := wei_kept _ _ _ _ _

end Simp

/-- An open request has the same fee in both contracts, and nothing was paid out. -/
structure Sustained (A : Addresses) (w : Joint) : Prop where
  tcContract : w.2.storage.tcContract = A.townCrier
  numbered : Contract.Numbered w.1
  versioned : Contract.Versioned w.1
  paid : ∀ j, paidOut w.2 j ≤ given A w.1 j
  blank : ∀ j, w.2.storage.fee j = 0 → paidOut w.2 j = 0
  known : ∀ j, w.2.storage.fee j ≠ 0 → TC_FEE ≤ w.2.storage.fee j ∧ Contract.Used w.1 j ∧
    (w.1.storage.requests j).requester = A.client
  opened : ∀ j, (w.1.storage.requests j).requester = A.client →
    2 ≤ (w.1.storage.requests j).fee →
      w.2.storage.fee j = (w.1.storage.requests j).fee ∧ paidOut w.2 j = 0

/-- The request is closed, and its fee can still be paid out. -/
def Returned (A : Addresses) (j : UInt64) (w : Joint) : Prop :=
  (w.2.storage.fee j).toNat+paidOut w.2 j ≤ given A w.1 j ∧
    (w.2.storage.fee j ≠ 0 → (w.1.storage.requests j).fee = Contract.DELIVERED_FEE_FLAG)

/-- A number is given away once, an open request of Application is refunded in full
after an error, and only such a request is cancelled, for a charge that is not
above the one which Application keeps. -/
def Fair (A : Addresses) : JointCall → Joint → Prop
  | .inl c, w => Contract.Counted w.1 c ∧
      match c with
      | .message m (.deliver requestId paramsHash error respData) =>
          Contract.Answering w.1 ⟨m.sender,requestId,paramsHash,error,respData⟩ →
            (w.1.storage.requests requestId).requester = A.client → ¬error < 2 →
              (w.1.storage.requests requestId).fee.toNat ≤ w.1.balance
      | .message m (.cancel requestId) =>
          m.sender = A.client → w.1.storage.externalCallFlag = false →
            w.1.storage.killswitch = false →
            (w.1.storage.requests requestId).requester = A.client →
            w.1.storage.cancellationFee ≤ (w.1.storage.requests requestId).fee →
              2 ≤ (w.1.storage.requests requestId).fee ∧
                w.1.storage.cancellationFee ≤ CANCELLATION_FEE
      | _ => True
  | .inr _, _ => True

section Frames
variable {A : Addresses} {t t' : Contract.World} {a b : World}

/-- TownCrier has moved on, and opened no request of Application. -/
theorem Sustained.town (h : Sustained A (t,a)) (hnumbered : Contract.Numbered t')
    (hversioned : Contract.Versioned t') (hassigned : Contract.Assigned t t')
    (hsent : t.sent <+: t'.sent)
    (hopen : ∀ j, (t'.storage.requests j).requester = A.client →
      2 ≤ (t'.storage.requests j).fee →
        t'.storage.requests j = t.storage.requests j) : Sustained A (t',a) where
  tcContract := h.tcContract
  numbered := hnumbered
  versioned := hversioned
  paid j := (h.paid j).trans (given_mono hsent j)
  blank := h.blank
  known j hj := by
    obtain ⟨hfee,hused,hrequester⟩ := h.known j hj
    obtain ⟨hused',hrequester'⟩ := hassigned j hused
    exact ⟨hfee,hused',hrequester'.trans hrequester⟩
  opened j hrequester hfee := by
    have hsame := hopen j hrequester hfee
    rw [hsame] at hrequester hfee ⊢
    exact h.opened j hrequester hfee

/-- Application has moved money and logged, and paid nothing out. -/
theorem Sustained.quiet (h : Sustained A (t,a)) (htc : b.storage.tcContract = a.storage.tcContract)
    (hfee : b.storage.fee = a.storage.fee) (hpaid : ∀ j, paidOut b j = paidOut a j) :
    Sustained A (t,b) where
  tcContract := htc.trans h.tcContract
  numbered := h.numbered
  versioned := h.versioned
  paid j := (hpaid j).trans_le (h.paid j)
  blank j hj := (hpaid j).trans (h.blank j (hfee ▸ hj))
  known j hj := by
    rw [hfee] at hj ⊢
    exact h.known j hj
  opened j hrequester hopen := by
    rw [hfee,hpaid]
    exact h.opened j hrequester hopen

end Frames

/-- A payment, and not a call of TownCrier. -/
def Payment : Purpose → Prop
  | .tcRequest _ _ | .tcCancel _ => False
  | _ => True

/-- What is left after a payment. -/
def AfterPayment : Kont → Prop
  | .tcRequest _ _ | .tcCancel _ _ => False
  | _ => True

/-- TownCrier was called with what came for it. Every other handover is a payment,
and the state to which its failure returns is in order as well. -/
def held (A : Addresses) : Msg → Function → Joint → Kont → Joint → Joint → Prop
  | _, _, e, .tcRequest m _, _, h => Sustained A h ∧ Contract.Assigned e.1 h.1 ∧
      TC_FEE ≤ m.value ∧ ∃ requestType requestData, h.2.sent.getLast? =
        some ⟨A.townCrier,m.value,.tcRequest requestType requestData,true⟩
  | _, _, e, .tcCancel _ requestId, _, h => Sustained A h ∧ Contract.Assigned e.1 h.1 ∧
      h.2.sent.getLast? = some ⟨A.townCrier,0,.tcCancel requestId,true⟩
  | _, _, e, _, s, h => (Sustained A s ∧ Contract.Assigned e.1 s.1) ∧
      (Sustained A h ∧ Contract.Assigned e.1 h.1) ∧
        ∀ x, h.2.sent.getLast? = some x → Payment x.purpose

def refunds (A : Addresses) : Promise Storage Event Purpose Kont Function where
  inv := Sustained A
  rel w w' := Contract.Assigned w.1 w'.1
  ready d w := ¬d.error < 2 → Returned A d.requestId w
  pre m f w := Sustained A w ∧ ∀ j error respData, f = .response j error respData →
    m.sender = A.townCrier → ¬error < 2 → Returned A j w
  held := held A

theorem ne_zero_of_two_le {v : UInt256} (h : 2 ≤ v) : v ≠ 0 := by
  rintro rfl
  exact absurd h (by decide)

/-- The calls of others leave an open request as it is. -/
theorem opened_before {keccak : Bytes → Bytes32} {t t' : Contract.World} {c : Contract.Call}
    {r : Address} {j : UInt64} (h : Contract.Effect keccak t c t')
    (hc : sender? (.inl c : JointCall) ≠ some r) (hrequester : (t'.storage.requests j).requester = r)
    (hfee : 2 ≤ (t'.storage.requests j).fee) : t'.storage.requests j = t.storage.requests j := by
  have hset : ∀ {id fee}, ¬(2 : UInt256) ≤ fee →
      Contract.Same (t.set (t.storage.setFee id fee)) t' →
        t'.storage.requests j = t.storage.requests j := by
    intro id fee hlow hsame
    rw [hsame.requests] at hfee ⊢
    by_cases hj : j = id
    · subst hj
      simp only [Account.storage_set,Contract.setFee_requests,Function.update_self] at hfee
      exact absurd hfee hlow
    · exact Function.update_of_ne hj _ _
  cases h with
  | same h => rw [h.requests]
  | @recorded m _ _ _ _ _ _ _ _ _ h =>
      rw [h.requests] at hrequester ⊢
      by_cases hj : j = t.storage.requestCnt
      · subst hj
        have hsender : m.sender = r := by simpa [Contract.record] using hrequester
        exact absurd (congrArg some hsender) hc
      · exact Function.update_of_ne hj _ _
  | cancelled _ _ _ _ _ h => exact hset (by decide) h
  | delivered _ h => exact hset (by decide) h

section Pieces
variable {keccak : Bytes → Bytes32} {A : Addresses} {m : Msg} {f : Function} {e : Joint}
variable {t : Contract.World} {a : World}

/-- TownCrier runs for others. -/
theorem sustained_advance {c : Contract.Call} {t' : Contract.World}
    (hc : sender? (.inl c : JointCall) ≠ some A.client) (hok : Contract.Counted t c)
    (hadvance : Contract.Advance keccak t c t') (h : Sustained A (t,a)) :
    Sustained A (t',a) ∧ Contract.Assigned t t' := by
  obtain ⟨hnumbered,hassigned⟩ := hadvance.effect.numbered hok h.numbered
  exact ⟨h.town hnumbered (hadvance.newVersion h.versioned) hassigned hadvance.sent
    fun j => opened_before hadvance.effect hc,hassigned⟩

theorem sustained_same {t' : Contract.World} (hsame : Contract.Same t t')
    (hsent : t.sent <+: t'.sent) (hversion : Contract.Versioned t → Contract.Versioned t')
    (h : Sustained A (t,a)) : Sustained A (t',a) ∧ Contract.Assigned t t' :=
  ⟨h.town (hsame.numbered h.numbered) (hversion h.versioned) hsame.assigned hsent
    fun j _ _ => by rw [hsame.requests],hsame.assigned⟩

theorem resume_payment {k : Kont} (hk : AfterPayment k) (answer : Option ℤ) (a : World) :
    resume k answer a = .revert ∨ ∃ ev, resume k answer a = .done () (a.emit ev) := by
  cases k with
  | tcRequest => cases hk
  | tcCancel => cases hk
  | errorRefund => exact .inr ⟨_,rfl⟩
  | underpaidRefund | failedRefund | cancelRefund =>
      cases answer with
      | none => exact .inl rfl
      | some n => exact .inr ⟨_,rfl⟩

theorem payment_piece {k : Kont} (hk : AfterPayment k) (answer : Option ℤ)
    (h : Sustained A (t,a) ∧ Contract.Assigned e.1 t) :
    (refunds A).Piece m f e t (resume k answer a) := by
  rcases resume_payment hk answer a with heq | ⟨ev,heq⟩
  · rw [heq]
    trivial
  · rw [heq]
    exact ⟨h.1.quiet rfl rfl fun _ => rfl,h.2⟩

theorem payment_call {k : Kont} {r : Address} {v : UInt256} {p : Purpose} {b : World}
    (hk : AfterPayment k) (hp : Payment p) (hassigned : Contract.Assigned e.1 t)
    (hsaved : Sustained A (t,b.keep r v p)) (hhandover : Sustained A (t,b.pay r v p)) :
    (refunds A).Piece m f e t (.call (b.keep r v p) (b.pay r v p) k) := by
  have hlast : ∀ x, (b.pay r v p).sent.getLast? = some x → Payment x.purpose := by
    intro x hx
    obtain rfl := Account.eq_of_last_pay hx
    exact hp
  cases k with
  | tcRequest => cases hk
  | tcCancel => cases hk
  | underpaidRefund | failedRefund | errorRefund | cancelRefund =>
      exact ⟨⟨hsaved,hassigned⟩,⟨hhandover,hassigned⟩,hlast⟩

theorem held_cases {e s h : Joint} {k : Kont} (hheld : held A m f e k s h) :
    (∃ m data, k = .tcRequest m data ∧ Sustained A h ∧ Contract.Assigned e.1 h.1 ∧
      TC_FEE ≤ m.value ∧ ∃ requestType requestData, h.2.sent.getLast? =
        some ⟨A.townCrier,m.value,.tcRequest requestType requestData,true⟩) ∨
    (∃ m j, k = .tcCancel m j ∧ Sustained A h ∧ Contract.Assigned e.1 h.1 ∧
      h.2.sent.getLast? = some ⟨A.townCrier,0,.tcCancel j,true⟩) ∨
    AfterPayment k ∧ (Sustained A s ∧ Contract.Assigned e.1 s.1) ∧
      (Sustained A h ∧ Contract.Assigned e.1 h.1) ∧
        ∀ x, h.2.sent.getLast? = some x → Payment x.purpose := by
  cases k with
  | tcRequest m data => exact .inl ⟨m,data,rfl,hheld⟩
  | tcCancel m j => exact .inr (.inl ⟨m,j,rfl,hheld⟩)
  | underpaidRefund | failedRefund | errorRefund | cancelRefund =>
      exact .inr (.inr ⟨trivial,hheld⟩)

/-- A request that TownCrier has refused. -/
theorem refused_piece {n : ℤ} {requestData : List Bytes32} {m₀ : Msg}
    (h : Sustained A (t,a)) (hassigned : Contract.Assigned e.1 t) (hn : n ≤ 0 ∨ ¬n < 2^64) :
    (refunds A).Piece m f e t (afterTcRequest m₀ requestData (some n) a) := by
  unfold afterTcRequest Account.callOut
  dsimp only
  split_ifs with hneg hfunds hwide
  · exact payment_call trivial trivial hassigned (h.quiet rfl rfl fun _ => by simp)
      (h.quiet rfl rfl fun _ => by simp [repaid])
  · trivial
  · trivial
  · exact absurd (not_le.mp hwide) (hn.resolve_left hneg)

/-- The user of a request that TownCrier has just recorded. -/
theorem Sustained.record (h : Sustained A (t,a)) {m₀ : Msg} {j : UInt64} {t' : Contract.World}
    (hnumbered : Contract.Numbered t') (hversioned : Contract.Versioned t')
    (hassigned : Contract.Assigned t t') (hsent : t.sent <+: t'.sent)
    (hfresh : ¬Contract.Used t j) (hused : Contract.Used t' j)
    (hself : (t'.storage.requests j).requester = A.client ∧
      (t'.storage.requests j).fee = m₀.value)
    (hother : ∀ i, i ≠ j → t'.storage.requests i = t.storage.requests i)
    (hvalue : TC_FEE ≤ m₀.value) : Sustained A (t',record m₀ j a) := by
  have hblank : a.storage.fee j = 0 := by
    by_contra hne
    exact hfresh (h.known j hne).2.1
  have hnew : (Application.record m₀ j a).storage.fee j = m₀.value := Function.update_self _ _ _
  have hold : ∀ i, i ≠ j → (Application.record m₀ j a).storage.fee i = a.storage.fee i :=
    fun i hi => Function.update_of_ne hi _ _
  refine ⟨h.tcContract,hnumbered,hversioned,fun i => (h.paid i).trans (given_mono hsent i),
    fun i hi => ?_,fun i hi => ?_,fun i hrequester hopen => ?_⟩
  · by_cases hij : i = j
    · subst hij
      exact h.blank i hblank
    · exact h.blank i ((hold i hij).symm.trans hi)
  · by_cases hij : i = j
    · subst hij
      exact ⟨hnew.symm ▸ hvalue,hused,hself.1⟩
    · dsimp only at hi ⊢
      rw [hold i hij] at hi ⊢
      obtain ⟨hfee,hused',hrequester⟩ := h.known i hi
      obtain ⟨hused',hrequester'⟩ := hassigned i hused'
      exact ⟨hfee,hused',hrequester'.trans hrequester⟩
  · by_cases hij : i = j
    · subst hij
      exact ⟨hnew.trans hself.2.symm,h.blank i hblank⟩
    · dsimp only at hrequester hopen ⊢
      rw [hother i hij] at hrequester hopen ⊢
      rw [hold i hij]
      exact h.opened i hrequester hopen

/-- What becomes of a request that was passed on to TownCrier. -/
theorem asked_request {h : Joint} {m₀ m' : Msg} {requestType : UInt8}
    {data requestData : List Bytes32} {r : Option ℤ} {v : UInt256} {t' : Contract.World}
    (hh : Sustained A h) (hassigned : Contract.Assigned e.1 h.1) (hvalue : TC_FEE ≤ m₀.value)
    (hsender : m'.sender = A.client) (hvalue' : m'.value = m₀.value)
    (hok : Contract.Counted h.1 (.message m'
      (.request requestType A.client (TC_CALLBACK_FID keccak) 0 requestData)))
    (hserved : Served keccak (.message m'
      (.request requestType A.client (TC_CALLBACK_FID keccak) 0 requestData)) h.1 r v t') :
    (refunds A).Piece m f e t'
      (afterTcRequest m₀ data (some (r.getD 0)) (h.2.credit v)) := by
  obtain ⟨t,a⟩ := h
  rcases served_request hserved with ⟨hsame,hsent,hnew,-,hr⟩ | ⟨hflag,hkill,hmin,rfl,rfl,rfl⟩
  · obtain ⟨hnext,hassigned'⟩ := sustained_same hsame hsent (fun h => h.of_eq hnew) hh
    refine refused_piece (hnext.quiet rfl rfl fun _ => rfl) (hassigned.trans hassigned') ?_
    rcases hr with rfl | rfl
    · exact .inl hh.versioned
    · exact .inr (by decide)
  · have hcnt := hok hflag hkill hmin
    set j := t.storage.requestCnt
    set t' := (Contract.record keccak m' requestType A.client (TC_CALLBACK_FID keccak) 0
      requestData (t.credit m'.value)).2
    have hnext : Contract.Numbered t' ∧ Contract.Used t' j ∧ Contract.Assigned t t' :=
      Contract.numbered_record hh.numbered hcnt
    obtain ⟨hnumbered,hused,hassigned'⟩ := hnext
    have hself : t'.storage.requests j = ⟨m'.sender,m'.value,A.client,TC_CALLBACK_FID keccak,_⟩ :=
      Function.update_self _ _ _
    have hrecord : Sustained A (t',record m₀ j a) := by
      refine hh.record hnumbered (hh.versioned.of_eq rfl) hassigned' List.prefix_rfl
        (Contract.fresh_unused hcnt) hused ?_ (fun i hi => Function.update_of_ne hi _ _) hvalue
      rw [hself]
      exact ⟨hsender,hvalue'⟩
    rw [Option.getD_some,Account.credit_zero]
    unfold afterTcRequest
    dsimp only
    have hpos : 0 < j.toNat := Nat.pos_of_ne_zero fun h => hcnt (UInt64.toNat_inj.mp h)
    have hlt := j.toNat_lt
    rw [if_neg (by omega),if_neg (by exact_mod_cast not_le.mpr hlt),ofInt_toNat]
    exact ⟨hrecord.quiet rfl rfl fun _ => rfl,hassigned.trans hassigned'⟩

/-- A payment for a request that is closed, with what TownCrier gave for it. -/
theorem Sustained.pay (h : Sustained A (t,a)) {r : Address} {v : UInt256} {p : Purpose} {j : UInt64}
    (hp : repaid p = some j) (hle : paidOut a j+v.toNat ≤ given A t j)
    (hblank : a.storage.fee j = 0 → v = 0)
    (hclosed : (t.storage.requests j).requester = A.client →
      ¬2 ≤ (t.storage.requests j).fee) : Sustained A (t,a.pay r v p) := by
  have hself : paidOut (a.pay r v p) j = paidOut a j+v.toNat := by simp [hp]
  have hother : ∀ i, i ≠ j → paidOut (a.pay r v p) i = paidOut a i := by
    intro i hi
    simp [hp,hi.symm]
  refine ⟨h.tcContract,h.numbered,h.versioned,fun i => ?_,fun i hi => ?_,h.known,
    fun i hrequester hopen => ?_⟩
  · by_cases hij : i = j
    · subst hij
      exact hself.trans_le hle
    · exact (hother i hij).trans_le (h.paid i)
  · by_cases hij : i = j
    · subst hij
      rw [hself,h.blank i hi,hblank hi]
      rfl
    · exact (hother i hij).trans (h.blank i hi)
  · have hij : i ≠ j := by
      rintro rfl
      exact hclosed hrequester hopen
    rw [hother i hij]
    exact h.opened i hrequester hopen

/-- What becomes of a cancellation that was passed on to TownCrier. -/
theorem asked_cancel {h : Joint} {m₀ m' : Msg} {j : UInt64} {r : Option ℤ} {v : UInt256}
    {t' : Contract.World} (hh : Sustained A h) (hassigned : Contract.Assigned e.1 h.1)
    (hsender : m'.sender = A.client) (hok : Fair A (.inl (.message m' (.cancel j))) h)
    (hserved : Served keccak (.message m' (.cancel j)) h.1 r v t') :
    (refunds A).Piece m f e t' (afterTcCancel m₀ j (some (r.getD 0)) (h.2.credit v)) := by
  obtain ⟨t,a⟩ := h
  unfold afterTcCancel
  dsimp only
  rcases served_cancel hserved with ⟨hsame,hsent,hnew,-,hr⟩ |
    ⟨-,hflag,hkill,hrequester,hcharge,rfl,rfl,hnew,hsame,hsent⟩
  · have hanswer : ¬r.getD 0 = 1 := by
      cases r with
      | none => decide
      | some n => exact fun h => hr (congrArg some h)
    obtain ⟨hnext,hassigned'⟩ := sustained_same hsame (by rw [hsent]) (fun h => h.of_eq hnew) hh
    rw [if_neg hanswer]
    exact ⟨hnext.quiet rfl rfl fun _ => rfl,hassigned.trans hassigned'⟩
  · rw [hsender] at hrequester hsent
    obtain ⟨hopen,hcheap⟩ := hok.2 hsender hflag hkill hrequester hcharge
    obtain ⟨hfee,hpaid⟩ := hh.opened j hrequester hopen
    have hknown : TC_FEE ≤ a.storage.fee j := by
      refine (hh.known j ?_).1
      rw [hfee]
      exact ne_zero_of_two_le hopen
    have hmark : Contract.Numbered (t.set (t.storage.setFee j Contract.CANCELLED_FEE_FLAG)) ∧
        Contract.Assigned t (t.set (t.storage.setFee j Contract.CANCELLED_FEE_FLAG)) :=
      Contract.numbered_setFee hh.numbered
    have hassigned' : Contract.Assigned t t' := hmark.2.trans hsame.assigned
    have hcancelled : (t'.storage.requests j).fee = Contract.CANCELLED_FEE_FLAG := by
      rw [hsame.requests]
      simp
    have hlow : ¬2 ≤ (t'.storage.requests j).fee := by
      rw [hcancelled]
      decide
    have htown : Sustained A (t',a) := by
      refine hh.town (hsame.numbered hmark.1) (hh.versioned.of_eq hnew) hassigned' ?_
        fun i _ hi => ?_
      · rw [hsent]
        exact List.prefix_append _ _
      · rw [hsame.requests]
        refine Function.update_of_ne ?_ _ _
        rintro rfl
        exact hlow hi
    have hreset : Sustained A (t',setRequester j 0
        (a.credit ((t.storage.requests j).fee-t.storage.cancellationFee))) :=
      htown.quiet rfl rfl fun _ => rfl
    have hgiven : given A t' j = given A t j+
        ((t.storage.requests j).fee-t.storage.cancellationFee).toNat := by
      rw [given,hsent,wei_paid]
      simp [returned,given]
    have hle : (a.storage.fee j-CANCELLATION_FEE).toNat ≤
        ((t.storage.requests j).fee-t.storage.cancellationFee).toNat := by
      have hconstant : CANCELLATION_FEE ≤ TC_FEE := by decide
      rw [hfee] at hknown ⊢
      rw [BitVec.toNat_sub_of_le (BitVec.le_trans hconstant hknown),BitVec.toNat_sub_of_le hcharge]
      exact Nat.sub_le_sub_left (BitVec.le_def.mp hcheap) _
    have hsuccess : (some Contract.SUCCESS_FLAG).getD 0 = 1 := rfl
    rw [if_pos hsuccess]
    unfold Account.callOut
    split_ifs with hfunds
    · refine payment_call trivial trivial (hassigned.trans hassigned')
        (hreset.quiet rfl rfl fun _ => by simp) (hreset.pay rfl ?_ (fun h0 => ?_) fun _ => hlow)
      · change paidOut a j+_ ≤ _
        rw [hpaid,hgiven,Nat.zero_add]
        exact hle.trans (Nat.le_add_left _ _)
      · change a.storage.fee j = 0 at h0
        rw [h0] at hknown
        exact absurd hknown (by decide)
    · trivial

theorem request_piece (h : Sustained A (t,a)) (requestType : UInt8) (requestData : List Bytes32) :
    (refunds A).Piece m f (t,a) t (request m requestType requestData a) := by
  unfold request Account.callOut
  dsimp only
  have hcredit : Sustained A (t,a.credit m.value) := h.quiet rfl rfl fun _ => rfl
  have hfunds : m.value.toNat ≤ (a.credit m.value).balance := Nat.le_add_left _ _
  rw [if_pos hfunds,if_pos hfunds]
  split_ifs with hvalue
  · exact payment_call trivial trivial (.refl t) (hcredit.quiet rfl rfl fun _ => by simp)
      (hcredit.quiet rfl rfl fun _ => by simp [repaid])
  · refine ⟨hcredit.quiet rfl rfl fun _ => by simp [repaid],.refl t,BitVec.not_lt.mp hvalue,
      requestType,requestData,?_⟩
    rw [Account.getLast?_sent_pay,Account.storage_credit,h.tcContract]

theorem cancel_piece (h : Sustained A (t,a)) (j : UInt64) :
    (refunds A).Piece m f (t,a) t (cancel m j a) := by
  unfold cancel Account.callOut
  split_ifs with hguard hfunds
  · exact ⟨h.quiet rfl rfl fun _ => rfl,.refl t⟩
  · refine ⟨h.quiet rfl rfl fun _ => by simp [repaid],.refl t,?_⟩
    rw [Account.getLast?_sent_pay,h.tcContract]
  · exact absurd (Nat.zero_le _) hfunds

/-- An answer of TownCrier to a request that it has closed. -/
theorem response_piece (h : Sustained A (t,a)) {j error : UInt64} {respData : Bytes32}
    (hready : m.sender = A.townCrier → ¬error < 2 → Returned A j (t,a)) :
    (refunds A).Piece m f (t,a) t (response m j error respData a) := by
  have hreset : Sustained A (t,setRequester j 0 a) := h.quiet rfl rfl fun _ => rfl
  unfold response
  dsimp only
  split_ifs with hsender herror
  · exact ⟨h.quiet rfl rfl fun _ => rfl,.refl t⟩
  · exact ⟨hreset.quiet rfl rfl fun _ => rfl,.refl t⟩
  · obtain ⟨hle,hclosed⟩ := hready ((not_not.mp hsender).trans h.tcContract) herror
    unfold Account.callOut
    split_ifs with hfunds
    · refine payment_call trivial trivial (.refl t) (hreset.quiet rfl rfl fun _ => by simp)
        (hreset.pay rfl ?_ (fun h => h) fun hrequester hopen => ?_)
      · rw [Nat.add_comm]
        exact hle
      · have hfee := (h.opened j hrequester hopen).1
        have hdelivered := hclosed (hfee ▸ ne_zero_of_two_le hopen)
        exact ne_zero_of_two_le hopen hdelivered
    · exact ⟨hreset.quiet rfl rfl fun _ => by simp,.refl t⟩

/-- Nothing is paid out for a request without a fee. -/
theorem Sustained.returned (h : Sustained A (t,a)) {j : UInt64} (t' : Contract.World)
    (hfee : a.storage.fee j = 0) : Returned A j (t',a) := by
  refine ⟨?_,fun hne => absurd hfee hne⟩
  dsimp only
  rw [hfee,h.blank j hfee]
  exact Nat.zero_le _

theorem Sustained.foreign (h : Sustained A (t,a)) {j : UInt64}
    (hr : (t.storage.requests j).requester ≠ A.client) : a.storage.fee j = 0 := by
  by_contra hne
  exact hr (h.known j hne).2.2

theorem two_le_answering {d : Contract.Delivery} (h : Contract.Answering t d) :
    2 ≤ (t.storage.requests d.requestId).fee := by
  have hdelivered := h.delivered
  have hcancelled := h.cancelled
  simp only [Contract.DELIVERED_FEE_FLAG,Contract.CANCELLED_FEE_FLAG] at hdelivered hcancelled
  bv_omega

theorem refunds_sound : (refunds A).Sound keccak A (client keccak A.client) (Fair A) where
  fallback := fun _ _ => rfl
  refl := fun w => .refl w.1
  trans := fun h h' => h.trans h'
  credit := fun w _ _ h => ⟨h.quiet rfl rfl fun _ => rfl,.refl w⟩
  same := fun _ _ _ hsame hsent hversion h => sustained_same hsame hsent hversion h
  advance := fun _ _ _ _ hc hok hadvance h => sustained_advance hc hok.1 hadvance h
  answered := by
    intro m d w a w' hd hfunds h hok _ _ herror
    by_cases hr : (w.storage.requests d.requestId).requester = A.client
    · have hle := hok.2 ⟨hd.requestId,hd.requester,hd.delivered,hd.cancelled⟩ hr herror
      exact absurd hle (hfunds.resolve_left herror)
    · exact h.returned w' (h.foreign hr)
  refunded := by
    intro m d w a w' sent hd _ hr h _ _ hclosed _ hsent _
    obtain ⟨hfee,hpaid⟩ := h.opened d.requestId hr (two_le_answering hd)
    refine ⟨?_,fun _ => hclosed⟩
    change (a.storage.fee d.requestId).toNat+paidOut a d.requestId ≤ given A w' d.requestId
    rw [hpaid,hfee,given,hsent,wei_paid]
    simp [returned]
  foreign := by
    intro d w w' hid hrequester hother h h' hrel _
    have hsame := (hrel d.requestId (h.numbered d.requestId hid hrequester)).2
    exact h'.returned w'.1 (h'.foreign (hsame.trans_ne hother))
  ready_same := by
    intro d w a w' hsame hsent hready herror
    obtain ⟨hle,hclosed⟩ := hready herror
    refine ⟨hle.trans (given_mono hsent _),fun hne => ?_⟩
    rw [hsame.requests]
    exact hclosed hne
  entry := fun _ _ _ _ hforeign h _ =>
    ⟨h,fun _ _ _ _ hsender => absurd hsender (hforeign _ rfl).1⟩
  callback := by
    rintro m fid d f w - hdispatch - - h hready
    refine ⟨h,fun j error respData hf _ => ?_⟩
    change if _ then _ else _ at hdispatch
    split_ifs at hdispatch
    · rw [hdispatch] at hf
      cases hf
      exact hready
    · exact absurd hf (hdispatch j error respData)
  start := by
    rintro m f ⟨t,a⟩ hf ⟨h,hready⟩ -
    cases f with
    | fallback => exact absurd rfl hf
    | TC_CONTRACT => exact Promise.piece_nonPayable ⟨h,.refl t⟩
    | request requestType requestData => exact request_piece h requestType requestData
    | response j error respData =>
        exact Promise.piece_nonPayable (response_piece h (hready j error respData rfl))
    | cancel j => exact Promise.piece_nonPayable (cancel_piece h j)
  failed := by
    intro m f e k s h hheld
    rcases held_cases hheld with ⟨m₀,data,rfl,-⟩ | ⟨m₀,j,rfl,-⟩ | ⟨hk,hs,-⟩
    · trivial
    · trivial
    · exact payment_piece hk none hs
  asked := by
    intro m f e k s h x m' hheld hx harrives
    rcases held_cases hheld with ⟨m₀,data,rfl,hh,hassigned,hvalue,requestType,requestData,hlast⟩ |
      ⟨m₀,j,rfl,hh,hassigned,hlast⟩ | ⟨hk,-,hh,hpayment⟩
    · cases hlast.symm.trans hx
      exact ⟨trivial,fun r v t' hok hserved =>
        asked_request hh hassigned hvalue harrives.sender harrives.value hok.1 hserved⟩
    · cases hlast.symm.trans hx
      exact ⟨trivial,fun r v t' hok hserved =>
        asked_cancel hh hassigned harrives.sender hok hserved⟩
    · have hasks : (client keccak A.client).asks h.2 x.purpose = .fallback := by
        have hp := hpayment x hx
        cases hpurpose : x.purpose with
        | tcRequest | tcCancel =>
            rw [hpurpose] at hp
            cases hp
        | _ => rfl
      rw [hasks]
      refine ⟨trivial,fun r v t' _ hserved => ?_⟩
      obtain ⟨rfl,rfl⟩ := served_fallback hserved
      exact payment_piece hk _ hh
  other := by
    intro m f e k s h x hheld hx hr
    rcases held_cases hheld with ⟨m₀,data,rfl,-,-,-,requestType,requestData,hlast⟩ |
      ⟨m₀,j,rfl,-,-,hlast⟩ | ⟨hk,-,hh,-⟩
    · cases hlast.symm.trans hx
      exact absurd rfl hr
    · cases hlast.symm.trans hx
      exact absurd rfl hr
    · exact ⟨hh.1,fun n w hw hrel => payment_piece hk (some n) ⟨hw,hh.2.trans hrel⟩⟩

theorem sustained_initial (A : Addresses) (owner : Address) (balance : ℕ) (creator : Address)
    (capital : ℕ) : Sustained A (initial A owner balance creator capital) where
  tcContract := rfl
  numbered := Contract.numbered_constructor owner balance
  versioned := le_rfl
  paid _ := le_rfl
  blank _ _ := rfl
  known _ hj := absurd rfl hj
  opened j _ hfee := by
    refine absurd ?_ (ne_zero_of_two_le hfee)
    by_cases hj : j = 0
    · subst hj
      rfl
    · simp [initial,Contract.constructor,Function.update_of_ne hj]

/-- In a fair run Application pays out no more for a request than TownCrier has
given it for this request. -/
theorem paid_within_given (keccak : Bytes → Bytes32) (A : Addresses) (owner : Address)
    (balance : ℕ) (creator : Address) (capital : ℕ) (w : Joint)
    (h : (system keccak A (client keccak A.client)).Seen (Fair A)
      (initial A owner balance creator capital) (.other w)) (j : UInt64) :
    paidOut w.2 j ≤ given A w.1 j := by
  have hsound : ((refunds A).spec keccak A (client keccak A.client)).Sound _ (Fair A) :=
    Promise.sound refunds_sound
  exact (hsound.seen (sustained_initial A owner balance creator capital) h).paid j

end Pieces

section Sample

theorem pair_start (m : Msg) (f : Function) (t : Contract.World) (a : World) :
    (pair client).start (.inr (.message m f)) (t,a) = ofClient t (start m f a) := rfl

theorem pair_ask (c : Contract.Call) (t : Contract.World) (a : World) :
    (pair client).start (.inl c) (t,a) = ofTownCrier a (Contract.start constantHash c t) := rfl

theorem pair_resume (k : Kont) (answer : Option (Option ℤ)) (t : Contract.World) (a : World) :
    (pair client).resume (.inr k) answer (t,a) = ofClient t (resume k (answer.map (·.getD 0)) a) := rfl

variable {ok : JointCall → Joint → Prop} (gas : UInt256)

/-- The owner sets the gas of a cancellation. -/
def resetCall : Contract.Call := .message ⟨5,0,1,0,0⟩ (.reset GAS_PRICE 30000 gas)

def charged : Contract.World :=
  ((Contract.constructor 5 0).set {(Contract.constructor 5 0).storage with
    gasPrice := GAS_PRICE, minFee := GAS_PRICE*30000, cancellationFee := GAS_PRICE*gas}).emit
      (.reset GAS_PRICE (GAS_PRICE*30000) (GAS_PRICE*gas))

theorem start_reset : Contract.start constantHash (resetCall gas) (Contract.constructor 5 0) =
    .done none (charged gas) := rfl

def funded : World := constructor 1 2 1000000000000000000

/-- A user asks for something, and TownCrier takes the request. -/
def user : Msg := ⟨7,TC_FEE,1,0,0⟩

def asking : World := (funded.credit TC_FEE).pay 2 TC_FEE (.tcRequest 1 [5])

def askedCall : Contract.Call :=
  .message ⟨9,TC_FEE,1,0,0⟩ (.request 1 9 (TC_CALLBACK_FID constantHash) 0 [5])

def accepted : Contract.World :=
  (Contract.record constantHash ⟨9,TC_FEE,1,0,0⟩ 1 9 (TC_CALLBACK_FID constantHash) 0 [5]
    ((charged gas).credit TC_FEE)).2

def requested : World := (record user 1 asking).emit (.request 1 7 1 [5])

theorem start_asked : Contract.start constantHash askedCall (charged gas) =
    .done (some 1) (accepted gas) := by
  change Contract.request constantHash ⟨9,TC_FEE,1,0,0⟩ 1 9 (TC_CALLBACK_FID constantHash) 0 [5]
    (charged gas) = _
  unfold Contract.request
  dsimp only
  have hfee : ¬TC_FEE < ((charged gas).credit TC_FEE).storage.minFee := by
    change ¬TC_FEE < GAS_PRICE*30000
    decide
  rw [if_neg (by exact Bool.false_ne_true),if_neg (by exact Bool.false_ne_true),if_neg hfee]
  rfl

theorem request_funded : request user 1 [5] funded =
    .call ((funded.credit TC_FEE).keep 2 TC_FEE (.tcRequest 1 [5])) asking
      (.tcRequest user [5]) := by
  unfold request Account.callOut
  dsimp only
  have hfunds : user.value.toNat ≤ (funded.credit user.value).balance := Nat.le_add_left _ _
  rw [if_neg (by decide),if_pos hfunds]
  rfl

theorem afterTcRequest_asking : afterTcRequest user [5] (some 1) asking = .done () requested := by
  unfold afterTcRequest
  dsimp only
  rw [if_neg (by decide),if_neg (by decide)]
  rfl

theorem exec_request (hok : ok (.inl askedCall) (charged gas,asking)) :
    (pair client).Exec ok (.code (charged gas,funded)
      ((pair client).start (.inr (.message user (.request 1 [5]))) (charged gas,funded))) (some none)
        (accepted gas,requested) := by
  have hstart : (pair client).start (.inr (.message user (.request 1 [5]))) (charged gas,funded) =
      .call (charged gas,(funded.credit TC_FEE).keep 2 TC_FEE (.tcRequest 1 [5]))
        (charged gas,asking) (.inr (.tcRequest user [5])) := by
    rw [pair_start,start,request_funded]
    rfl
  have hlast : asking.sent.getLast? = some ⟨2,TC_FEE,.tcRequest 1 [5],true⟩ := by
    rw [asking,Account.getLast?_sent_pay]
  have hcallee : (pair client).callee (.inr (.tcRequest user [5])) (charged gas,asking)
      (.inl askedCall) := ⟨_,hlast,⟨rfl,rfl,rfl⟩,rfl⟩
  have hcall : (pair client).Exec ok (.code (charged gas,asking)
      ((pair client).start (.inl askedCall) (charged gas,asking))) (some (some 1))
        (accepted gas,asking) := by
    rw [pair_ask,start_asked]
    exact .done
  have hrest : (pair client).Exec ok (.code (charged gas,funded)
      ((pair client).resume (.inr (.tcRequest user [5])) (some (some 1)) (accepted gas,asking)))
        (some none) (accepted gas,requested) := by
    rw [pair_resume,resume]
    change (pair client).Exec ok (.code _ (ofClient _ (afterTcRequest user [5] (some 1) asking))) _ _
    rw [afterTcRequest_asking]
    exact .done
  rw [hstart]
  exact .resumed (.inner hcallee hok hcall) hrest

/-- The user cancels, TownCrier gives back what is left after its charge, and
Application pays what is left after the constant. -/
def canceller : Msg := ⟨7,0,1,0,0⟩

def cancelling : World := requested.pay 2 0 (.tcCancel 1)

def cancelCall : Contract.Call := .message ⟨9,0,1,0,0⟩ (.cancel 1)

def marked : Contract.World :=
  Contract.setFlag ((accepted gas).set ((accepted gas).storage.setFee 1 1)) true

def refunded : Contract.World :=
  (marked gas).pay 9 (TC_FEE-GAS_PRICE*gas) (.cancelRefund 1)

def cancelled : Contract.World :=
  (Contract.setFlag (refunded gas) false).emit (.cancel 1 9 9 1 1)

def closed : World := setRequester 1 0 (cancelling.credit (TC_FEE-GAS_PRICE*gas))

def repaidUser : World := (closed gas).pay 7 (TC_FEE-CANCELLATION_FEE) (.cancelRefund 1)

def finished : World := (repaidUser gas).emit (.cancel 1 7 true)

theorem start_cancel (hgas : GAS_PRICE*gas ≤ TC_FEE) :
    Contract.start constantHash cancelCall (accepted gas) = .call
      ((marked gas).keep 9 (TC_FEE-GAS_PRICE*gas) (.cancelRefund 1)) (refunded gas)
      (.cancelRefund ⟨9,0,1,0,0⟩ 1) := by
  have hflag : (accepted gas).storage.externalCallFlag = false := rfl
  have hkill : (accepted gas).storage.killswitch = false := rfl
  have hopen : ((accepted gas).storage.requests 1).requester = 9 ∧
      (accepted gas).storage.cancellationFee ≤ ((accepted gas).storage.requests 1).fee :=
    ⟨rfl,hgas⟩
  have hfunds : (TC_FEE-GAS_PRICE*gas).toNat ≤ (accepted gas).balance := by
    rw [BitVec.toNat_sub_of_le hgas]
    change _ ≤ 0+TC_FEE.toNat
    omega
  change nonPayable _ (Contract.cancel ⟨9,0,1,0,0⟩ 1 (accepted gas)) = _
  unfold nonPayable Contract.cancel Account.callOut
  dsimp only
  rw [if_pos rfl,hflag,if_neg (by decide),hkill,if_neg (by decide),if_pos hopen]
  exact if_pos hfunds

theorem afterTcCancel_refunded :
    afterTcCancel canceller 1 (some 1) (cancelling.credit (TC_FEE-GAS_PRICE*gas)) = .call
      ((closed gas).keep 7 (TC_FEE-CANCELLATION_FEE) (.cancelRefund 1)) (repaidUser gas)
      (.cancelRefund canceller 1) := by
  have hfunds : (TC_FEE-CANCELLATION_FEE).toNat ≤ (closed gas).balance := by
    have hcapital : (TC_FEE-CANCELLATION_FEE).toNat ≤ 1000000000000000000 := by decide
    have hbalance : (closed gas).balance =
        1000000000000000000+TC_FEE.toNat-TC_FEE.toNat-0+(TC_FEE-GAS_PRICE*gas).toNat := rfl
    omega
  unfold afterTcCancel Account.callOut
  dsimp only
  rw [if_pos rfl]
  exact if_pos hfunds

theorem exec_cancel (hgas : GAS_PRICE*gas ≤ TC_FEE)
    (hcancel : ok (.inl cancelCall) (accepted gas,cancelling))
    (hfallback : ∀ m w, ok (.inr (.message m .fallback)) w) :
    (pair client).Exec ok (.code (accepted gas,requested)
      ((pair client).start (.inr (.message canceller (.cancel 1))) (accepted gas,requested))) (some none)
        (cancelled gas,finished gas) := by
  have hstart : (pair client).start (.inr (.message canceller (.cancel 1))) (accepted gas,requested) =
      .call (accepted gas,requested.keep 2 0 (.tcCancel 1)) (accepted gas,cancelling)
        (.inr (.tcCancel canceller 1)) := by
    have howner : ¬((1 : UInt64) = 0 ∨ requested.storage.requesters 1 ≠ canceller.sender) := by
      rintro (h | h)
      · exact absurd h (by decide)
      · exact h rfl
    have hfunds : (0 : UInt256).toNat ≤ requested.balance := Nat.zero_le _
    rw [pair_start,start,nonPayable,if_pos (show canceller.value = 0 from rfl),cancel,if_neg howner,Account.callOut,
      if_pos hfunds]
    rfl
  have hcallee : (pair client).callee (.inr (.tcCancel canceller 1)) (accepted gas,cancelling)
      (.inl cancelCall) := by
    refine ⟨⟨2,0,.tcCancel 1,true⟩,?_,⟨rfl,rfl,rfl⟩,rfl⟩
    rw [cancelling,Account.getLast?_sent_pay]
  have hback : (pair client).callee (.inl (.cancelRefund ⟨9,0,1,0,0⟩ 1)) (refunded gas,cancelling)
      (.inr (.message ⟨2,TC_FEE-GAS_PRICE*gas,1,0,0⟩ .fallback)) := by
    refine ⟨⟨9,TC_FEE-GAS_PRICE*gas,.cancelRefund 1,true⟩,?_,⟨rfl,rfl,rfl⟩,rfl⟩
    rw [refunded,Account.getLast?_sent_pay]
  have hcall : (pair client).Exec ok (.code (accepted gas,cancelling)
      ((pair client).start (.inl cancelCall) (accepted gas,cancelling))) (some (some 1))
        (cancelled gas,cancelling.credit (TC_FEE-GAS_PRICE*gas)) := by
    rw [pair_ask,start_cancel gas hgas]
    exact .resumed (.inner hback (hfallback _ _) .done) .done
  have hout : (pair client).outside (.inr (.cancelRefund canceller 1)) (cancelled gas,repaidUser gas) := by
    refine ⟨⟨7,TC_FEE-CANCELLATION_FEE,.cancelRefund 1,true⟩,?_,by decide,by decide⟩
    rw [repaidUser,Account.getLast?_sent_pay]
  have hrest : (pair client).Exec ok (.code (accepted gas,requested)
      ((pair client).resume (.inr (.tcCancel canceller 1)) (some (some 1))
        (cancelled gas,cancelling.credit (TC_FEE-GAS_PRICE*gas)))) (some none)
          (cancelled gas,finished gas) := by
    have hresume : (pair client).resume (.inr (.tcCancel canceller 1)) (some (some 1))
        (cancelled gas,cancelling.credit (TC_FEE-GAS_PRICE*gas)) =
        ofClient (cancelled gas) (afterTcCancel canceller 1 (some 1)
          (cancelling.credit (TC_FEE-GAS_PRICE*gas))) := pair_resume _ _ _ _
    rw [hresume,afterTcCancel_refunded]
    exact .resumed (.outer hout (.idle (a := some none))) .done
  rw [hstart]
  exact .resumed (.inner hcallee hcancel hcall) hrest

/-- The owner resets the charges, a user asks for something and cancels it. -/
theorem seen_finished (hgas : GAS_PRICE*gas ≤ TC_FEE) (hexternal : ∀ c w, ok (.inr c) w)
    (hreset : ok (.inl (resetCall gas)) (Contract.constructor 5 0,funded))
    (hasked : ok (.inl askedCall) (charged gas,asking))
    (hcancel : ok (.inl cancelCall) (accepted gas,cancelling)) :
    (pair client).Seen ok (initial places 5 0 1 1000000000000000000)
      (.other (cancelled gas,finished gas)) := by
  have hforeign : ∀ {c : JointCall} {sender}, sender? c = some sender →
      sender ≠ places.townCrier ∧ sender ≠ places.client → (pair client).transaction c := by
    intro c sender hc hs sender' hc'
    cases hc.symm.trans hc'
    exact hs
  have h₁ : (pair client).Run ok (initial places 5 0 1 1000000000000000000) (charged gas,funded) := by
    have hexec : (pair client).Exec ok (.code (Contract.constructor 5 0,funded)
        ((pair client).start (.inl (resetCall gas)) (Contract.constructor 5 0,funded))) (some none)
          (charged gas,funded) := by
      rw [pair_ask,start_reset]
      exact .done
    exact System.Run.start.step (hforeign rfl (by decide)) hreset hexec
  have h₂ := h₁.step (hforeign rfl (by decide)) (hexternal _ _) (exec_request gas hasked)
  have h₃ := h₂.step (hforeign rfl (by decide)) (hexternal _ _)
    (exec_cancel gas hgas hcancel fun _ _ => hexternal _ _)
  exact .between h₃

theorem paidOut_finished : paidOut (finished gas) 1 = (TC_FEE-CANCELLATION_FEE).toNat := by
  have hsent : (closed gas).sent = [⟨2,TC_FEE,.tcRequest 1 [5],true⟩,⟨2,0,.tcCancel 1,true⟩] :=
    rfl
  have hzero : paidOut (closed gas) 1 = 0 := by
    rw [paidOut,hsent]
    rfl
  have hrepaid : repaid (.cancelRefund 1) = some 1 := rfl
  rw [finished,paidOut_emit,repaidUser,paidOut_pay,hzero,if_pos hrepaid]
  exact Nat.zero_add _

theorem sent_cancelled :
    (cancelled gas).sent = []++[⟨9,TC_FEE-GAS_PRICE*gas,.cancelRefund 1,true⟩] := by
  have hsent : (marked gas).sent = [] := rfl
  rw [cancelled,Account.sent_emit,Contract.setFlag,Account.sent_set,refunded,
    Account.sent_pay,hsent]

theorem given_cancelled : given places (cancelled gas) 1 = (TC_FEE-GAS_PRICE*gas).toNat := by
  have hback : (9 : Address) = places.client ∧ returned (.cancelRefund 1) = some 1 := ⟨rfl,rfl⟩
  rw [given,sent_cancelled,wei_paid,if_pos (decide_eq_true hback)]
  exact Nat.zero_add _

theorem paid_within_given_cancelled :
    paidOut (finished 25000) 1 ≤ given places (cancelled 25000) 1 :=
  paid_within_given constantHash places 5 0 1 1000000000000000000 _
    (seen_finished 25000 (by decide) (fun _ _ => trivial) ⟨trivial,trivial⟩
      ⟨fun _ _ _ => by decide,trivial⟩ ⟨trivial,fun _ _ _ _ _ => ⟨by decide,by decide⟩⟩) 1

/-- The charge of TownCrier is above the constant, and Application makes up for it. -/
theorem paid_above_given : ∃ w, (pair client).Seen (fun _ _ => True)
    (initial places 5 0 1 1000000000000000000) (.other w) ∧ given places w.1 1 < paidOut w.2 1 := by
  refine ⟨_,seen_finished 40000 (by decide) (fun _ _ => trivial) trivial trivial trivial,?_⟩
  rw [paidOut_finished,given_cancelled]
  decide

end Sample

end TownCrier.Application
