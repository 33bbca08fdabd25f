import TownCrier.PutOption
import TownCrier.CallTree

/-!
# What a sold option is backed with

The differences and products of the option are words. The refund of `buy` is the
true difference, and leaves the largest payout and the fee of the oracle in the
contract, exactly if both are there before it. As long as the oracle has settled
nothing, the deposit is there at every sale, so the terms of the option decide.
-/
namespace TownCrier.PutOption
open CallMachine Evm PutOptions

/-- The largest payout and the fee of the oracle. -/
def exposure (n strikePrice : UInt256) : ℕ := n.toNat*strikePrice.toNat+TC_FEE.toNat

theorem refund_toNat {n s r : UInt256} {b : ℕ} (hb : b < 2^256) (h : n.toNat*s.toNat+r.toNat ≤ b) :
    (BitVec.ofNat 256 b-n*s-r).toNat = b-(n.toNat*s.toNat+r.toNat) := by
  have hmul : (n*s).toNat = n.toNat*s.toNat := by
    rw [BitVec.toNat_mul,Nat.mod_eq_of_lt (by omega)]
  have hfirst : n*s ≤ BitVec.ofNat 256 b := by
    rw [BitVec.le_def,hmul,BitVec.toNat_ofNat,Nat.mod_eq_of_lt hb]
    omega
  have hdiff : (BitVec.ofNat 256 b-n*s).toNat = b-n.toNat*s.toNat := by
    rw [BitVec.toNat_sub_of_le hfirst,hmul,BitVec.toNat_ofNat,Nat.mod_eq_of_lt hb]
  have hsecond : r ≤ BitVec.ofNat 256 b-n*s := by
    rw [BitVec.le_def,hdiff]
    omega
  rw [BitVec.toNat_sub_of_le hsecond,hdiff,Nat.sub_sub]

/-- The contract after a sale, before the refund. -/
def sold (m : Msg) (n : UInt256) (w : World) : World :=
  (w.credit m.value).set {w.storage with buyer := m.sender, units := n}

def issuerRefund (m : Msg) (n : UInt256) (w : World) : UInt256 :=
  BitVec.ofNat 256 (w.balance+m.value.toNat)-n*w.storage.STRIKE_PRICE-TC_FEE

/-- When a sale is accepted, and what it does. -/
theorem buy_done {m : Msg} {n : UInt256} {accepts : Purpose → Bool} {w w' : World}
    (h : start (.message m (.buy n) accepts) w = .done () w') :
    (w.storage.cancelled = false ∧ w.storage.buyer = 0 ∧ n ≤ w.storage.MAX_UNITS ∧
      n*w.storage.UNIT_PRICE = m.value) ∧
    w' = if issuerRefund m n w > 0 then
      send accepts w.storage.ISSUER (issuerRefund m n w) .issuerRefund (sold m n w)
      else sold m n w := by
  change PutOptions.buy TC_FEE .issuerRefund accepts m n (w.credit m.value) = _ at h
  unfold PutOptions.buy at h
  split_ifs at h with hguard
  · simp only [not_or,Bool.not_eq_true,not_not,BitVec.not_lt] at hguard
    exact ⟨⟨hguard.1,hguard.2.2.1,hguard.2.2.2.1,hguard.2.2.2.2⟩,by
      rw [← (Outcome.done.inj h).2]; rfl⟩

theorem buy_cases (m : Msg) (n : UInt256) (accepts : Purpose → Bool) (w : World) :
    start (.message m (.buy n) accepts) w = .revert ∨
      ∃ w', start (.message m (.buy n) accepts) w = .done () w' := by
  change PutOptions.buy TC_FEE .issuerRefund accepts m n (w.credit m.value) = _ ∨
    ∃ w', PutOptions.buy TC_FEE .issuerRefund accepts m n (w.credit m.value) = _
  unfold PutOptions.buy
  split_ifs
  · exact .inl rfl
  · exact .inr ⟨_,rfl⟩

/-- The calls that leave a sold option as it is. -/
def Function.untouching : Function → Prop
  | .put | .settle _ _ | .recover => False
  | _ => True

def Untouched (_ : Config World Kont) (a : Action Call Unit) (_ : Config World Kont) : Prop :=
  ∀ m f accepts, a = .call (.message m f accepts) → f.untouching

/-- Until `put`, `settle` or `recover` is called, the ether only grows. -/
theorem kept_floor (floor : ℕ) (base : List (Frame World Kont)) :
    Kept (code.restrict fun c _ => ∀ m f accepts, c = .message m f accepts → f.untouching)
      (fun w => w.storage.buyer ≠ 0 ∧ floor ≤ w.balance) (fun _ => True) base where
  start c w _ hw := by
    simp only [Code.restrict]
    split_ifs with hc
    case neg => trivial
    cases c with
    | forced value => exact ⟨hw.1,hw.2.trans (Nat.le_add_right _ _)⟩
    | message m f accepts =>
        have hf := hc m f accepts rfl
        cases f with
        | view => exact ⟨hw.1,hw.2.trans (Nat.le_add_right _ _)⟩
        | buy n =>
            have hrevert : start (.message m (.buy n) accepts) w = .revert :=
              if_pos (.inr (.inr (.inl hw.1)))
            change (start (.message m (.buy n) accepts) w).All _ _
            rw [hrevert]
            trivial
        | put => exact hf.elim
        | settle requestId priceBytes => exact hf.elim
        | recover => exact hf.elim
  resume k answer w _ hw := by
    cases answer with
    | none => trivial
    | some _ => exact hw

/-- What a call has sent, or tried to. -/
def refunded (w w' : World) : ℕ := ((w'.sent.drop w.sent.length).map fun t => t.value.toNat).sum

/-- What the claims on a sold option are covered by, from the sale on: the refund
is the true difference, and the exposure stays in the contract. -/
structure Collateralised (w w' : World) (stack : List (Frame World Kont)) (m : Msg) (n : UInt256) :
    Prop where
  refund : refunded w w'+exposure n w.storage.STRIKE_PRICE = w.balance+m.value.toNat
  covered : ∀ s, During code Untouched ⟨w',stack⟩ s →
    exposure n w.storage.STRIKE_PRICE ≤ s.world.balance

/-- A sale is covered if and only if the exposure is there before the refund. -/
theorem collateralised_iff {w w' : World} {m : Msg} {n : UInt256} {accepts : Purpose → Bool}
    (stack : List (Frame World Kont)) (hsender : m.sender ≠ 0)
    (hether : w.balance+m.value.toNat < 2^256)
    (hsale : start (.message m (.buy n) accepts) w = .done () w') :
    Collateralised w w' stack m n ↔
      exposure n w.storage.STRIKE_PRICE ≤ w.balance+m.value.toNat := by
  obtain ⟨-,hw'⟩ := buy_done hsale
  have hsold : (sold m n w).balance = w.balance+m.value.toNat := rfl
  constructor
  · intro h
    refine (h.covered _ .start).trans ?_
    rw [hw']
    split_ifs
    · have hsend := balance_send accepts w.storage.ISSUER (issuerRefund m n w) .issuerRefund
        (sold m n w)
      dsimp only
      omega
    · exact hsold.le
  · intro h
    have hrefund : (issuerRefund m n w).toNat =
        w.balance+m.value.toNat-exposure n w.storage.STRIKE_PRICE := refund_toNat hether h
    refine ⟨?_,fun s hs => ?_⟩
    · have hsum : refunded w w' = (issuerRefund m n w).toNat := by
        rw [refunded,hw']
        split_ifs with hpos
        · unfold send
          split_ifs <;> simp [sold]
        · have hzero : (issuerRefund m n w).toNat = 0 := by
            simpa [BitVec.lt_def] using hpos
          simp [sold,hzero]
      rw [hsum,hrefund]
      omega
    · have hfloor : w'.storage.buyer ≠ 0 ∧ exposure n w.storage.STRIKE_PRICE ≤ w'.balance := by
        rw [hw']
        split_ifs
        · refine ⟨?_,?_⟩
          · rw [storage_send]
            exact hsender
          · rcases balance_send accepts w.storage.ISSUER (issuerRefund m n w) .issuerRefund
              (sold m n w) with hkept | hpaid
            · rw [hkept]
              exact h
            · rw [hpaid,hrefund,hsold]
              omega
        · exact ⟨hsender,h⟩
      have habove := (kept_floor (exposure n w.storage.STRIKE_PRICE) stack).during hfloor
        (During.restrict (fun _ c _ ha m f accepts hc => ha m f accepts (congrArg _ hc)) hs)
      exact habove.1.2

/-- What a call does to the storage. -/
inductive Change (w : World) : Call → Storage → Prop
  | same {c} : Change w c w.storage
  | sold {m n accepts} (hcancelled : w.storage.cancelled = false) (hbuyer : w.storage.buyer = 0)
      (hunits : n ≤ w.storage.MAX_UNITS) (hprice : n*w.storage.UNIT_PRICE = m.value) :
      Change w (.message m (.buy n) accepts) {w.storage with buyer := m.sender, units := n}
  | put {m accepts} (hbuyer : m.sender = w.storage.buyer) (htime : m.timestamp < w.storage.EXPR_DATE) :
      Change w (.message m .put accepts) {w.storage with optionPut := true}
  | cancelled {m accepts} (hissuer : m.sender = w.storage.ISSUER) :
      Change w (.message m .recover accepts) {w.storage with cancelled := true}

theorem change_start (c : Call) (w : World) :
    (start c w).All (fun w' => Change w c w'.storage) fun _ => True := by
  cases c with
  | forced value => exact .same
  | message m f accepts =>
      cases f with
      | view => exact .same
      | buy n =>
          obtain hbuy | ⟨w',hbuy⟩ := buy_cases m n accepts w
          · rw [hbuy]
            trivial
          · obtain ⟨⟨hcancelled,hbuyer,hunits,hprice⟩,hw'⟩ := buy_done hbuy
            rw [hbuy,hw']
            have hstorage : Change w (.message m (.buy n) accepts) (sold m n w).storage :=
              .sold hcancelled hbuyer hunits hprice
            split_ifs
            · rw [Outcome.All,storage_send]
              exact hstorage
            · exact hstorage
      | put =>
          change (put m (w.credit m.value)).All _ _
          unfold put
          split_ifs with hguard
          · trivial
          · simp only [not_or,not_not,BitVec.not_le] at hguard
            have hput : Change w (.message m .put accepts) {w.storage with optionPut := true} :=
              .put hguard.1 hguard.2.1
            exact Account.all_callOut _ hput hput trivial trivial
      | settle requestId priceBytes =>
          change (settle accepts m requestId priceBytes (w.credit m.value)).All _ _
          unfold settle
          dsimp only
          split_ifs
          · trivial
          · simp only [Outcome.All,storage_send,Account.storage_emit,Account.storage_credit]
            exact .same
          · simp only [Outcome.All,storage_send,Account.storage_emit,Account.storage_credit]
            exact .same
      | recover =>
          change (PutOptions.recover .recovery accepts m (w.credit m.value)).All _ _
          unfold PutOptions.recover
          split_ifs with hguard
          · trivial
          · simp only [Outcome.All,storage_send]
            exact .cancelled (not_not.mp (not_or.mp hguard).1)

/-- The prices and the number of units stay as they were written. -/
def Agreed (t : Terms) (w : World) : Prop :=
  w.storage.UNIT_PRICE = t.unitPrice ∧ w.storage.MAX_UNITS = t.maxUnits ∧
    w.storage.STRIKE_PRICE = t.strikePrice

theorem Change.agreed {t : Terms} {w w' : World} {c : Call} (h : Change w c w'.storage)
    (hw : Agreed t w) : Agreed t w' := by
  unfold Agreed at hw ⊢
  generalize w'.storage = s at h
  cases h <;> exact hw

theorem kept_agreed (t : Terms) (base : List (Frame World Kont)) :
    Kept code (Agreed t) (fun _ => True) base where
  start c w _ hw := (change_start c w).mono (fun _ h => h.agreed hw) fun _ h => h
  resume k answer w _ hw := by
    cases answer with
    | none => trivial
    | some _ => exact hw

theorem agreed_constructor {m : Msg} {tcContract : Address} {t : Terms} {balance : ℕ} {w : World}
    (h : constructor m tcContract t balance = some w) : Agreed t w := by
  unfold constructor PutOptions.constructor at h
  split_ifs at h
  cases h
  exact ⟨rfl,rfl,rfl⟩

section Contract
variable {m₀ m : Msg} {tcContract : Address} {t : Terms} {balance : ℕ} {w₀ w' : World}
variable {s : Config World Kont} {n : UInt256} {accepts : Purpose → Bool}

/-- Nobody calls from the address that stands for no buyer, and where the oracle
settles the issuer refuses what is left. -/
def Unsettled (s : Config World Kont) (a : Action Call Unit) (_ : Config World Kont) : Prop :=
  ∀ m f accepts, a = .call (.message m f accepts) → m.sender ≠ 0 ∧ ∀ id p, f = .settle id p →
    m.sender = TC_CONTRACT s.world → accepts (.remainder id p) = false

/-- As long as the option is for sale no units are sold, and the first payment stays
in the contract. -/
def Stocked (floor : ℕ) (w : World) : Prop :=
  w.storage.buyer = 0 → w.storage.units = 0 ∧ (w.storage.cancelled = false → floor ≤ w.balance)

theorem Stocked.more {floor : ℕ} {w w' : World} (h : Stocked floor w)
    (hstorage : w'.storage = w.storage) (hbalance : w.balance ≤ w'.balance) : Stocked floor w' := by
  intro hbuyer
  rw [hstorage] at hbuyer ⊢
  exact ⟨(h hbuyer).1,fun hcancelled => ((h hbuyer).2 hcancelled).trans hbalance⟩

theorem Stocked.sold {floor : ℕ} {w : World} (h : w.storage.buyer ≠ 0) : Stocked floor w :=
  fun hbuyer => absurd hbuyer h

/-- A settlement of nothing which leaves the rest where it is. -/
theorem Stocked.settle {floor : ℕ} {accepts : Purpose → Bool} {m : Msg} {id : UInt64} {p : Bytes32}
    {w : World} (h : Stocked floor w) (haccepts : accepts (.remainder id p) = false) :
    (settle accepts m id p w).All (Stocked floor) fun _ => True := by
  have hkept (r : Address) (v : UInt256) (w : World) :
      send accepts r v (.remainder id p) w = w.keep r v (.remainder id p) := by
    unfold send
    rw [haccepts]
    rfl
  have hfree (q : Purpose) (w : World) : (send accepts w.storage.buyer 0#256 q w).balance = w.balance := by
    rcases balance_send accepts w.storage.buyer 0#256 q w with hsend | hsend <;> exact hsend
  unfold PutOption.settle
  split_ifs
  · trivial
  · by_cases hbuyer : w.storage.buyer = 0
    · have hvalue : (w.storage.STRIKE_PRICE-p)*w.storage.units = 0 := by
        rw [(h hbuyer).1]
        exact BitVec.mul_zero
      refine h.more ?_ ?_
      · split_ifs <;> simp [hkept,storage_send]
      · split_ifs
        · simp [hkept,hvalue,hfree]
        · simp [hkept]
    · refine Stocked.sold ?_
      split_ifs <;> simpa [hkept,storage_send] using hbuyer

theorem kept_stocked (floor : ℕ) (base : List (Frame World Kont)) :
    Kept (code.restrict fun c w => ∀ m f accepts, c = .message m f accepts →
      m.sender ≠ 0 ∧ ∀ id p, f = .settle id p → m.sender = TC_CONTRACT w →
        accepts (.remainder id p) = false) (Stocked floor) (fun _ => True) base where
  start c w _ hw := by
    simp only [Code.restrict]
    split_ifs with hc
    case neg => trivial
    have hcredit (v : UInt256) : Stocked floor (w.credit v) := hw.more rfl (Nat.le_add_right _ _)
    cases c with
    | forced value => exact hcredit value
    | message m f accepts =>
        obtain ⟨hsender,hf⟩ := hc m f accepts rfl
        cases f with
        | view => exact hcredit m.value
        | buy n =>
            change (start (.message m (.buy n) accepts) w).All _ _
            obtain hbuy | ⟨w',hbuy⟩ := buy_cases m n accepts w
            · rw [hbuy]
              trivial
            · rw [hbuy]
              have hbuyer : w'.storage.buyer = m.sender := by
                rw [(buy_done hbuy).2]
                split_ifs
                · rw [storage_send]
                  rfl
                · rfl
              refine Stocked.sold ?_
              rw [hbuyer]
              exact hsender
        | put =>
            change (put m (w.credit m.value)).All _ _
            unfold put
            split_ifs with hguard
            · trivial
            · have hbuyer : w.storage.buyer ≠ 0 := by
                have hsame : m.sender = w.storage.buyer := not_not.mp (not_or.mp hguard).1
                rw [← hsame]
                exact hsender
              exact Account.all_callOut _ (Stocked.sold hbuyer) (Stocked.sold hbuyer) trivial trivial
        | settle id p =>
            change (settle accepts m id p (w.credit m.value)).All _ _
            by_cases horacle : m.sender = TC_CONTRACT w
            · exact (hcredit m.value).settle (hf id p rfl horacle)
            · have hrevert : settle accepts m id p (w.credit m.value) = .revert := if_pos horacle
              rw [hrevert]
              trivial
        | recover =>
            change (PutOptions.recover .recovery accepts m (w.credit m.value)).All _ _
            unfold PutOptions.recover
            split_ifs with hguard
            · trivial
            · intro hbuyer
              rw [storage_send] at hbuyer ⊢
              refine ⟨(hcredit m.value hbuyer).1,?_⟩
              intro hopen
              cases hopen
  resume k answer w _ hw := by
    cases answer with
    | none => trivial
    | some _ => exact hw

/-- The deposit makes up for the difference of the prices and for the fee, and for
each time that the payment for the units wraps around. -/
def Backed (t : Terms) (deposit : ℕ) (n : UInt256) : Prop :=
  (n.toNat : ℤ)*(t.strikePrice.toNat-t.unitPrice.toNat)+TC_FEE.toNat+
    2^256*(n.toNat*t.unitPrice.toNat/2^256) ≤ deposit

instance (t : Terms) (deposit : ℕ) (n : UInt256) : Decidable (Backed t deposit n) :=
  inferInstanceAs (Decidable (_ ≤ _))

/-- With the payment there is enough for the exposure. -/
theorem backed_iff (t : Terms) (deposit : ℕ) (n : UInt256) : Backed t deposit n ↔
    exposure n t.strikePrice ≤ deposit+(n*t.unitPrice).toNat := by
  have hpaid : (n*t.unitPrice).toNat = n.toNat*t.unitPrice.toNat%2^256 := BitVec.toNat_mul _ _
  have hsplit := Nat.div_add_mod (n.toNat*t.unitPrice.toNat) (2^256)
  rw [Backed,exposure,hpaid]
  generalize n.toNat*t.unitPrice.toNat%2^256 = paid at hsplit ⊢
  zify at hsplit ⊢
  constructor <;> intro h <;> linarith

/-- The check of the constructor is enough if the strike price is above the unit
price and no product reaches the size of a word. -/
theorem backed_of_check {n : UInt256} (hnew : constructor m₀ tcContract t balance = some w₀)
    (hprice : t.unitPrice ≤ t.strikePrice)
    (hfit : (t.strikePrice.toNat-t.unitPrice.toNat)*t.maxUnits.toNat+TC_FEE.toNat < 2^256)
    (hunits : n ≤ t.maxUnits) (hpay : n.toNat*t.unitPrice.toNat < 2^256) :
    Backed t w₀.balance n := by
  have hfirst : m₀.value.toNat ≤ w₀.balance ∧
      ¬m₀.value < (t.strikePrice-t.unitPrice)*t.maxUnits+TC_FEE := by
    unfold constructor PutOptions.constructor at hnew
    split_ifs at hnew with hguard
    cases hnew
    exact ⟨Nat.le_add_left _ _,hguard⟩
  have hmargin : ((t.strikePrice-t.unitPrice)*t.maxUnits+TC_FEE).toNat =
      (t.strikePrice.toNat-t.unitPrice.toNat)*t.maxUnits.toNat+TC_FEE.toNat := by
    rw [BitVec.toNat_add,BitVec.toNat_mul,BitVec.toNat_sub_of_le hprice,Nat.mod_add_mod,
      Nat.mod_eq_of_lt hfit]
  have hle := BitVec.le_def.mp (BitVec.not_lt.mp hfirst.2)
  rw [hmargin] at hle
  have hmul : (t.strikePrice.toNat-t.unitPrice.toNat)*n.toNat ≤
      (t.strikePrice.toNat-t.unitPrice.toNat)*t.maxUnits.toNat :=
    Nat.mul_le_mul_left _ (BitVec.le_def.mp hunits)
  have hsplit : n.toNat*t.strikePrice.toNat =
      (t.strikePrice.toNat-t.unitPrice.toNat)*n.toNat+n.toNat*t.unitPrice.toNat := by
    rw [Nat.mul_comm _ n.toNat,← Nat.mul_add,Nat.sub_add_cancel (BitVec.le_def.mp hprice)]
  rw [backed_iff,exposure,BitVec.toNat_mul,Nat.mod_eq_of_lt hpay,hsplit]
  omega

/-- A sale before which nothing was settled finds the deposit. -/
theorem exposure_backed (hnew : constructor m₀ tcContract t balance = some w₀)
    (h : Reach code Unsettled w₀ s)
    (hsale : start (.message m (.buy n) accepts) s.world = .done () w')
    (hbacked : Backed t w₀.balance n) :
    exposure n t.strikePrice ≤ s.world.balance+m.value.toNat := by
  have hagreed : Above (Agreed t) (fun _ => True) [] s :=
    (kept_agreed t []).reach (agreed_constructor hnew) h
  obtain ⟨⟨hcancelled,hbuyer,-,hvalue⟩,-⟩ := buy_done hsale
  rw [hagreed.1.1] at hvalue
  have hunits : w₀.storage.units = 0 := by
    unfold constructor PutOptions.constructor at hnew
    split_ifs at hnew
    cases hnew
    rfl
  have hstocked : Above (Stocked w₀.balance) (fun _ => True) [] s :=
    (kept_stocked _ []).reach (fun _ => ⟨hunits,fun _ => le_rfl⟩)
      (h.restrict fun _ c _ ha m f accepts hc => ha m f accepts (congrArg _ hc))
  have hbalance := (hstocked.1 hbuyer).2 hcancelled
  refine ((backed_iff _ _ _).mp hbacked).trans ?_
  rw [hvalue]
  omega

/-- In every run in which nothing is settled before, every sale of so many units is
covered, if and only if the deposit backs them. -/
theorem sale_collateralised_iff (hnew : constructor m₀ tcContract t balance = some w₀)
    (hunits : n ≤ t.maxUnits) (hopen : 0 < t.exprDate)
    (hether : w₀.balance+(n*t.unitPrice).toNat < 2^256) :
    (∀ s m accepts w', Reach code Unsettled w₀ s → m.sender ≠ 0 →
      s.world.balance+m.value.toNat < 2^256 →
      start (.message m (.buy n) accepts) s.world = .done () w' →
        Collateralised s.world w' s.stack m n) ↔ Backed t w₀.balance n := by
  constructor
  · intro h
    have hagreed : Agreed t w₀ := agreed_constructor hnew
    have hfresh : w₀.storage.cancelled = false ∧ w₀.storage.buyer = 0 ∧
        w₀.storage.EXPR_DATE = t.exprDate := by
      unfold constructor PutOptions.constructor at hnew
      split_ifs at hnew
      cases hnew
      exact ⟨rfl,rfl,rfl⟩
    let first : Msg := ⟨1,n*t.unitPrice,1,0,0⟩
    obtain ⟨w',hsale⟩ : ∃ w', start (.message first (.buy n) fun _ => true) w₀ = .done () w' := by
      refine (buy_cases first n (fun _ => true) w₀).resolve_left fun hrevert => ?_
      change PutOptions.buy TC_FEE .issuerRefund _ first n (w₀.credit first.value) = _ at hrevert
      unfold PutOptions.buy at hrevert
      split_ifs at hrevert with hguard
      simp [first,hfresh,hagreed.1,hagreed.2.1,BitVec.not_lt.mpr hunits] at hguard
      exact absurd hopen (by rw [hguard]; exact BitVec.lt_irrefl _)
    have hsender : first.sender ≠ 0 := show (1 : Address) ≠ 0 by decide
    have hcovered := h ⟨w₀,[]⟩ first (fun _ => true) w' .start hsender hether hsale
    rw [collateralised_iff [] hsender hether hsale,hagreed.2.2] at hcovered
    exact (backed_iff _ _ _).mpr hcovered
  · intro hbacked s m accepts w' hs hsender hether hsale
    have hagreed : Above (Agreed t) (fun _ => True) [] s :=
      (kept_agreed t []).reach (agreed_constructor hnew) hs
    rw [collateralised_iff s.stack hsender hether hsale,hagreed.1.2.2]
    exact exposure_backed hnew hs hsale hbacked

end Contract

/-- Ten units at four wei each, for ten wei in the end. -/
def sampleTerms : Terms := ⟨0,4,10,10,5⟩

def sampleSale : Msg := ⟨7,8,1,0,2⟩

theorem sale_collateralised_pair : ∃ w₀ w' : World,
    constructor ⟨9,TC_FEE+60,1,0,1⟩ 3 sampleTerms 0 = some w₀ ∧
      Collateralised w₀ w' [] sampleSale 2 := by
  have hall := (@sale_collateralised_iff ⟨9,TC_FEE+60,1,0,1⟩ 3 sampleTerms 0 _ 2 rfl (by decide)
    (by decide) (by decide)).mpr (@backed_of_check ⟨9,TC_FEE+60,1,0,1⟩ 3 sampleTerms 0 _ 2 rfl
      (by decide) (by decide) (by decide) (by decide))
  exact ⟨_,_,rfl,hall ⟨_,[]⟩ sampleSale (fun _ => true) _ .start (by decide) (by decide)
    (show start (.message sampleSale (.buy 2) fun _ => true) _ = .done () _ from rfl)⟩

/-- A unit price above the strike price: the difference wraps around and cancels
the fee, so that the issuer pays nothing in. -/
def invertedTerms : Terms := ⟨0,101,TC_FEE,100,5⟩

theorem inverted_terms_uncovered : ∃ w₀ w' : World,
    constructor ⟨9,0,1,0,1⟩ 3 invertedTerms 0 = some w₀ ∧
      start (.message ⟨7,101,1,0,2⟩ (.buy 1) fun _ => true) w₀ = .done () w' ∧
        w'.balance = 101 ∧ ¬Collateralised w₀ w' [] ⟨7,101,1,0,2⟩ 1 := by
  refine ⟨_,_,rfl,rfl,by decide,fun h => ?_⟩
  exact absurd (h.covered _ .start) (by decide)

end TownCrier.PutOption
