import TownCrier.Votes
import Mathlib.Algebra.BigOperators.Group.Finset.Basic
import Mathlib.Algebra.Order.BigOperators.Group.Finset

/-!
# What a vote costs

Each counted delivery is paid for out of the fee of its request: two at fixed
prices and the last one with what the fee leaves. The payment which aborts a
vote is no part of that plan, since it closes nothing. In runs without it the
payments stay within the fee, and the balance covers what is left of every fee.
-/
namespace TownCrier.TownCrierVote
open BigEndian CallMachine Evm

/-- The transfer belongs to the request with this identifier and round. -/
def Purpose.on (id : UInt64) (n : ℕ) (p : Purpose) : Bool :=
  p.delivery.requestId = id ∧ p.delivery.round = n

/-- What the deliveries for a request have been promised, in their order. -/
def dues (w : World) (id : UInt64) (n : ℕ) : List UInt256 :=
  (w.sent.filter fun t => t.purpose.on id n && t.purpose.vote.isSome).map (·.value)

/-- The wei that `deliver` has sent on account of a request. -/
def paid (w : World) (id : UInt64) (n : ℕ) : ℕ := wei (fun t => t.purpose.on id n) w.sent

/-- The fee of the request with this identifier and round. -/
def feeOf (w : World) (id : UInt64) (n : ℕ) : ℕ :=
  match n with
  | 0 => 0
  | k+1 => ((asked w id)[k]?.map fun info => info.fee.toNat).getD 0

/-- What is left of the fee. -/
def rest (w : World) (x : UInt64 × ℕ) : ℕ := feeOf w x.1 x.2-paid w x.1 x.2

/-- The prices of the three deliveries that a fee pays for. -/
def prices (fee : UInt256) : List UInt256 :=
  [FIRST_DELIVER_COST,SECOND_DELIVER_COST,fee-(FIRST_DELIVER_COST+SECOND_DELIVER_COST)]

/-- The payments for a request stay within its fee, at most three deliveries are
paid for, and the third closes the request. -/
structure Within (w : World) (id : UInt64) (n : ℕ) : Prop where
  paid : paid w id n ≤ feeOf w id n
  votes : (votes (entries w id) n).length ≤ 3
  closed : (asked w id).length = n → 3 ≤ (TownCrierVote.votes (entries w id) n).length →
    (w.storage.requests id).fee = 0

/-- The balance covers what is left of every fee, and with it the whole fee of
every request for which nothing was delivered. -/
structure Solvent (w : World) : Prop where
  within : ∀ id k, Within w id (k+1)
  covered : ∀ S : Finset (UInt64 × ℕ), ∑ x ∈ S, rest w x ≤ w.balance
  unanswered : ∀ S : Finset (UInt64 × ℕ), (∀ x ∈ S, votes (entries w x.1) x.2 = []) →
    ∑ x ∈ S, feeOf w x.1 x.2 ≤ w.balance

/-- What the payments may be at any time. -/
structure Ledger (w : World) : Prop where
  due : ∀ id k info, (asked w id)[k]? = some info →
    MIN_FEE ≤ info.fee ∧ dues w id (k+1) <+: prices info.fee
  running : ∀ id, (w.storage.requests id).fee ≠ 0 →
    (∃ info, (asked w id).getLast? = some info ∧ (w.storage.requests id).fee = info.fee) ∧
    (w.storage.requests id).responseCnt ≤ 2 ∧
    dues w id (asked w id).length = [FIRST_DELIVER_COST,SECOND_DELIVER_COST].take
      (w.storage.requests id).responseCnt.toNat
  beyond : ∀ id n, (asked w id).length < n → ∀ t ∈ w.sent, ¬t.purpose.on id n
  callbacks : ∀ t ∈ w.sent, t.purpose.vote = none → t.value = 0
  covered : ∀ S : Finset (UInt64 × ℕ), ∑ x ∈ S, rest w x ≤ w.balance

/-- What goes out comes out of one claim, and what comes in founds one. -/
theorem covered_move {K : Type} [DecidableEq K] {f g : K → ℕ} {balance u v : ℕ} (k : K)
    (hf : ∀ S : Finset K, ∑ x ∈ S, f x ≤ balance) (hk : g k+v ≤ f k+u)
    (hne : ∀ x, x ≠ k → g x = f x) (S : Finset K) : ∑ x ∈ S, g x+v ≤ balance+u := by
  have hmem : k ∈ insert k S := Finset.mem_insert_self k S
  have hsub : ∑ x ∈ S, g x ≤ ∑ x ∈ insert k S, g x :=
    Finset.sum_le_sum_of_subset (Finset.subset_insert k S)
  have hsame : ∑ x ∈ (insert k S).erase k, g x = ∑ x ∈ (insert k S).erase k, f x :=
    Finset.sum_congr rfl fun x hx => hne x (Finset.ne_of_mem_erase hx)
  have hsplit := Finset.add_sum_erase (insert k S) f hmem
  have hsplit' := Finset.add_sum_erase (insert k S) g hmem
  have hle := hf (insert k S)
  omega

theorem sum_prices {a b fee : UInt256} (hab : a.toNat+b.toNat = (a+b).toNat) (h : a+b ≤ fee) :
    ([a,b,fee-(a+b)].map BitVec.toNat).sum = fee.toNat := by
  have hnat := BitVec.le_def.mp h
  simp only [List.map_cons,List.map_nil,List.sum_cons,List.sum_nil,BitVec.toNat_sub_of_le h]
  omega

theorem prices_sum {fee : UInt256} (h : MIN_FEE ≤ fee) :
    ((prices fee).map BitVec.toNat).sum = fee.toNat := by
  have hcosts : (FIRST_DELIVER_COST+SECOND_DELIVER_COST : UInt256) ≤ MIN_FEE := by decide
  exact sum_prices (by decide) (BitVec.le_trans hcosts h)

section Worlds
variable {w w' : World}

theorem dues_append {t : Transfer Purpose} (hsent : w'.sent = w.sent++[t]) (id : UInt64) (n : ℕ) :
    dues w' id n = dues w id n++if t.purpose.on id n && t.purpose.vote.isSome then [t.value] else [] := by
  unfold dues
  rw [hsent,List.filter_append,List.map_append]
  by_cases h : (t.purpose.on id n && t.purpose.vote.isSome) = true
  · simp [h]
  · simp [h]

theorem paid_append {t : Transfer Purpose} (hsent : w'.sent = w.sent++[t]) (id : UInt64) (n : ℕ) :
    paid w' id n = paid w id n+if t.success && t.purpose.on id n then t.value.toNat else 0 := by
  unfold paid
  rw [hsent,wei_append]
  by_cases h : (t.success && t.purpose.on id n) = true
  · simp [wei,h]
  · simp [wei,h]

theorem dues_length (w : World) (id : UInt64) (n : ℕ) :
    (dues w id n).length = (votes (entries w id) n).length := by
  unfold dues votes entries
  induction w.sent with
  | nil => rfl
  | cons t rest ih =>
      simp only [List.filter_cons,List.map_cons] at ih ⊢
      by_cases hid : t.purpose.delivery.requestId = id
      · by_cases hn : t.purpose.delivery.round = n
        · rcases hv : t.purpose.vote with _ | d
          · simpa [Purpose.on,hid,hn,hv] using ih
          · simpa [Purpose.on,hid,hn,hv] using ih
        · simpa [Purpose.on,hid,hn] using ih
      · simpa [Purpose.on,hid] using ih

/-- What was sent had been promised. -/
theorem Ledger.paid_le (h : Ledger w) (id : UInt64) (n : ℕ) :
    paid w id n ≤ ((dues w id n).map BitVec.toNat).sum := by
  have hcallbacks := h.callbacks
  unfold paid dues wei
  generalize w.sent = L at hcallbacks
  induction L with
  | nil => exact Nat.le_refl 0
  | cons t rest ih =>
      have hrest := ih fun x hx => hcallbacks x (List.mem_cons_of_mem t hx)
      simp only [List.filter_cons]
      rcases hv : t.purpose.vote with _ | d
      · have hzero : t.value.toNat = 0 := by
          rw [hcallbacks t List.mem_cons_self hv]
          rfl
        split_ifs <;> simp_all
      · split_ifs <;> simp_all
        omega

theorem Ledger.feeOf_le (h : Ledger w) {id : UInt64} {k : ℕ} {info : RequestInfo}
    (hinfo : (asked w id)[k]? = some info) :
    ((dues w id (k+1)).map BitVec.toNat).sum ≤ feeOf w id (k+1) := by
  obtain ⟨hmin,L,hL⟩ := h.due id k info hinfo
  rw [feeOf,hinfo,Option.map_some,Option.getD_some,← prices_sum hmin,← hL]
  simp

/-- Nothing is sent on account of a request that nobody made. -/
theorem Ledger.empty (h : Ledger w) {id : UInt64} {n : ℕ} (hn : (asked w id).length < n) :
    dues w id n = [] ∧ paid w id n = 0 := by
  have hno : ∀ t ∈ w.sent, t.purpose.on id n = false := fun t ht => by
    simpa using h.beyond id n hn t ht
  constructor
  · rw [dues,List.filter_eq_nil_iff.mpr fun t ht => by simp [hno t ht],List.map_nil]
  · rw [paid,wei,List.filter_eq_nil_iff.mpr fun t ht => by simp [hno t ht],List.map_nil,List.sum_nil]

theorem Ledger.within (h : Ledger w) (id : UInt64) (k : ℕ) : Within w id (k+1) := by
  rcases hinfo : (asked w id)[k]? with _ | info
  · have hk := h.empty (Nat.lt_succ_of_le (List.getElem?_eq_none_iff.mp hinfo))
    have hlen := dues_length w id (k+1)
    rw [hk.1] at hlen
    refine ⟨hk.2.le.trans (Nat.zero_le _),by rw [← hlen]; exact Nat.zero_le 3,fun _ hthree => ?_⟩
    rw [← hlen] at hthree
    exact absurd hthree (by decide)
  · obtain ⟨-,hdue⟩ := h.due id k info hinfo
    refine ⟨(h.paid_le id _).trans (h.feeOf_le hinfo),?_,fun hcurrent hthree => ?_⟩
    · rw [← dues_length]
      exact hdue.length_le
    · by_contra hfee
      obtain ⟨-,-,hdues⟩ := h.running id hfee
      rw [← dues_length,← hcurrent,hdues,List.length_take] at hthree
      exact absurd (hthree.trans (Nat.min_le_right _ _)) (by simp)

theorem Ledger.solvent (h : Ledger w) : Solvent w := by
  refine ⟨h.within,h.covered,fun S hS => (Finset.sum_congr rfl fun x hx => ?_).trans_le (h.covered S)⟩
  have hdues : dues w x.1 x.2 = [] := by
    rw [← List.length_eq_zero_iff,dues_length,hS x hx]
    rfl
  have hpaid := h.paid_le x.1 x.2
  rw [hdues] at hpaid
  exact (Nat.sub_eq_of_eq_add (by rw [Nat.le_zero.mp hpaid]; rfl)).symm

theorem Ledger.same (h : Ledger w) (hasked : ∀ id, asked w' id = asked w id)
    (hrequests : w'.storage.requests = w.storage.requests) (hsent : w'.sent = w.sent)
    (hbalance : w.balance ≤ w'.balance) : Ledger w' where
  due id k info hinfo := by
    rw [dues,hsent]
    exact h.due id k info (hasked id ▸ hinfo)
  running id hfee := by
    rw [hrequests] at hfee ⊢
    rw [hasked,dues,hsent]
    exact h.running id hfee
  beyond id n hn := by
    rw [hsent]
    exact h.beyond id n (hasked id ▸ hn)
  callbacks := by
    rw [hsent]
    exact h.callbacks
  covered S := by
    refine le_trans (le_of_eq ?_) ((h.covered S).trans hbalance)
    refine Finset.sum_congr rfl fun x _ => ?_
    have hfee : feeOf w' x.1 x.2 = feeOf w x.1 x.2 := by
      unfold feeOf
      rw [hasked]
    rw [rest,rest,hfee,paid,paid,hsent]

theorem feeOf_new {info : RequestInfo} {id : UInt64}
    (hasked : asked w' id = asked w id++[info]) :
    feeOf w' id ((asked w id).length+1) = info.fee.toNat ∧
      ∀ n, n ≠ (asked w id).length+1 → feeOf w' id n = feeOf w id n := by
  refine ⟨by simp [feeOf,hasked],fun n hn => ?_⟩
  cases n with
  | zero => rfl
  | succ k =>
      simp only [feeOf,hasked]
      rcases Nat.lt_or_ge k (asked w id).length with hlt | hge
      · rw [List.getElem?_append_left hlt]
      · rw [List.getElem?_eq_none_iff.mpr hge,List.getElem?_append_right hge,
          List.getElem?_eq_none_iff.mpr]
        simp
        omega

/-- A new request brings its fee. -/
theorem Ledger.recorded (h : Ledger w) {info : RequestInfo} {r : Request}
    (hasked : ∀ id, asked w' id = if id = info.id then asked w id++[info] else asked w id)
    (hrequests : w'.storage.requests = Function.update w.storage.requests info.id r)
    (hsent : w'.sent = w.sent) (hbalance : w'.balance = w.balance+info.fee.toNat)
    (hmin : MIN_FEE ≤ info.fee) (hfee : r.fee = info.fee) (hcnt : r.responseCnt = 0) :
    Ledger w' := by
  have hself : asked w' info.id = asked w info.id++[info] := by rw [hasked,if_pos rfl]
  have hother : ∀ id, id ≠ info.id → asked w' id = asked w id := fun id hid => by
    rw [hasked,if_neg hid]
  have hdues : ∀ id n, dues w' id n = dues w id n := fun id n => by rw [dues,dues,hsent]
  have hpaid : ∀ id n, paid w' id n = paid w id n := fun id n => by rw [paid,paid,hsent]
  have hnew := h.empty (Nat.lt_succ_self (asked w info.id).length)
  refine ⟨fun id k info' hinfo => ?_,fun id hopen => ?_,fun id n hn => ?_,?_,?_⟩
  · rw [hdues]
    by_cases hid : id = info.id
    · subst hid
      rw [hself] at hinfo
      rcases Nat.lt_or_ge k (asked w info.id).length with hlt | hge
      · rw [List.getElem?_append_left hlt] at hinfo
        exact h.due _ k info' hinfo
      · rw [List.getElem?_append_right hge,List.getElem?_singleton] at hinfo
        split_ifs at hinfo with hk
        obtain rfl := Option.some.inj hinfo
        obtain rfl : k = (asked w info.id).length := by omega
        rw [hnew.1]
        exact ⟨hmin,List.nil_prefix⟩
    · rw [hother id hid] at hinfo
      exact h.due id k info' hinfo
  · by_cases hid : id = info.id
    · subst hid
      rw [hrequests,Function.update_self]
      rw [hself,hdues,List.length_append,List.length_singleton,hnew.1,hcnt]
      exact ⟨⟨info,by simp,hfee⟩,by decide,rfl⟩
    · rw [hrequests,Function.update_of_ne hid] at hopen ⊢
      rw [hother id hid,hdues]
      exact h.running id hopen
  · rw [hsent]
    refine h.beyond id n (lt_of_le_of_lt ?_ hn)
    rw [hasked]
    split_ifs <;> simp
  · rw [hsent]
    exact h.callbacks
  · have hmove := @covered_move _ _ (rest w) (rest w') w.balance info.fee.toNat 0
      (info.id,(asked w info.id).length+1) h.covered ?_ ?_
    · intro S
      rw [hbalance]
      exact hmove S
    · have hlast := (feeOf_new hself).1
      simp only [rest,hlast,hpaid]
      omega
    · rintro ⟨id,n⟩ hne
      simp only [rest,hpaid]
      by_cases hid : id = info.id
      · subst hid
        rw [(feeOf_new hself).2 n fun hn => hne (by rw [hn])]
      · unfold feeOf
        rw [hother id hid]

theorem vote_delivery {p : Purpose} {d : Delivery} (h : p.vote = some d) : p.delivery = d := by
  cases p <;> cases h <;> rfl

theorem take_prices {n : ℕ} (hn : n ≤ 2) (fee : UInt256) :
    [FIRST_DELIVER_COST,SECOND_DELIVER_COST].take n = (prices fee).take n := by
  match n, hn with
  | 0, _ | 1, _ | 2, _ => rfl

/-- The prices agreed on so far, and the next one. -/
theorem Ledger.next (h : Ledger w) {id : UInt64} {v : UInt256}
    (hopen : (w.storage.requests id).fee ≠ 0)
    (hvalue : (prices (w.storage.requests id).fee)[(w.storage.requests id).responseCnt.toNat]? =
      some v) : dues w id (asked w id).length++[v] =
        (prices (w.storage.requests id).fee).take
          ((w.storage.requests id).responseCnt.toNat+1) := by
  obtain ⟨-,hcnt,hdues⟩ := h.running id hopen
  rw [hdues,take_prices (UInt8.le_iff_toNat_le.mp hcnt),List.take_add_one,hvalue]
  rfl

/-- A counted delivery gets what is next on the list of prices. -/
theorem Ledger.counted (h : Ledger w) {t : Transfer Purpose} {d : Delivery} {r : Request}
    (hasked : ∀ id, asked w' id = asked w id)
    (hrequests : w'.storage.requests = Function.update w.storage.requests d.requestId r)
    (hsent : w'.sent = w.sent++[t])
    (hbalance : w'.balance+(if t.success then t.value.toNat else 0) = w.balance)
    (hvote : t.purpose.vote = some d) (hround : d.round = (asked w d.requestId).length)
    (hopen : (w.storage.requests d.requestId).fee ≠ 0)
    (hvalue : (prices (w.storage.requests d.requestId).fee)[(w.storage.requests
      d.requestId).responseCnt.toNat]? = some t.value)
    (hr : r.fee ≠ 0 → r.fee = (w.storage.requests d.requestId).fee ∧
      r.responseCnt.toNat = (w.storage.requests d.requestId).responseCnt.toNat+1 ∧
        r.responseCnt ≤ 2) : Ledger w' := by
  have hnext := h.next hopen hvalue
  obtain ⟨⟨info,hlast,hfee⟩,-,-⟩ := h.running d.requestId hopen
  rw [hfee] at hnext
  rw [List.getLast?_eq_getElem?] at hlast
  obtain ⟨hmin,-⟩ := h.due _ _ info hlast
  have hpos : (asked w d.requestId).length-1+1 = (asked w d.requestId).length := by
    have := (List.getElem?_eq_some_iff.mp hlast).1
    omega
  have hdelivery := vote_delivery hvote
  have hon : ∀ id n, t.purpose.on id n =
      decide (d.requestId = id ∧ (asked w d.requestId).length = n) := by
    intro id n
    rw [Purpose.on,hdelivery,hround]
  have hself : dues w' d.requestId (asked w d.requestId).length =
      (prices info.fee).take ((w.storage.requests d.requestId).responseCnt.toNat+1) := by
    rw [dues_append hsent,hon,hvote,← hnext]
    simp
  have hother : ∀ id n, ¬(d.requestId = id ∧ (asked w d.requestId).length = n) →
      dues w' id n = dues w id n ∧ paid w' id n = paid w id n := by
    intro id n hne
    rw [dues_append hsent,paid_append hsent,hon,decide_eq_false hne]
    simp
  refine ⟨fun id k info' hinfo => ?_,fun id hopen' => ?_,fun id n hn x hx => ?_,fun x hx => ?_,?_⟩
  · rw [hasked] at hinfo
    by_cases hid : d.requestId = id ∧ (asked w d.requestId).length = k+1
    · obtain ⟨rfl,hk⟩ := hid
      rw [← hk,hself]
      obtain rfl : info = info' := by
        rw [hk,Nat.add_sub_cancel,hinfo] at hlast
        exact (Option.some.inj hlast).symm
      exact ⟨hmin,List.take_prefix _ _⟩
    · rw [(hother id _ hid).1]
      exact h.due id k info' hinfo
  · rw [hrequests] at hopen' ⊢
    rw [hasked]
    by_cases hid : id = d.requestId
    · subst hid
      rw [Function.update_self] at hopen' ⊢
      obtain ⟨hrfee,hrcnt,hle⟩ := hr hopen'
      refine ⟨⟨info,?_,hrfee.trans hfee⟩,hle,?_⟩
      · rw [List.getLast?_eq_getElem?]
        exact hlast
      · rw [hself,take_prices (UInt8.le_iff_toNat_le.mp hle) info.fee,hrcnt]
    · rw [Function.update_of_ne hid] at hopen' ⊢
      rw [(hother id _ fun hd => hid hd.1.symm).1]
      exact h.running id hopen'
  · rw [hasked] at hn
    rw [hsent] at hx
    rcases List.mem_append.mp hx with hx | hx
    · exact h.beyond id n hn x hx
    · rw [List.mem_singleton.mp hx,hon,decide_eq_true_eq]
      rintro ⟨rfl,rfl⟩
      exact Nat.lt_irrefl _ hn
  · rw [hsent] at hx
    rcases List.mem_append.mp hx with hx | hx
    · exact h.callbacks x hx
    · rw [List.mem_singleton.mp hx,hvote]
      exact nofun
  · have hfees : ∀ id n, feeOf w' id n = feeOf w id n := fun id n => by
      unfold feeOf
      rw [hasked]
    have hmove := @covered_move _ _ (rest w) (rest w') w.balance 0
      (if t.success then t.value.toNat else 0)
      (d.requestId,(asked w d.requestId).length) h.covered ?_ ?_
    · intro S
      have hS := hmove S
      omega
    · have hle := h.paid_le d.requestId (asked w d.requestId).length
      have hwhole : ((dues w d.requestId (asked w d.requestId).length++[t.value]).map
          BitVec.toNat).sum ≤ info.fee.toNat := by
        rw [hnext,← prices_sum hmin]
        refine List.Sublist.sum_le_sum ?_ fun _ _ => Nat.zero_le _
        exact (List.take_sublist _ _).map _
      have hfeeOf : feeOf w d.requestId (asked w d.requestId).length = info.fee.toNat := by
        rw [← hpos,feeOf,hlast]
        rfl
      have hpaid := paid_append hsent d.requestId (asked w d.requestId).length
      rw [hon,decide_eq_true ⟨rfl,rfl⟩,Bool.and_true] at hpaid
      simp only [List.map_append,List.sum_append,List.map_cons,List.map_nil,List.sum_cons,
        List.sum_nil,Nat.add_zero] at hwhole
      simp only [rest,hfees,hfeeOf,hpaid]
      split_ifs <;> omega
    · rintro ⟨id,n⟩ hne
      simp only [rest,hfees]
      rw [(hother id n fun hd => hne (by rw [hd.1,← hd.2,hd.1])).2]

/-- A callback takes no ether with it. -/
theorem Ledger.called (h : Ledger w) {t : Transfer Purpose} (hasked : ∀ id, asked w' id = asked w id)
    (hrequests : w'.storage.requests = w.storage.requests) (hsent : w'.sent = w.sent++[t])
    (hbalance : w'.balance = w.balance) (hvote : t.purpose.vote = none) (hvalue : t.value = 0)
    (hround : ∃ id, t.purpose.delivery.requestId = id ∧
      t.purpose.delivery.round = (asked w id).length) : Ledger w' := by
  have hdues : ∀ id n, dues w' id n = dues w id n := fun id n => by
    rw [dues_append hsent,hvote]
    simp
  have hpaid : ∀ id n, paid w' id n = paid w id n := fun id n => by
    rw [paid_append hsent,hvalue]
    simp
  obtain ⟨id₀,hid₀,hround⟩ := hround
  refine ⟨fun id k info hinfo => ?_,fun id hopen => ?_,fun id n hn x hx => ?_,fun x hx => ?_,
    fun S => ?_⟩
  · rw [hdues]
    exact h.due id k info (hasked id ▸ hinfo)
  · rw [hrequests] at hopen ⊢
    rw [hasked,hdues]
    exact h.running id hopen
  · rw [hsent] at hx
    rcases List.mem_append.mp hx with hx | hx
    · exact h.beyond id n (hasked id ▸ hn) x hx
    · rw [List.mem_singleton.mp hx]
      rw [hasked] at hn
      simp only [Purpose.on,hid₀,hround,decide_eq_true_eq,not_and]
      rintro rfl
      exact Nat.ne_of_lt hn
  · rw [hsent] at hx
    rcases List.mem_append.mp hx with hx | hx
    · exact h.callbacks x hx
    · rw [List.mem_singleton.mp hx]
      exact fun _ => hvalue
  · rw [hbalance]
    refine le_trans (le_of_eq (Finset.sum_congr rfl fun x _ => ?_)) (h.covered S)
    rw [rest,rest,hpaid]
    unfold feeOf
    rw [hasked]

end Worlds

/-- A third counted delivery for a request leads to a decision. -/
def Decisive (w : World) : Call → Prop
  | .message m (.deliver id paramsHash respData) =>
      (poll w id).Counts m paramsHash → 2 ≤ (w.storage.requests id).responseCnt →
        respData = (w.storage.requests id).response0 ∨
          respData = (w.storage.requests id).response1 ∨
            (w.storage.requests id).response0 = (w.storage.requests id).response1
  | _ => True

section Code
variable {keccak : Bytes → Bytes32} {w : World}

theorem Ledger.emit (h : Ledger w) {e : Event} (he : ∀ id, accepted id e = none) :
    Ledger (w.emit e) :=
  h.same (fun id => asked_emit (he id)) rfl rfl (Nat.le_refl _)

theorem Ledger.credit (h : Ledger w) (v : UInt256) : Ledger (w.credit v) :=
  h.same (fun _ => rfl) rfl rfl (Nat.le_add_right _ _)

theorem asked_send (a : Address) (v : UInt256) (x : Purpose) (id : UInt64) :
    asked (send a v x w) id = asked w id := by
  unfold send
  split_ifs <;> rfl

theorem asked_setRequest (id : UInt64) (r : Request) (j : UInt64) :
    asked (setRequest id r w) j = asked w j := rfl

/-- The payment of a counted delivery, with what it changes in the record. -/
theorem Ledger.send (h : Ledger w) {d : Delivery} {r : Request} {x : Purpose} {v : UInt256}
    (a : Address) (hvote : x.vote = some d) (hround : d.round = (asked w d.requestId).length)
    (hopen : (w.storage.requests d.requestId).fee ≠ 0)
    (hvalue : (prices (w.storage.requests d.requestId).fee)[(w.storage.requests
      d.requestId).responseCnt.toNat]? = some v)
    (hr : r.fee ≠ 0 → r.fee = (w.storage.requests d.requestId).fee ∧
      r.responseCnt.toNat = (w.storage.requests d.requestId).responseCnt.toNat+1 ∧
        r.responseCnt ≤ 2) : Ledger (send a v x (setRequest d.requestId r w)) := by
  unfold TownCrierVote.send
  split_ifs with hfunds
  · refine @Ledger.counted w _ h ⟨a,v,x,true⟩ d r (fun _ => rfl) rfl rfl ?_ hvote hround hopen
      hvalue hr
    exact Nat.sub_add_cancel hfunds
  · exact @Ledger.counted w _ h ⟨a,v,x,false⟩ d r (fun _ => rfl) rfl rfl rfl hvote hround hopen
      hvalue hr

theorem send_setRequest (a : Address) (v : UInt256) (x : Purpose) (id : UInt64) (r : Request) :
    setRequest id r (send a v x w) = send a v x (setRequest id r w) := by
  unfold send
  by_cases hfunds : v.toNat ≤ w.balance
  · rw [if_pos hfunds,if_pos (show v.toNat ≤ (setRequest id r w).balance from hfunds)]
    rfl
  · rw [if_neg hfunds,if_neg (show ¬v.toNat ≤ (setRequest id r w).balance from hfunds)]
    rfl

theorem ledger_request (h : Ledger w) (m : Msg) (requestType : UInt8) (callbackAddr : Address)
    (callbackFID : Bytes4) (requestData : List Bytes32) :
    (request keccak m requestType callbackAddr callbackFID requestData (w.credit m.value)).All
      Ledger fun _ => True := by
  unfold request
  dsimp only
  split_ifs with hfee
  · refine Ledger.emit (Ledger.emit ((h.credit m.value).emit fun _ => rfl) fun id => ?_) fun _ => rfl
    refine if_neg ?_
    rintro ⟨hmin,hmax,-⟩
    exact hfee.elim (BitVec.not_lt.mpr hmin) (BitVec.not_lt.mpr hmax)
  · obtain ⟨hmin,hmax⟩ := not_or.mp hfee
    refine Ledger.emit ?_ fun _ => rfl
    set info : RequestInfo := ⟨w.storage.requestCnt,m.value,keccak (encodePacked requestType
      (m.timestamp::requestData)),requestType,m.timestamp,requestData⟩ with hinfo
    have hrecorded : ∀ id, accepted id (.requestInfo info) =
        if id = info.id then some info else none := by
      intro id
      by_cases hid : id = info.id
      · rw [if_pos hid]
        exact if_pos ⟨BitVec.not_lt.mp hmin,BitVec.not_lt.mp hmax,hid.symm⟩
      · rw [if_neg hid]
        exact if_neg fun h => hid h.2.2.symm
    refine @Ledger.recorded w _ h info _ (fun id => ?_) rfl rfl rfl (BitVec.not_lt.mp hmin) rfl rfl
    have hquiet : accepted id (.requestLog 0) = none := rfl
    simp only [asked,setRequest,Account.logs_emit,Account.logs_set,Account.logs_credit,
      List.filterMap_append,List.filterMap_cons,List.filterMap_nil,hquiet,List.append_nil]
    simp only [Account.storage_emit,Account.storage_credit]
    rw [← hinfo,hrecorded]
    split_ifs <;> simp

theorem ledger_callback (h : Ledger w) {d : Delivery}
    (hround : d.round = (asked w d.requestId).length) (a : Address) (callbackFID : Bytes4)
    (response : Bytes32) :
    (w.callOut a 0 (.callback callbackFID d response) .deliverCallback
      (afterCallback none)).All Ledger fun _ => True := by
  have hkeep : Ledger (w.keep a 0 (.callback callbackFID d response)) :=
    h.called (fun _ => rfl) rfl (Account.sent_keep w a 0 _) rfl rfl rfl ⟨_,rfl,hround⟩
  have hpay : Ledger (w.pay a 0 (.callback callbackFID d response)) :=
    h.called (fun _ => rfl) rfl (Account.sent_pay w a 0 _) rfl rfl rfl ⟨_,rfl,hround⟩
  exact Account.all_callOut w hkeep hpay trivial (hkeep.emit fun _ => rfl)

theorem ledger_conclude (h : Ledger w) (m : Msg) {d : Delivery} (response : Bytes32)
    (hround : d.round = (asked w d.requestId).length)
    (hopen : (w.storage.requests d.requestId).fee ≠ 0)
    (hcnt : (w.storage.requests d.requestId).responseCnt = 2) :
    (conclude m d response w).All Ledger fun _ => True := by
  have hvalue : (prices (w.storage.requests d.requestId).fee)[(w.storage.requests
      d.requestId).responseCnt.toNat]? = some ((w.storage.requests d.requestId).fee-
        (FIRST_DELIVER_COST+SECOND_DELIVER_COST)) := by
    rw [hcnt]
    rfl
  have hlog : Ledger (w.emit (.deliverLog 0 4)) := h.emit fun _ => rfl
  have hlogged : asked (w.emit (.deliverLog 0 4)) d.requestId = asked w d.requestId :=
    asked_emit rfl
  have hsent : ∀ r : Request, r.fee = 0 → Ledger (send m.sender
      ((w.storage.requests d.requestId).fee-(FIRST_DELIVER_COST+SECOND_DELIVER_COST))
        (.lastDelivery d) (setRequest d.requestId r (w.emit (.deliverLog 0 4)))) := by
    intro r hr
    exact hlog.send m.sender rfl (hlogged ▸ hround) hopen hvalue fun hne => absurd hr hne
  unfold conclude
  dsimp only
  rw [send_setRequest]
  refine ledger_callback (((hsent _ rfl).emit fun _ => rfl).emit fun _ => rfl) ?_ _ _ _
  rw [asked_emit rfl,asked_emit rfl,asked_send,asked_setRequest,hlogged]
  exact hround

/-- The first two deliveries have fixed prices. -/
theorem Ledger.polled (h : Ledger w) {d : Delivery} {r : Request} {x : Purpose} {v : UInt256}
    {e : Event} {c : UInt8} (a : Address) (he : ∀ id, accepted id e = none)
    (hvote : x.vote = some d) (hround : d.round = (asked w d.requestId).length)
    (hopen : (w.storage.requests d.requestId).fee ≠ 0)
    (hcnt : (w.storage.requests d.requestId).responseCnt = c)
    (hvalue : [FIRST_DELIVER_COST,SECOND_DELIVER_COST][c.toNat]? = some v)
    (hfee : r.fee = (w.storage.requests d.requestId).fee) (hr : r.responseCnt = c+1) :
    Ledger (TownCrierVote.send a v x ((setRequest d.requestId r w).emit e)) := by
  have hlt : c.toNat < 2 := (List.getElem?_eq_some_iff.mp hvalue).1
  have hnext : (c+1).toNat = c.toNat+1 := by
    rw [UInt8.toNat_add]
    exact Nat.mod_eq_of_lt (by rw [UInt8.toNat_one]; omega)
  refine (h.emit he).send a hvote ?_ hopen ?_ fun _ => ⟨hfee,?_,?_⟩
  · rw [asked_emit (he _)]
    exact hround
  · rw [Account.storage_emit,hcnt,← hvalue]
    exact @List.getElem?_append_left _ [FIRST_DELIVER_COST,SECOND_DELIVER_COST]
      [(w.storage.requests d.requestId).fee-(FIRST_DELIVER_COST+SECOND_DELIVER_COST)] _ hlt
  · rw [hr,Account.storage_emit,hcnt,hnext]
  · rw [UInt8.le_iff_toNat_le,hr,hnext]
    exact hlt

theorem ledger_deliver (h : Ledger w) (m : Msg) (requestId : UInt64)
    (paramsHash respData : Bytes32)
    (hdecisive : Decisive w (.message m (.deliver requestId paramsHash respData))) :
    (deliver m requestId paramsHash respData w).All Ledger fun _ => True := by
  have htwo : (w.storage.requests requestId).fee ≠ 0 →
      (w.storage.requests requestId).responseCnt ≠ 0 →
        (w.storage.requests requestId).responseCnt ≠ 1 →
          (w.storage.requests requestId).responseCnt = 2 := by
    intro hopen h0 h1
    have hle := UInt8.le_iff_toNat_le.mp (h.running requestId hopen).2.1
    rw [Ne,← UInt8.toNat_inj] at h0 h1
    rw [← UInt8.toNat_inj]
    rw [show (0 : UInt8).toNat = 0 from rfl] at h0
    rw [show (1 : UInt8).toNat = 1 from rfl] at h1
    rw [show (2 : UInt8).toNat = 2 from rfl] at hle ⊢
    omega
  unfold deliver turnAway
  dsimp only
  split_ifs with hfee hsender hhash h0 h1 hown hothers
  · exact (h.emit fun _ => rfl).emit fun _ => rfl
  · exact (h.emit fun _ => rfl).emit fun _ => rfl
  · exact h.polled (d := ⟨m.sender,requestId,_,paramsHash,respData⟩) m.sender (fun _ => rfl) rfl rfl
      hfee h0 rfl rfl (by rw [h0])
  · exact h.polled (d := ⟨m.sender,requestId,_,paramsHash,respData⟩) m.sender (fun _ => rfl) rfl rfl
      hfee h1 rfl rfl (by rw [h1])
  · exact ledger_conclude (h.emit fun _ => rfl) m _ (congrArg List.length (asked_emit rfl).symm)
      hfee (htwo hfee h0 h1)
  · exact ledger_conclude (h.emit fun _ => rfl) m _ (congrArg List.length (asked_emit rfl).symm)
      hfee (htwo hfee h0 h1)
  · have hcounts : (poll w requestId).Counts m paramsHash := ⟨hfee,hsender,not_not.mp hhash⟩
    have hdecided := hdecisive hcounts (htwo hfee h0 h1 ▸ UInt8.le_refl 2)
    exact absurd hdecided (by simp [not_or.mp hown,hothers])
  · exact (h.emit fun _ => rfl).emit fun _ => rfl

theorem ledger_start (h : Ledger w) (c : Call) (hdecisive : Decisive w c) :
    (start keccak c w).All Ledger fun _ => True := by
  cases c with
  | forced value => exact h.credit value
  | message m f =>
      cases f with
      | request t a f data => exact ledger_request h m t a f data
      | deliver id paramsHash respData =>
          exact ledger_deliver (h.credit m.value) m id paramsHash respData hdecisive

theorem kept_ledger : Kept ((code keccak).restrict fun c w => Decisive w c) Ledger (fun _ => True)
    [] where
  start c w _ hw := by
    simp only [Code.restrict]
    split_ifs with hc
    · exact ledger_start hw c hc
    · trivial
  resume k answer w _ hw := by
    cases k
    exact hw.emit fun _ => rfl

theorem ledger_constructor (balance : ℕ) : Ledger (constructor balance) where
  due id k info hinfo := by simp [asked,constructor] at hinfo
  running id hopen := absurd rfl hopen
  beyond id n hn t ht := by simp [constructor] at ht
  callbacks t ht := by simp [constructor] at ht
  covered S := by
    have hzero : ∀ x : UInt64 × ℕ, rest (constructor balance) x = 0 := by
      rintro ⟨id,_ | k⟩
      · exact Nat.zero_sub _
      · simp [rest,feeOf,asked,constructor]
    simp [hzero]

end Code

section Runs
variable {keccak : Bytes → Bytes32} {balance : ℕ}

/-- Every third delivery of a run that counts decides. -/
def Decides (s : Config World Kont) (a : Action Call Unit) (_ : Config World Kont) : Prop :=
  ∀ c, a = .call c → Decisive s.world c

/-- In a run without an aborted vote the payments stay within each fee, the third
delivery closes the request, and the balance covers what is left of the fees. -/
theorem fees_suffice {s : Config World Kont}
    (h : Reach (code keccak) Decides (constructor balance) s) : Solvent s.world := by
  have hledger : Above Ledger (fun _ => True) [] s :=
    kept_ledger.reach (ledger_constructor balance) (h.restrict fun _ c _ ha => ha c rfl)
  exact hledger.1.solvent

end Runs

/-- A request with the smallest fee. -/
def cheapCall : Call := .message ⟨7,MIN_FEE,1,0,0⟩ (.request 1 8 9 [])

theorem fees_suffice_pair : ∃ s : Config World Kont, paid s.world 1 1 = MIN_FEE.toNat ∧
    Solvent s.world := by
  have h₁ : Reach (code fun _ => 3) Decides (constructor 0) _ :=
    .step (.call cheapCall) .start rfl fun c hc => by cases hc; trivial
  have h₂ : Reach (code fun _ => 3) Decides (constructor 0) _ :=
    .step (.call (voteCall SGX1_ADDRESS 6)) h₁ rfl fun c hc => by
      cases hc
      exact fun _ hcnt => absurd hcnt (by decide)
  have h₃ : Reach (code fun _ => 3) Decides (constructor 0) _ :=
    .step (.call (voteCall SGX2_ADDRESS 6)) h₂ rfl fun c hc => by
      cases hc
      exact fun _ hcnt => absurd hcnt (by decide)
  have h₄ : Reach (code fun _ => 3) Decides (constructor 0) _ :=
    .step (.call (voteCall SGX3_ADDRESS 5)) h₃ rfl fun c hc => by
      cases hc
      exact fun _ _ => .inr (.inr (by decide))
  exact ⟨_,by decide,fees_suffice h₄⟩

/-- After three answers that differ, a fourth is paid for with the fee of another request. -/
theorem undecided_vote_overpaid : ∃ s, Reach (code fun _ => 3) (fun _ _ _ => True) (constructor 0) s ∧
    feeOf s.world 1 1 < paid s.world 1 1 ∧ (s.world.storage.requests 1).fee ≠ 0 ∧
      votes (entries s.world 2) 1 = [] ∧ s.world.balance < feeOf s.world 2 1 := by
  have h₁ : Reach (code fun _ => 3) (fun _ _ _ => True) (constructor 0) _ :=
    .step (.call cheapCall) .start rfl trivial
  have h₂ : Reach (code fun _ => 3) (fun _ _ _ => True) (constructor 0) _ :=
    .step (.call cheapCall) h₁ rfl trivial
  have h₃ : Reach (code fun _ => 3) (fun _ _ _ => True) (constructor 0) _ :=
    .step (.call (voteCall SGX1_ADDRESS 4)) h₂ rfl trivial
  have h₄ : Reach (code fun _ => 3) (fun _ _ _ => True) (constructor 0) _ :=
    .step (.call (voteCall SGX2_ADDRESS 5)) h₃ rfl trivial
  have h₅ : Reach (code fun _ => 3) (fun _ _ _ => True) (constructor 0) _ :=
    .step (.call (voteCall SGX3_ADDRESS 6)) h₄ rfl trivial
  have h₆ : Reach (code fun _ => 3) (fun _ _ _ => True) (constructor 0) _ :=
    .step (.call (voteCall SGX3_ADDRESS 7)) h₅ rfl trivial
  exact ⟨_,h₆,by decide⟩

end TownCrier.TownCrierVote
