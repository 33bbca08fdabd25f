import TownCrier.Delivery
import TownCrier.EventHandler
import TownCrier.FlightInsurance

/-!
# Insurance policies from purchase to payout

The contract sells a policy for a departure time, the enclave reads this time
from the relayed data and scores the flight, and the contract pays by the score.
Both ends look at the same words with different widths.
-/
namespace TownCrier.Insurance
open BigEndian CallMachine Cpp Encoding Evm FlightInsurance Https

/-- `insure` returns at once only from the branch that records. -/
theorem insure_done {m : Msg} {flightInfo : List Bytes32} {payment : UInt256} {w w' : World}
    (h : insure m flightInfo payment w = .done () w') :
    ∃ departure, flightInfo[1]? = some departure ∧ ¬tooLate m departure ∧
      w' = record m flightInfo (payment*ETHER_TO_WEI) (w.credit m.value) := by
  have hrefund : (w.credit m.value).callOut m.sender m.value .insureRefund
      (.insureRefund m flightInfo (payment*ETHER_TO_WEI))
      (afterInsureRefund m flightInfo (payment*ETHER_TO_WEI) none) ≠ .done () w' := by
    unfold Account.callOut
    split_ifs <;> nofun
  unfold insure at h
  simp only at h
  split_ifs at h
  · exact (hrefund h).elim
  · cases hd : flightInfo[1]? with
    | none =>
        rw [hd] at h
        cases h
    | some departure =>
        simp only [hd] at h
        split_ifs at h with hlate
        · exact (hrefund h).elim
        · exact ⟨departure,rfl,hlate,(Outcome.done.inj h).2.symm⟩

theorem insure_eq {m : Msg} {flightInfo : List Bytes32} {payment : UInt256} {departure : Bytes32}
    (w : World) (hpaid : ¬m.value < payment*ETHER_TO_WEI+TC_FEE)
    (hd : flightInfo[1]? = some departure) (hlate : ¬tooLate m departure) :
    insure m flightInfo payment w =
      .done () (record m flightInfo (payment*ETHER_TO_WEI) (w.credit m.value)) := by
  rw [insure]
  simp only [if_neg hpaid,hd,if_neg hlate]

/-- What the relay sends to the enclave. -/
def relayed (data : List Bytes32) : Bytes := (data.map wordBytes).flatten

/-- The last eight bytes of the second word. -/
theorem unixEpoch_relayed {data : List Bytes32} {departure : Bytes32}
    (h : data[1]? = some departure) :
    (FlightScraper.unixEpoch (relayed data)).toNat = departure.toNat%2^64 := by
  obtain ⟨flight,rest,rfl⟩ : ∃ flight rest, data = flight::departure::rest := by
    match data, h with
    | flight::_::rest, h => exact ⟨flight,rest,by rw [← Option.some.inj h]⟩
  have hdrop : (relayed (flight::departure::rest)).drop 0x20 =
      wordBytes departure++relayed rest := by
    simp only [relayed,List.map_cons,List.flatten_cons]
    exact List.drop_left' (wordBytes_length flight)
  have hword : wordBytes departure = fixed 24 (departure.toNat/256^8)++fixed 8 departure.toNat :=
    fixed_add 8 24 departure.toNat
  have hle : 32 ≤ (wordBytes departure++relayed rest).length := by simp
  have hlow : ((wordBytes departure++relayed rest).drop 24).take 8 = fixed 8 departure.toNat := by
    rw [hword,List.append_assoc,List.drop_left' (fixed_length _ _),
      List.take_left' (fixed_length _ _)]
  rw [FlightScraper.unixEpoch,hdrop,uintBytes_toNat (show 8 ≤ 32 by norm_num) hle,hlow,value_fixed]
  norm_num

/-- The policy that `insure` has just recorded. -/
def recorded (w w' : World) : Policy := w'.storage.policies w.storage.policyCnt

/-- The enclave reads the departure time that the contract has accepted, at least
a day ahead, just when the word fits into 64 bits. -/
theorem departure_agrees {m : Msg} {flightInfo : List Bytes32} {payment : UInt256} {w w' : World}
    (h : insure m flightInfo payment w = .done () w') :
    ∃ departure, (recorded w w').data[1]? = some departure ∧ ¬tooLate m departure ∧
      ∀ (nonce : Int32) (info : Contract.RequestInfo), info.requestData = (recorded w w').data →
        let epoch := FlightScraper.unixEpoch (Delivery.handleRequestEvent nonce info).data
        (epoch.toNat = departure.toNat ∧ (m.timestamp+DAY_EPOCH).toNat ≤ epoch.toNat ↔
          departure.toNat < 2^64) := by
  obtain ⟨departure,hd,hlate,rfl⟩ := insure_done h
  have hdata : (recorded w (record m flightInfo (payment*ETHER_TO_WEI) (w.credit m.value))).data =
      flightInfo := by
    simp [recorded,record,Storage.setPolicy]
  rw [hdata]
  refine ⟨departure,hd,hlate,?_⟩
  intro nonce info hinfo epoch
  have hepoch : epoch.toNat = departure.toNat%2^64 := by
    rw [← unixEpoch_relayed hd,relayed,← hinfo]
    rfl
  clear_value epoch
  have hahead : (m.timestamp+DAY_EPOCH).toNat ≤ departure.toNat := by
    rw [← BitVec.le_def]
    exact BitVec.not_lt.mp hlate
  constructor
  · rintro ⟨heq,-⟩
    have hlt := epoch.toNat_lt
    omega
  · intro hlt
    rw [Nat.mod_eq_of_lt hlt] at hepoch
    exact ⟨hepoch,by rw [hepoch]; exact hahead⟩

/-- One ether and the delivery fee, paid in July 2017. -/
def purchase : Msg where
  sender := 7
  value := 1000000000000000000+TC_FEE
  gasPrice := 0
  gasLeft := 0
  timestamp := 1500000000

theorem insure_purchase {departure : Bytes32} (h : ¬tooLate purchase departure) :
    insure purchase [0,departure] 1 (constructor 1 2 0) = .done () (record purchase [0,departure]
      (1*ETHER_TO_WEI) ((constructor 1 2 0).credit purchase.value)) :=
  insure_eq _ (by decide) rfl h

theorem departure_agrees_july : ∃ w', insure purchase [0,1500090000] 1 (constructor 1 2 0) =
    .done () w' ∧
    ∃ departure, (recorded (constructor 1 2 0) w').data[1]? = some departure ∧
      ¬tooLate purchase departure ∧
      ∀ (nonce : Int32) (info : Contract.RequestInfo),
        info.requestData = (recorded (constructor 1 2 0) w').data →
        let epoch := FlightScraper.unixEpoch (Delivery.handleRequestEvent nonce info).data
        (epoch.toNat = departure.toNat ∧ (purchase.timestamp+DAY_EPOCH).toNat ≤ epoch.toNat ↔
          departure.toNat < 2^64) :=
  ⟨_,insure_purchase (by decide),departure_agrees (insure_purchase (by decide))⟩

/-- The contract sees a departure in the far future, the enclave one in 1970. -/
theorem wide_departure_misread : ∃ w', insure purchase [0,18446744073709551617] 1
    (constructor 1 2 0) = .done () w' ∧
    (recorded (constructor 1 2 0) w').data[1]? = some 18446744073709551617 ∧
    (FlightScraper.unixEpoch (relayed (recorded (constructor 1 2 0) w').data)).toNat = 1 :=
  ⟨_,insure_purchase (by decide),rfl,by decide⟩

/-- The score of a flight, as the low four bytes of `*resp_data`. -/
def score (e a : ℤ) : ℤ :=
  if a = -1 then 2147483643 else if (a-e)%2^64 < 1800 then 0 else (a-e)%2^32

theorem toUInt64_departure {a : ℤ} (ha : a = -1 ∨ 0 < a ∧ a < 2^53) :
    ((toUInt64 (a : ℚ)).toNat : ℤ) = a%2^64 := by
  rw [toUInt64_intCast (by omega) (by omega)]
  omega

theorem classify_score {epoch : UInt64} {a : ℤ} (ha : a = -1 ∨ 0 < a ∧ a < 2^53)
    (delay respData : Int32) :
    ∃ n, FlightScraper.report (FlightScraper.classify delay (toUInt64 (a : ℚ)) epoch).1
        (FlightScraper.classify delay (toUInt64 (a : ℚ)) epoch).2 respData = (.noError,n) ∧
      ((widen n).toNat%2^32 : ℕ) = score epoch.toNat a := by
  have hnat := toUInt64_departure ha
  generalize toUInt64 (a : ℚ) = actual at hnat
  have hzero : actual ≠ 0 := by
    rintro rfl
    simp only [UInt64.toNat_zero] at hnat
    omega
  have hdiff : ((actual-epoch).toNat : ℤ) = (a-epoch.toNat)%2^64 := by
    rw [UInt64.toNat_sub]
    have := epoch.toNat_lt
    omega
  have hmax : (0xffffffffffffffff : UInt64).toNat = 2^64-1 := rfl
  have hdelay : (FlightScraper.MAX_DELAY_MIN*60).toNat = 1800 := rfl
  unfold FlightScraper.classify score
  rw [if_neg hzero]
  by_cases hc : actual = 0xffffffffffffffff
  · have : a = -1 := by
      rw [hc,hmax] at hnat
      omega
    rw [if_pos hc,if_pos this]
    exact ⟨_,rfl,by decide⟩
  · have hne : a ≠ -1 := by
      rintro rfl
      apply hc
      apply UInt64.toNat_inj.mp
      omega
    rw [if_neg hc,if_neg hne]
    by_cases hd : actual-epoch ≥ FlightScraper.MAX_DELAY_MIN*60
    · have hle : 1800 ≤ (actual-epoch).toNat := UInt64.le_iff_toNat_le.mp hd
      rw [if_pos hd,if_neg (by omega)]
      refine ⟨_,rfl,?_⟩
      rw [widen_narrow]
      omega
    · have hlt : (actual-epoch).toNat < 1800 := by
        rw [ge_iff_le,UInt64.le_iff_toNat_le] at hd
        omega
      rw [if_neg hd,if_pos (by omega)]
      exact ⟨_,rfl,by decide⟩

theorem settlement_clearFee (w : World) (policyId : UInt64) (delay : UInt256) :
    settlement (clearFee w policyId).storage policyId 0 delay =
      if 30 ≤ delay.toNat then
        ((w.storage.policies policyId).requester,(w.storage.policies policyId).premium*PAYOUT_RATE,
          .payout policyId)
      else (w.storage.owner,(w.storage.policies policyId).premium,.premium policyId) := by
  simp only [settlement,clearFee,Account.storage_set,Storage.setPolicy,Function.update_self,
    if_true,ge_iff_le,BitVec.le_def]
  rfl

/-- Called by TownCrier, `response` tries exactly one transfer. -/
theorem tried_response {m : Msg} {w : World} (h : m.sender = w.storage.tcContract)
    (requestId error : UInt64) (respData : Bytes32) :
    Account.tried (response m requestId error respData w) =
      w.attempts++[settlement (clearFee w (w.storage.idMap requestId)).storage
        (w.storage.idMap requestId) error respData] := by
  rw [response,if_neg (not_not.mpr h)]
  exact Account.tried_callOut _ rfl

/-- What the policy holder is promised, for an actual departure at `a`, or none. -/
def due (s : Storage) (policyId : UInt64) (e a : ℤ) : Address × UInt256 × Purpose :=
  let p := s.policies policyId
  if a = -1 ∨ e+1800 ≤ a then (p.requester,p.premium*PAYOUT_RATE,.payout policyId)
  else (s.owner,p.premium,.premium policyId)

/-- The times for which the score is on the right side of the threshold. -/
def Scored (e a : ℤ) : Prop :=
  a = -1 ∨ e ≤ a ∧ a < e+1800 ∨ e+1800 ≤ a ∧ 30 ≤ (a-e)%2^32 ∨ a < e ∧ (a-e)%2^32 < 30

theorem score_scored {e a : ℤ} (he : 0 < e ∧ e < 2^63) (ha : a = -1 ∨ 0 < a ∧ a < 2^53) :
    (30 ≤ score e a ↔ a = -1 ∨ e+1800 ≤ a) ↔ Scored e a := by
  obtain ⟨hpos,hlt⟩ := he
  unfold score Scored
  split_ifs with h₁ h₂
  · simp [h₁]
  · simp only [h₁,false_or]
    omega
  · simp only [h₁,false_or]
    omega

theorem unixEpoch_policy {e : ℕ} (he : e < 2^63) (flight : Bytes32) :
    FlightScraper.unixEpoch (relayed [flight,BitVec.ofNat 256 e]) = UInt64.ofNat e := by
  apply UInt64.toNat_inj.mp
  rw [unixEpoch_relayed rfl,BitVec.toNat_ofNat,UInt64.toNat_ofNat',
    Nat.mod_eq_of_lt (he.trans (by norm_num)),Nat.mod_eq_of_lt (he.trans (by norm_num))]

/-- The response data of a scored flight. -/
theorem answer_score {env : EventHandler.World} {e : ℕ} {a : ℤ} {flight : Bytes32}
    {r : HttpResponse} (he : e < 2^63) (ha : a = -1 ∨ 0 < a ∧ a < 2^53)
    (hweb : env.web (FlightScraper.httpRequest (UInt64.ofNat e) (cstr (wordBytes flight))) =
      .response r) (hreport : FlightScraper.reportedDeparture r.content = some (a : ℚ))
    (mem : EventHandler.Memory) :
    EventHandler.answer env mem EventHandler.TYPE_FLIGHT_INS
        (relayed [flight,BitVec.ofNat 256 e]) = .ok (0,fixed 32 (score e a).toNat) := by
  have hlen : (relayed [flight,BitVec.ofNat 256 e]).length = 64 := by simp [relayed]
  have hnumber : FlightScraper.flightNumber (relayed [flight,BitVec.ofNat 256 e]) =
      cstr (wordBytes flight) := congrArg cstr (List.take_left' (wordBytes_length flight))
  rw [← unixEpoch_policy he flight,← hnumber] at hweb
  obtain ⟨n,hn,hscore⟩ := @classify_score
    (FlightScraper.unixEpoch (relayed [flight,BitVec.ofNat 256 e])) a ha mem.delay 0
  have hepoch : (FlightScraper.unixEpoch (relayed [flight,BitVec.ofNat 256 e])).toNat = e := by
    rw [unixEpoch_policy he,UInt64.toNat_ofNat',Nat.mod_eq_of_lt (by omega)]
  rw [hepoch] at hscore
  have hanswer : EventHandler.answer env mem EventHandler.TYPE_FLIGHT_INS
      (relayed [flight,BitVec.ofNat 256 e]) = EventHandler.conclude <$> FlightScraper.handle env.web
        mem.delay (relayed [flight,BitVec.ofNat 256 e]) 0 := rfl
  rw [hanswer,FlightScraper.handle_reported hlen hweb hreport,hn]
  change Except.ok (EventHandler.conclude (.noError,n)) = _
  rw [EventHandler.conclude_noError,← hscore,Int.toNat_natCast]

/-- The payout rule holds for a reported departure exactly if the flight was
cancelled, left within half an hour after the scheduled time, left later with at
least 30 seconds of delay modulo `2^32`, or left earlier with less than that. -/
theorem payout_exact {env : EventHandler.World} {mem : EventHandler.Memory} {e : ℕ} {a : ℤ}
    {flight : Bytes32} {r : HttpResponse} {m : Msg} {w : World} {requestId : UInt64}
    (he : 0 < e ∧ e < 2^63) (ha : a = -1 ∨ 0 < a ∧ a < 2^53)
    (hdata : (w.storage.policies (w.storage.idMap requestId)).data = [flight,BitVec.ofNat 256 e])
    (hweb : env.web (FlightScraper.httpRequest (UInt64.ofNat e) (cstr (wordBytes flight))) =
      .response r) (hreport : FlightScraper.reportedDeparture r.content = some (a : ℚ))
    (hm : m.sender = w.storage.tcContract) :
    ∃ respData resp,
      EventHandler.answer env mem EventHandler.TYPE_FLIGHT_INS
          (relayed (w.storage.policies (w.storage.idMap requestId)).data) = .ok (0,respData) ∧
        FormTransaction.respB32 mem.heap 0 respData = .ok resp ∧
        (Account.tried (response m requestId 0 (BitVec.ofNat 256 (value resp)) w) =
            w.attempts++[due w.storage (w.storage.idMap requestId) e a] ↔ Scored e a) := by
  have hlt : (score e a).toNat < 2^32 := by
    unfold score
    split_ifs <;> omega
  have hword : (BitVec.ofNat 256 (value (fixed 32 (score e a).toNat))).toNat =
      (score e a).toNat := by
    rw [value_fixed_of_lt (by omega),BitVec.toNat_ofNat,Nat.mod_eq_of_lt (by omega)]
  rw [hdata]
  refine ⟨_,_,answer_score he.2 ha hweb hreport mem,
    FormTransaction.respB32_long mem.heap 0 (fixed_length _ _).ge,?_⟩
  rw [if_pos rfl,List.take_of_length_le (fixed_length _ _).le,tried_response hm,
    settlement_clearFee,hword,List.append_cancel_left_eq,List.cons.injEq,and_iff_left rfl,
    ← score_scored ⟨by omega,by omega⟩ ha,due]
  have hscore : 30 ≤ (score e a).toNat ↔ 30 ≤ score e a := by omega
  simp only [hscore]
  by_cases h₁ : 30 ≤ score e a <;> by_cases h₂ : a = -1 ∨ (e : ℤ)+1800 ≤ a <;> simp [h₁,h₂]

/-- An answer of the flight API which reports a departure. -/
def report (departure : String) : HttpResponse where
  statusCode := 200
  content := ascii ("\x7b\"FlightInfoExResult\":\x7b\"flights\":[\x7b\"actualdeparturetime\":"++
    departure++"\x7d]\x7d\x7d")

/-- Every request gets the same answer. -/
def site (r : HttpResponse) : EventHandler.World where
  web := fun _ => .response r
  key := ⟨true,false,fun _ => none⟩

def uninitialised : EventHandler.Memory := ⟨0,0,0,fun _ => 0⟩

theorem reported_early :
    FlightScraper.reportedDeparture (report "1500003300").content = some ((1500003300 : ℤ) : ℚ) := by
  decide +kernel

theorem reported_late :
    FlightScraper.reportedDeparture (report "1500005400").content = some ((1500005400 : ℤ) : ℚ) := by
  decide +kernel

/-- One policy for a departure at 1500003600, requested from TownCrier. -/
def insured : World where
  storage :=
    { tcContract := 2, owner := 1, policyCnt := 2
      policies := fun _ => ⟨7,1,[0,BitVec.ofNat 256 1500003600],TC_FEE,1000000000000000000⟩
      idMap := fun _ => 1 }
  balance := 10000000000000000000
  logs := []
  sent := []

/-- The callback of TownCrier. -/
def townCrier : Msg where
  sender := 2
  value := 0
  gasPrice := 1
  gasLeft := 0
  timestamp := 1500010000

theorem payout_exact_late : ∃ respData resp,
    EventHandler.answer (site (report "1500005400")) uninitialised EventHandler.TYPE_FLIGHT_INS
        (relayed (insured.storage.policies (insured.storage.idMap 1)).data) = .ok (0,respData) ∧
      FormTransaction.respB32 uninitialised.heap 0 respData = .ok resp ∧
      (Account.tried (response townCrier 1 0 (BitVec.ofNat 256 (value resp)) insured) =
          insured.attempts++[due insured.storage (insured.storage.idMap 1) (1500003600 : ℕ)
            1500005400] ↔ Scored (1500003600 : ℕ) 1500005400) :=
  payout_exact (by decide) (by decide) rfl rfl reported_late rfl

/-- A flight which left five minutes early pays five times the premium. -/
theorem early_flight_pays :
    EventHandler.answer (site (report "1500003300")) uninitialised EventHandler.TYPE_FLIGHT_INS
        (relayed (insured.storage.policies (insured.storage.idMap 1)).data) =
      .ok (0,fixed 32 4294966996) ∧
    Account.tried (response townCrier 1 0 (BitVec.ofNat 256 (value (fixed 32 4294966996))) insured) =
      [(7,1000000000000000000*PAYOUT_RATE,.payout 1)] := by
  refine ⟨answer_score (by decide) (by decide) rfl reported_early uninitialised,?_⟩
  rw [tried_response rfl,settlement_clearFee,if_pos (by decide)]
  rfl

end TownCrier.Insurance
