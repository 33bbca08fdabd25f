import TownCrier.Answers
import TownCrier.EncryptedQuery

/-!
# The two ways to ask for a flight

A plain request holds the identifier and the time in two words, an encrypted one
in a JSON object. Both end in `get_flight_delay`, where the plain handler brings
a variable without an initial value and the other one a zero.
-/
namespace TownCrier.FlightScraper
open BigEndian Cpp Encoding Https HybridCipher PicoJson

/-- The request of two words for a flight. -/
def plainQuery (flight : Bytes) (epoch : ℕ) : Bytes :=
  flight++List.replicate (32-flight.length) 0++fixed 32 epoch

/-- The error code, and the delay if there is no error. -/
def outcome (x : Exec (ErrCode × Int32)) : Exec (ErrCode × Option Int32) :=
  (fun p => (p.1,if p.1 = .noError then some p.2 else none)) <$> x

/-- What comes of an answer to a query for this time. -/
def verdict (epoch : UInt64) (answer : Fetch) : Exec (ErrCode × Option Int32) :=
  outcome ((fun x : FlightError × Int32 => report x.1 x.2 0) <$>
    getFlightDelay (fun _ => answer) epoch [] 0)

section Plain
variable {flight : Bytes} {epoch : ℕ}

theorem padded_length (h : flight.length ≤ 32) :
    (flight++List.replicate (32-flight.length) (0 : UInt8)).length = 32 := by
  rw [List.length_append,List.length_replicate]
  omega

theorem plainQuery_length (h : flight.length ≤ 32) : (plainQuery flight epoch).length = 64 := by
  rw [plainQuery,List.length_append,padded_length h,fixed_length]

theorem flightNumber_plainQuery (h : flight.length ≤ 32) (hnul : ∀ x ∈ flight, x ≠ 0) :
    flightNumber (plainQuery flight epoch) = flight := by
  rw [flightNumber,plainQuery,List.take_left' (padded_length h),cstr_zeros hnul]

theorem unixEpoch_plainQuery (h : flight.length ≤ 32) :
    unixEpoch (plainQuery flight epoch) = UInt64.ofNat epoch := by
  have hlow : (fixed 32 epoch).drop 24 = fixed 8 epoch := by
    rw [show 32 = 24+8 from rfl,fixed_add,List.drop_left' (fixed_length _ _)]
  apply UInt64.toNat_inj.mp
  rw [unixEpoch,plainQuery,List.drop_left' (padded_length h),
    uintBytes_toNat (by decide) (fixed_length _ _).ge,hlow,
    List.take_of_length_le (fixed_length _ _).le,value_fixed,UInt64.toNat_ofNat']
  norm_num

end Plain

theorem toInt64_natCast {epoch : ℕ} (h : epoch < 2^53) :
    (toInt64 (epoch : ℚ)).toUInt64 = UInt64.ofNat epoch := by
  have htrunc : truncate (epoch : ℚ) = epoch := truncate_intCast epoch
  rw [toInt64,htrunc,if_pos (by omega)]
  exact UInt64.toNat_inj.mp (congrArg BitVec.toNat (BitVec.ofInt_natCast 64 epoch))

section Agree
variable {web web' : Web} {epoch : UInt64} {flight flight' : Bytes}

/-- The variable comes back only if the flight has not departed. -/
theorem outcome_report {answer : Fetch} (h : ¬Answers.Undeparted answer) (epoch : UInt64)
    (flight : Bytes) (resp respData : Int32) :
    outcome ((fun x : FlightError × Int32 => report x.1 x.2 respData) <$>
      getFlightDelay (fun _ => answer) epoch flight resp) = verdict epoch answer := by
  have hconst : getFlightDelay (fun _ => answer) epoch [] 0 =
      getFlightDelay (fun _ => answer) epoch flight 0 := rfl
  rw [verdict,hconst]
  obtain ⟨r,d,hweb,hd⟩ | ⟨r,hweb,hlisted⟩ | hother := answer_cases answer
  · have hne : toUInt64 d ≠ 0 := by
      intro hzero
      rw [hweb] at h
      exact h ⟨d,hd,hzero⟩
    rw [getFlightDelay_reported hweb hd,getFlightDelay_reported hweb hd]
    simp only [classify,if_neg hne]
    split_ifs <;> rfl
  · rw [getFlightDelay_notListed hweb hlisted,getFlightDelay_notListed hweb hlisted]
    rfl
  · obtain ⟨x,hx,heq⟩ := @getFlightDelay_other (fun _ => answer) epoch flight hother
    rw [heq,heq]
    rcases hx with ⟨rfl | rfl,-⟩ | ⟨⟨e,rfl⟩,-⟩ <;> rfl

end Agree

theorem handleEncryptedQuery_eq {web : Web} {key : HybridKey} {data json : Bytes} {v : Value}
    {flight : Bytes} {time : ℚ} (hdecrypt : decryptQuery key data = .ok json)
    (hparse : parse json = .ok (.parsed v)) (hquery : query v = some (flight,time))
    (respData : Int32) :
    handleEncryptedQuery web key data respData =
      (fun x : FlightError × Int32 => report x.1 x.2 respData) <$>
        getFlightDelay web (toInt64 time).toUInt64 (cstr flight) 0 := by
  simp only [handleEncryptedQuery,hdecrypt,map_ok,catchExn_ok,bind_ok,hparse,hquery]
  rfl

/-- For one flight and one time the two handlers come to the same verdict, whatever
the variables hold, if and only if the flight has departed or the answer is none. -/
theorem flight_queries_agree_iff {web : Web} {key : HybridKey} {data json : Bytes} {v : Value}
    {flight : Bytes} {epoch : ℕ} (hlen : flight.length ≤ 32) (hnul : ∀ x ∈ flight, x ≠ 0)
    (hepoch : epoch < 2^53) (hdecrypt : decryptQuery key data = .ok json)
    (hparse : parse json = .ok (.parsed v)) (hquery : query v = some (flight,(epoch : ℚ))) :
    let answer := web (httpRequest (UInt64.ofNat epoch) flight)
    (∀ delay respData,
      outcome (handle web delay (plainQuery flight epoch) respData) =
          verdict (UInt64.ofNat epoch) answer ∧
        outcome (handleEncryptedQuery web key data respData) =
          verdict (UInt64.ofNat epoch) answer) ↔
      ¬Answers.Undeparted answer := by
  intro answer
  have hplain : ∀ delay respData, handle web delay (plainQuery flight epoch) respData =
      (fun x : FlightError × Int32 => report x.1 x.2 respData) <$>
        getFlightDelay (fun _ => answer) (UInt64.ofNat epoch) flight delay := by
    intro delay respData
    rw [handle_eq (plainQuery_length hlen),unixEpoch_plainQuery hlen,
      flightNumber_plainQuery hlen hnul]
    rfl
  have hsealed : ∀ respData, handleEncryptedQuery web key data respData =
      (fun x : FlightError × Int32 => report x.1 x.2 respData) <$>
        getFlightDelay (fun _ => answer) (UInt64.ofNat epoch) flight 0 := by
    intro respData
    rw [handleEncryptedQuery_eq hdecrypt hparse hquery,toInt64_natCast hepoch,cstr_eq hnul]
    rfl
  constructor
  · intro h hund
    obtain ⟨r,d,hweb,hd,hzero⟩ := hund.response
    have hdelay : ∀ delay, outcome (handle web delay (plainQuery flight epoch) 0) =
        .ok (.noError,some delay) := by
      intro delay
      have hreport := @getFlightDelay_reported (fun _ => answer) (UInt64.ofNat epoch) flight r d hweb
        hd delay
      rw [hplain,hreport,hzero]
      rfl
    have hsame := ((hdelay 1).symm.trans (h 1 0).1).trans ((hdelay 2).symm.trans (h 2 0).1).symm
    exact absurd hsame (by decide)
  · intro h delay respData
    rw [hplain,hsealed]
    exact ⟨outcome_report h _ _ _ _,outcome_report h _ _ _ _⟩

/-- An answer that reports a departure. -/
def departed (time : String) : HttpResponse where
  statusCode := 200
  content := ascii ("\x7b\"FlightInfoExResult\":\x7b\"flights\":[\x7b\"actualdeparturetime\":"++
    time++"\x7d]\x7d\x7d")

def flightJson : Bytes := ascii "\x7b\"flight\":\"FJM273\",\"time\":1500003600\x7d"

/-- Whatever comes in, `flightJson` comes out. -/
def jsonKey : HybridKey := ⟨true,true,fun _ => some flightJson⟩

/-- A base64 text that is long enough for the header. -/
def cipherText : Bytes := List.replicate 152 65

theorem decryptQuery_cipherText : decryptQuery jsonKey cipherText = .ok flightJson := by
  have hdecode : (decode (cstr cipherText)).toBool = true := by decide +kernel
  cases h : decode (cstr cipherText) with
  | ok ciphertext =>
      simp [decryptQuery,jsonKey,HybridKey.queryPubkey,HybridKey.hybridDecrypt,h,pure_eq_ok]
  | error e =>
      rw [h] at hdecode
      cases hdecode

/-- The query in a JSON text. -/
def jsonQuery (json : Bytes) : Option (Bytes × ℚ) :=
  match parse json with
  | .ok (.parsed v) => query v
  | _ => none

theorem jsonQuery_parsed {json : Bytes} {q : Bytes × ℚ} (h : jsonQuery json = some q) :
    ∃ v, parse json = .ok (.parsed v) ∧ query v = some q := by
  unfold jsonQuery at h
  split at h
  next v hparse => exact ⟨v,hparse,h⟩
  next => cases h

theorem jsonQuery_flightJson :
    jsonQuery flightJson = some (ascii "FJM273",((1500003600 : ℕ) : ℚ)) := by
  decide +kernel

theorem departed_late :
    reportedDeparture (departed "1500005400").content = some ((1500005400 : ℕ) : ℚ) := by
  decide +kernel

theorem departed_zero : reportedDeparture (departed "0").content = some 0 := by
  decide

theorem flight_queries_agree_departed :
    outcome (handle (fun _ => .response (departed "1500005400")) 7
        (plainQuery (ascii "FJM273") 1500003600) 0) =
      outcome (handleEncryptedQuery (fun _ => .response (departed "1500005400")) jsonKey
        cipherText 0) := by
  have hanswer : ¬Answers.Undeparted (.response (departed "1500005400")) := by
    rintro ⟨d,hd,hzero⟩
    cases departed_late.symm.trans hd
    exact absurd hzero (by decide +kernel)
  obtain ⟨v,hparse,hquery⟩ := jsonQuery_parsed jsonQuery_flightJson
  have hboth := (@flight_queries_agree_iff (fun _ => .response (departed "1500005400")) jsonKey
    cipherText flightJson v (ascii "FJM273") 1500003600 (by decide) (by decide +kernel) (by decide)
    decryptQuery_cipherText hparse hquery).mpr hanswer 7 0
  exact hboth.1.trans hboth.2.symm

/-- A flight that has not departed has the delay which the variable held. -/
theorem undeparted_queries_differ :
    outcome (handle (fun _ => .response (departed "0")) 7
        (plainQuery (ascii "FJM273") 1500003600) 0) = .ok (.noError,some 7) ∧
      outcome (handleEncryptedQuery (fun _ => .response (departed "0")) jsonKey cipherText 0) =
        .ok (.noError,some 0) := by
  have hzero : toUInt64 0 = 0 := by decide
  obtain ⟨v,hparse,hquery⟩ := jsonQuery_parsed jsonQuery_flightJson
  constructor
  · rw [handle_eq (plainQuery_length (by decide)),getFlightDelay_reported rfl departed_zero,hzero]
    rfl
  · rw [handleEncryptedQuery_eq decryptQuery_cipherText hparse hquery,
      getFlightDelay_reported rfl departed_zero,hzero]
    rfl

end TownCrier.FlightScraper
