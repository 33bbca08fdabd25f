import TownCrier.EventHandler

/-!
# Which memory ends up in an answer

An answer is determined if it has the 32 bytes that are copied, and if the copy
is the same whatever the unset variables and the heap hold. Three request types
let memory through: a missing fee, a flight that has not departed, and a short
text. For all others, and all other answers of the sites, the answer is determined.
-/
namespace TownCrier.Answers
open BigEndian Cpp Encoding EventHandler FormTransaction Https

/-- The response word of a run that gets as far as `form_transaction`. -/
def published (w : World) (mem : Memory) (type : UInt64) (data : Bytes) : Exec Bytes := do
  let (errorFlag,respData) ← answer w mem type data
  respB32 mem.heap errorFlag respData

def Determined (w : World) (type : UInt64) (data : Bytes) : Prop :=
  ∀ mem respData, answer w mem type data = .ok (0,respData) → 32 ≤ respData.length ∧
    ∀ mem', published w mem' type data = published w mem type data

/-- The flight has not departed, and its delay is nowhere set. -/
def Undeparted : Fetch → Prop
  | .response r => ∃ d, FlightScraper.reportedDeparture r.content = some d ∧ toUInt64 d = 0
  | _ => False

theorem Undeparted.response {f : Fetch} (h : Undeparted f) :
    ∃ r d, f = .response r ∧ FlightScraper.reportedDeparture r.content = some d ∧
      toUInt64 d = 0 := by
  cases f with
  | response r =>
      obtain ⟨d,hd,hzero⟩ := h
      exact ⟨r,d,rfl,hd,hzero⟩
  | noClient e => exact h.elim
  | noResponse e => exact h.elim

/-- Fewer than 32 characters, or none because of an error. -/
def Short : Fetch → Prop
  | .noClient _ => False
  | .noResponse e => e = .runtimeError
  | .response r => r.content.length < 32

/-- The requests whose answer shows memory. -/
def Exposed (w : World) (type : UInt64) (data : Bytes) : Prop :=
  type = TYPE_BITCOIN_FEE ∧ BitcoinFees.Unset (w.web BitcoinFees.httpRequest) ∨
  type = TYPE_FLIGHT_INS ∧ data.length = 64 ∧ Undeparted (w.web
    (FlightScraper.httpRequest (FlightScraper.unixEpoch data) (FlightScraper.flightNumber data))) ∨
  type = TYPE_WOLFRAM ∧ data.length = 32 ∧
    Short (w.web (WolframScraper.httpRequest (WolframScraper.query data)))

theorem map_eq_ok {A B : Type} {f : A → B} {x : Exec A} {b : B} (h : f <$> x = .ok b) :
    ∃ a, x = .ok a ∧ f a = b := by
  cases x with
  | ok a => exact ⟨a,rfl,Except.ok.inj h⟩
  | error e => cases h

theorem conclude_length {x : Exec (ErrCode × Int32)} {respData : Bytes}
    (h : conclude <$> x = .ok (0,respData)) : respData.length = 32 := by
  obtain ⟨⟨_ | _ | _ | _,n⟩,-,hc⟩ := map_eq_ok h
  · rw [conclude_noError] at hc
    rw [← (Prod.mk.inj hc).2,fixed_length]
  all_goals cases hc

theorem concludeFinance_length {x : Exec (ErrCode × Int32)} {respData : Bytes}
    (h : concludeFinance <$> x = .ok (0,respData)) : respData.length = 32 := by
  obtain ⟨⟨_ | _ | _ | _,n⟩,-,hc⟩ := map_eq_ok h
  · rw [concludeFinance_noError] at hc
    rw [← (Prod.mk.inj hc).2,fixed_length]
  all_goals cases hc

theorem published_eq {w : World} {mem : Memory} {type : UInt64} {data respData : Bytes}
    {errorFlag : UInt64} (h : answer w mem type data = .ok (errorFlag,respData)) :
    published w mem type data = respB32 mem.heap errorFlag respData := by
  rw [published,h]
  rfl

/-- Long answers that do not depend on memory are determined. -/
theorem determined_of_same {w : World} {type : UInt64} {data : Bytes}
    (hsame : ∀ mem mem', answer w mem' type data = answer w mem type data)
    (hlong : ∀ mem respData, answer w mem type data = .ok (0,respData) → 32 ≤ respData.length) :
    Determined w type data := by
  intro mem respData h
  have hlen := hlong mem respData h
  refine ⟨hlen,fun mem' => ?_⟩
  rw [published_eq h,published_eq ((hsame mem mem').trans h),respB32_long mem'.heap 0 hlen,
    respB32_long mem.heap 0 hlen]

theorem coinMarket_same (web : Web) (req : Bytes) (n n' : Int32) :
    conclude <$> CoinMarket.handle web req n' = conclude <$> CoinMarket.handle web req n := by
  unfold CoinMarket.handle
  split_ifs
  · rfl
  · rcases CoinMarket.getprice web (CoinMarket.coinId req) with (e | _) | price
    · cases e <;> rfl
    · rfl
    · rfl

theorem weather_same (web : Web) (req : Bytes) (n n' : Int32) :
    conclude <$> WeatherScraper.handle web req n' =
      conclude <$> WeatherScraper.handle web req n := by
  unfold WeatherScraper.handle WeatherScraper.weatherCurrent
  split_ifs
  · rfl
  · rfl
  simp only [map_bind]
  refine bind_congr fun resp => ?_
  cases resp with
  | none => rfl
  | some resp =>
      simp only [map_bind]
      refine bind_congr fun doc => ?_
      cases doc with
      | malformed v => rfl
      | parsed v =>
          by_cases hv : v.isObject = true
          · simp only [hv,not_true,if_false,map_bind]
            refine bind_congr fun v₁ => bind_congr fun results => ?_
            cases results <;> rfl
          · simp only [hv]
            rfl

theorem getSteamTransaction_same (web : Web) (apiKey cutoffTime : Bytes) (n n' : Int32) :
    conclude <$> SteamScraper.getSteamTransaction web apiKey cutoffTime n' =
      conclude <$> SteamScraper.getSteamTransaction web apiKey cutoffTime n := by
  unfold SteamScraper.getSteamTransaction
  simp only [map_bind]
  refine bind_congr fun _ => ?_
  rcases (web (SteamScraper.httpRequest apiKey cutoffTime)).getResponse with (e | _) | r
  · rfl
  · rfl
  · simp only [bind_ok]
    rcases PicoJson.parse r.content with (e | _) | v | v
    · rfl
    · rfl
    · simp only [bind_ok]
      by_cases hv : v.isObject = true
      · simp only [hv,not_true,if_false]
        rcases v.get "response" with (e | _) | v <;> rfl
      · simp only [hv]
        rfl
    · rfl

theorem steam_same (web : Web) (key : HybridCipher.HybridKey) (req : Bytes) (n n' : Int32) :
    conclude <$> SteamScraper.handle web key req n' =
      conclude <$> SteamScraper.handle web key req n := by
  unfold SteamScraper.handle
  simp only [map_bind]
  refine bind_congr fun json => ?_
  cases json with
  | none => rfl
  | some json =>
      simp only [map_bind]
      refine bind_congr fun doc => ?_
      cases doc with
      | malformed v => rfl
      | parsed v =>
          cases hq : SteamScraper.query v with
          | none => simp only [hq]; rfl
          | some q =>
              simp only [hq]
              exact getSteamTransaction_same web q.1 q.2 n n'

/-- All of memory shows the same number. -/
def filled (n : Int32) : Memory := ⟨n,n,n,fun _ => 0⟩

theorem not_determined {w : World} {type : UInt64} {data : Bytes}
    (h : ∀ n, answer w (filled n) type data = .ok (0,fixed 32 ((widen n).toNat%2^32))) :
    ¬Determined w type data := by
  intro hd
  have hsame := (hd (filled 0) _ (h 0)).2 (filled 1)
  rw [published_eq (h 0),published_eq (h 1),respB32_long _ 0 (fixed_length _ _).ge,
    respB32_long _ 0 (fixed_length _ _).ge] at hsame
  exact absurd (Except.ok.inj hsame) (by decide)

theorem bitcoinFee_determined_iff (w : World) (data : Bytes) :
    Determined w TYPE_BITCOIN_FEE data ↔ ¬BitcoinFees.Unset (w.web BitcoinFees.httpRequest) := by
  have hanswer : ∀ mem, answer w mem TYPE_BITCOIN_FEE data =
      conclude <$> BitcoinFees.handle w.web mem.fees mem.result := fun _ => rfl
  constructor
  · intro hd hunset
    refine not_determined (fun n => ?_) hd
    rw [hanswer,BitcoinFees.handle_unset hunset,map_ok,conclude_noError]
    rfl
  · intro hset
    refine determined_of_same (fun mem mem' => ?_) fun mem respData h => (conclude_length h).ge
    rw [hanswer,hanswer]
    obtain ⟨r,n,-,-,-,h⟩ | h := BitcoinFees.handle_set hset
    · rw [h,h]
    · rw [h,h]
      rfl

theorem flight_determined_iff (w : World) (data : Bytes) :
    Determined w TYPE_FLIGHT_INS data ↔ ¬(data.length = 64 ∧ Undeparted (w.web
      (FlightScraper.httpRequest (FlightScraper.unixEpoch data)
        (FlightScraper.flightNumber data)))) := by
  have hanswer : ∀ mem, answer w mem TYPE_FLIGHT_INS data =
      conclude <$> FlightScraper.handle w.web mem.delay data 0 := fun _ => rfl
  constructor
  · rintro hd ⟨hlen,hund⟩
    obtain ⟨r,d,hweb,hreport,hzero⟩ := hund.response
    refine not_determined (fun n => ?_) hd
    rw [hanswer,FlightScraper.handle_reported hlen hweb hreport,hzero]
    exact congrArg Except.ok (conclude_noError n)
  · intro hund
    refine determined_of_same (fun mem mem' => ?_) fun mem respData h => (conclude_length h).ge
    rw [hanswer,hanswer]
    by_cases hlen : data.length = 64
    · rw [FlightScraper.handle_eq hlen,FlightScraper.handle_eq hlen]
      obtain ⟨r,d,hweb,hd⟩ | ⟨r,hweb,hlisted⟩ | hother := FlightScraper.answer_cases (w.web
        (FlightScraper.httpRequest (FlightScraper.unixEpoch data)
          (FlightScraper.flightNumber data)))
      · have hne : toUInt64 d ≠ 0 := fun hzero => hund ⟨hlen,by rw [hweb]; exact ⟨d,hd,hzero⟩⟩
        rw [FlightScraper.getFlightDelay_reported hweb hd,
          FlightScraper.getFlightDelay_reported hweb hd]
        simp only [FlightScraper.classify,if_neg hne]
      · rw [FlightScraper.getFlightDelay_notListed hweb hlisted,
          FlightScraper.getFlightDelay_notListed hweb hlisted]
        rfl
      · obtain ⟨x,hx,h⟩ := FlightScraper.getFlightDelay_other hother
        rw [h,h]
        rcases hx with ⟨rfl | rfl,-⟩ | ⟨⟨e,rfl⟩,-⟩ <;> rfl
    · simp [FlightScraper.handle,hlen]

theorem wolfram_determined_iff (w : World) (data : Bytes) :
    Determined w TYPE_WOLFRAM data ↔ ¬(data.length = 32 ∧
      Short (w.web (WolframScraper.httpRequest (WolframScraper.query data)))) := by
  have hanswer : ∀ mem, answer w mem TYPE_WOLFRAM data =
      concludeWolfram <$> WolframScraper.handle w.web data [] := fun _ => rfl
  have hsame : ∀ mem mem', answer w mem' TYPE_WOLFRAM data = answer w mem TYPE_WOLFRAM data :=
    fun mem mem' => (hanswer mem').trans (hanswer mem).symm
  by_cases hlen : data.length = 32
  · have heq := WolframScraper.handle_eq w.web hlen []
    rw [and_iff_right hlen]
    rcases hweb : w.web (WolframScraper.httpRequest (WolframScraper.query data)) with
      e | (_ | _) | r
    · rw [hweb] at heq
      refine iff_of_true (determined_of_same hsame fun mem _ h => ?_) not_false
      rw [hanswer,heq] at h
      cases h
    · rw [hweb] at heq
      refine iff_of_false (fun hd => ?_) (not_not.mpr rfl)
      have h := (hd (filled 0) [] (by rw [hanswer,heq]; rfl)).1
      simp at h
    · rw [hweb] at heq
      refine iff_of_true (determined_of_same hsame fun mem _ h => ?_) nofun
      rw [hanswer,heq] at h
      cases h
    · rw [hweb] at heq
      have hvalue : ∀ mem, answer w mem TYPE_WOLFRAM data = .ok (0,r.content) := fun mem => by
        rw [hanswer,heq]
        rfl
      rw [Short,not_lt]
      constructor
      · intro hd
        exact (hd (filled 0) _ (hvalue _)).1
      · intro hlong
        refine determined_of_same hsame fun mem _ h => ?_
        rw [hvalue] at h
        cases h
        exact hlong
  · refine iff_of_true (determined_of_same hsame fun mem respData h => ?_)
      fun h => hlen h.1
    rw [hanswer,WolframScraper.handle,if_pos hlen] at h
    cases h

/-- For every request type, every data and every behaviour of the site: the
answer is determined unless it is one of the three that let memory through. -/
theorem answer_determined_iff (w : World) (type : UInt64) (data : Bytes) :
    Determined w type data ↔ ¬Exposed w type data := by
  by_cases hbitcoin : type = TYPE_BITCOIN_FEE
  · subst hbitcoin
    rw [bitcoinFee_determined_iff,Exposed]
    simp [show TYPE_BITCOIN_FEE ≠ TYPE_FLIGHT_INS by decide,
      show TYPE_BITCOIN_FEE ≠ TYPE_WOLFRAM by decide]
  by_cases hflight : type = TYPE_FLIGHT_INS
  · subst hflight
    rw [flight_determined_iff,Exposed]
    simp [hbitcoin,show TYPE_FLIGHT_INS ≠ TYPE_WOLFRAM by decide]
  by_cases hwolfram : type = TYPE_WOLFRAM
  · subst hwolfram
    rw [wolfram_determined_iff,Exposed]
    simp [hbitcoin,hflight]
  refine iff_of_true ?_ (by simp [Exposed,hbitcoin,hflight,hwolfram])
  apply determined_of_same
  · intro mem mem'
    simp only [answer,hbitcoin,hflight,hwolfram,if_false,steam_same w.web w.key data mem.result,
      coinMarket_same w.web data mem.result,weather_same w.web data mem.result]
  · intro mem respData h
    simp only [answer,hbitcoin,hflight,hwolfram,if_false] at h
    split_ifs at h
    · exact (conclude_length h).ge
    · exact (concludeFinance_length h).ge
    · cases h
    · exact (conclude_length h).ge
    · exact (conclude_length h).ge
    · exact (conclude_length h).ge
    · cases h

/-- A site that answers every request with a two-letter text. -/
def terse : World where
  web := fun _ => .response ⟨200,ascii "no"⟩
  key := ⟨true,false,fun _ => none⟩

/-- Thirty bytes behind the text are copied with it. -/
theorem short_text_exposes_heap :
    answer terse (filled 0) TYPE_WOLFRAM (List.replicate 32 97) = .ok (0,ascii "no") ∧
      published terse (filled 0) TYPE_WOLFRAM (List.replicate 32 97) ≠
        published terse {filled 0 with heap := fun _ => 1} TYPE_WOLFRAM (List.replicate 32 97) := by
  have heq : ∀ mem, answer terse mem TYPE_WOLFRAM (List.replicate 32 97) = .ok (0,ascii "no") :=
    fun _ => rfl
  refine ⟨heq _,?_⟩
  rw [published_eq (heq _),published_eq (heq _)]
  decide

end TownCrier.Answers
