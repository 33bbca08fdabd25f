import TownCrier.Contract
import TownCrier.EventHandler

/-!
# Who pays for a failure of the service

The contract refunds a requester from error 2 on. A handler spares the requester
if it returns and blames the site or itself. For each type of request this module
says what must come from the site for that.
-/
namespace TownCrier.Failures
open BigEndian Cpp Encoding EventHandler Https HybridCipher PicoJson

def Parseable (content : Bytes) : Prop := ∃ v, parse content = .ok (.parsed v)

/-- The client throws, the status is not 200, or the body cannot be read. -/
def Fails (readable : Bytes → Prop) : Fetch → Prop
  | .response r => r.statusCode ≠ 200 ∨ ¬readable r.content
  | _ => True

/-- With status 200 only a number that is too large for the parser blames the site. -/
def BitcoinExcused : Fetch → Prop
  | .response r => r.statusCode = 200 ∧ ∃ f, parse r.content = .error f
  | _ => True

/-- The body is no answer about flights, and no empty list of them. -/
def FlightExcused : Fetch → Prop
  | .noClient _ => False
  | .noResponse e => e = .runtimeError
  | .response r => FlightScraper.reportedDeparture r.content = none ∧
      ¬FlightScraper.NotListed r.content ∧ ¬FlightScraper.NoFlights r.content

/-- The entry for the results is empty or has a price. -/
def Quoted (v : Value) : Prop :=
  ∃ results, (do (← v.get "query").get "results") = .ok results ∧
    (results.evaluateAsBoolean = false ∨
      ∃ s, (do (← results.get "quote").get "Close") = .ok (.string s))

/-- The body does not parse, or has neither an empty result nor a price. -/
def StockExcused : Fetch → Prop
  | .noClient _ => False
  | .noResponse e => e = .runtimeError
  | .response r => (∃ v, parse r.content = .ok (.malformed v)) ∨
      ∃ v, parse r.content = .ok (.parsed v) ∧ ¬Quoted v

/-- An array of one element which is no object is all that `_getprice` cannot look at. -/
def Opaque (v : Value) : Prop := ∃ x, v = .array [x] ∧ x.isObject = false

def CoinExcused : Fetch → Prop
  | .response r => (∃ f, parse r.content = .error f) ∨
      (∃ v, parse r.content = .ok (.parsed v) ∧ Opaque v) ∨
      ∃ v, parse r.content = .ok (.malformed v) ∧
        CoinMarket.manualParseResponse (cstr r.content) = .ok (.finite 0) ∧ Opaque v
  | _ => True

/-- Only a null result blames the site. -/
def WeatherExcused : Fetch → Prop
  | .noClient _ => False
  | .noResponse e => e = .runtimeError
  | .response r => ∃ v v₁, parse r.content = .ok (.parsed v) ∧
      WeatherScraper.second v "query" = .ok v₁ ∧ WeatherScraper.second v₁ "results" = .ok .null

/-- As for the fees, but the constructor of the client is outside the `try` block. -/
def SteamExcused : Fetch → Prop
  | .noClient _ => False
  | .noResponse _ => True
  | .response r => ∃ f, parse r.content = .error f

/-- The handler returns, and blames the service. -/
def Spared {A : Type} (x : Exec (ErrCode × A)) : Prop :=
  ∃ c a, x = .ok (c,a) ∧ (c = .webError ∨ c = .unknownError)

theorem not_spared_error {A : Type} {f : Fault} : ¬Spared (.error f : Exec (ErrCode × A)) := by
  rintro ⟨c,a,h,-⟩
  cases h

theorem spared_ok {A : Type} {c : ErrCode} {a : A} :
    Spared (.ok (c,a) : Exec (ErrCode × A)) ↔ c = .webError ∨ c = .unknownError := by
  constructor
  · rintro ⟨c',a',heq,h⟩
    cases heq
    exact h
  · intro h
    exact ⟨c,a,rfl,h⟩

theorem spared_webError {A : Type} {a : A} : Spared (.ok (.webError,a) : Exec (ErrCode × A)) :=
  spared_ok.mpr (.inl rfl)

theorem not_spared {A : Type} {c : ErrCode} {a : A} (h : ¬(c = .webError ∨ c = .unknownError)) :
    ¬Spared (.ok (c,a) : Exec (ErrCode × A)) := fun hs => h (spared_ok.mp hs)

/-- An error flag reaches `form_transaction`, and it leads to a refund. -/
def Refunded (x : Exec (UInt64 × Bytes)) : Prop := ∃ flag respData, x = .ok (flag,respData) ∧ 2 ≤ flag

/-- A ladder which gives the right error codes a high flag. -/
theorem refunded_map {A : Type} {ladder : ErrCode × A → UInt64 × Bytes}
    (h : ∀ c a, 2 ≤ (ladder (c,a)).1 ↔ c = .webError ∨ c = .unknownError)
    (x : Exec (ErrCode × A)) : Refunded (ladder <$> x) ↔ Spared x := by
  rcases x with f | ⟨c,a⟩
  · refine iff_of_false ?_ not_spared_error
    rintro ⟨flag,respData,heq,-⟩
    cases heq
  · rw [map_ok,spared_ok,← h c a]
    constructor
    · rintro ⟨flag,respData,heq,hle⟩
      rw [Except.ok.inj heq]
      exact hle
    · intro hle
      exact ⟨_,_,rfl,hle⟩

theorem refunded_conclude (x : Exec (ErrCode × Int32)) :
    Refunded (conclude <$> x) ↔ Spared x := by
  refine refunded_map (fun c n => ?_) x
  cases c <;> simp [conclude,TC_INPUT_ERROR,TC_INTERNAL_ERROR]

theorem refunded_concludeFinance (x : Exec (ErrCode × Int32)) :
    Refunded (concludeFinance <$> x) ↔ Spared x := by
  refine refunded_map (fun c n => ?_) x
  cases c <;> simp [concludeFinance,TC_ERR_FLAG_INVALID_INPUT,TC_INTERNAL_ERROR,
    TC_ERR_FLAG_INTERNAL_ERR]

theorem refunded_concludeWolfram (x : Exec (ErrCode × Bytes)) :
    Refunded (concludeWolfram <$> x) ↔ Spared x := by
  refine refunded_map (fun c s => ?_) x
  cases c <;> simp [concludeWolfram,TC_INPUT_ERROR,TC_INTERNAL_ERROR]

theorem spared_bitcoinFee (web : Web) (fees responseData : Int32) :
    Spared (BitcoinFees.handle web fees responseData) ↔
      BitcoinExcused (web BitcoinFees.httpRequest) := by
  by_cases hunset : BitcoinFees.Unset (web BitcoinFees.httpRequest)
  · rw [BitcoinFees.handle_unset hunset]
    refine iff_of_false (not_spared (by decide)) ?_
    obtain ⟨r,hweb,hcase⟩ := hunset.response
    rw [hweb]
    rintro ⟨hstatus,f,hparse⟩
    obtain ⟨doc,hdoc,-⟩ := hcase.resolve_left (not_not.mpr hstatus)
    exact ne_ok hparse _ hdoc
  · obtain ⟨r,n,hweb,-,⟨doc,hdoc⟩,h⟩ | h := BitcoinFees.handle_set hunset
    · rw [h,hweb]
      refine iff_of_false (not_spared (by decide)) ?_
      rintro ⟨-,f,hparse⟩
      exact ne_ok hparse _ hdoc
    · rw [h]
      refine iff_of_true spared_webError ?_
      rcases hweb : web BitcoinFees.httpRequest with e | e | r
      · trivial
      · trivial
      · rw [hweb,BitcoinFees.Unset,not_or,not_not] at hunset
        refine ⟨hunset.1,?_⟩
        rcases hparse : parse r.content with f | doc
        · exact ⟨f,rfl⟩
        · obtain hblame := h 0 0
          rw [BitcoinFees.handle,BitcoinFees.getRecommendedFees_eq hweb hunset.1 hparse] at hblame
          cases hblame

theorem report_classify (delay : Int32) (actual epoch : UInt64) (respData : Int32) :
    ∃ n, FlightScraper.report (FlightScraper.classify delay actual epoch).1
      (FlightScraper.classify delay actual epoch).2 respData = (.noError,n) := by
  unfold FlightScraper.classify
  split_ifs <;> exact ⟨_,rfl⟩

theorem excused_iff {f : Fetch} (h : ∀ r, f = .response r →
    FlightScraper.reportedDeparture r.content = none ∧ ¬FlightScraper.NotListed r.content) :
    FlightExcused f ↔ ¬FlightScraper.Lost f := by
  rcases f with e | (_ | _) | r
  · exact iff_of_false not_false (not_not.mpr trivial)
  · exact iff_of_true rfl (by simp [FlightScraper.Lost])
  · exact iff_of_false (by simp [FlightExcused]) (not_not.mpr rfl)
  · obtain ⟨hnone,hlisted⟩ := h r rfl
    constructor
    · intro hex
      exact hex.2.2
    · intro hlost
      exact ⟨hnone,hlisted,hlost⟩

/-- Both flight handlers end this way. -/
theorem spared_flight (web : Web) (epoch : UInt64) (flight : Bytes) (resp respData : Int32) :
    Spared ((fun x : FlightScraper.FlightError × Int32 => FlightScraper.report x.1 x.2 respData) <$>
        FlightScraper.getFlightDelay web epoch flight resp) ↔
      FlightExcused (web (FlightScraper.httpRequest epoch flight)) := by
  obtain ⟨r,d,hweb,hd⟩ | ⟨r,hweb,hlisted⟩ | hother :=
    FlightScraper.answer_cases (web (FlightScraper.httpRequest epoch flight))
  · rw [FlightScraper.getFlightDelay_reported hweb hd,map_ok,hweb]
    obtain ⟨n,hn⟩ := report_classify resp (toUInt64 d) epoch respData
    rw [hn]
    refine iff_of_false (not_spared (by decide)) ?_
    rintro ⟨hnone,-⟩
    exact absurd (hnone.symm.trans hd) (by simp)
  · rw [FlightScraper.getFlightDelay_notListed hweb hlisted,map_ok,hweb]
    exact iff_of_false (not_spared (by decide)) fun hex => hex.2.1 hlisted
  · obtain ⟨x,hx,h⟩ := FlightScraper.getFlightDelay_other hother
    rw [h,excused_iff hother]
    obtain ⟨rfl | rfl,hlost⟩ | ⟨⟨e,rfl⟩,hlost⟩ := hx
    · exact iff_of_true spared_webError hlost
    · exact iff_of_true (spared_ok.mpr (.inr rfl)) hlost
    · exact iff_of_false not_spared_error (not_not.mpr hlost)

/-- The `try` block of the stock handler. -/
theorem spared_closing (v : Value) (respData : Int32) :
    Spared (catchExn (YahooYqlStock.closing v respData) fun _ => pure (.webError,respData)) ↔
      ¬Quoted v := by
  rw [YahooYqlStock.closing,← bind_assoc,Quoted]
  obtain ⟨results,hresults⟩ | hresults := v.get_get_or "query" "results"
  · rw [hresults,bind_ok]
    by_cases hempty : results.evaluateAsBoolean = false
    · simp only [hempty]
      exact iff_of_false (not_spared (by decide)) (not_not.mpr ⟨results,rfl,.inl hempty⟩)
    · have htrue : results.evaluateAsBoolean = true := Bool.eq_true_of_not_eq_false hempty
      simp only [htrue,not_true,if_false]
      have hnone (hx : ∀ s, (do (← results.get "quote").get "Close") ≠ .ok (.string s)) :
          ¬∃ results', (.ok results : Exec Value) = .ok results' ∧
            (results'.evaluateAsBoolean = false ∨
              ∃ s, (do (← results'.get "quote").get "Close") = .ok (.string s)) := by
        rintro ⟨results',h,hcase⟩
        cases h
        rcases hcase with h | ⟨s,h⟩
        · exact hempty h
        · exact hx s h
      rw [← bind_assoc]
      obtain ⟨x,hx⟩ | hx := results.get_get_or "quote" "Close"
      · rw [hx,bind_ok]
        cases x with
        | string s =>
            exact iff_of_false (not_spared (by decide)) (not_not.mpr ⟨results,rfl,.inr ⟨s,hx⟩⟩)
        | _ =>
            exact iff_of_true (spared_webError) (hnone (by simp [hx]))
      · rw [hx]
        exact iff_of_true (spared_webError) (hnone (by simp [hx,raise]))
  · rw [hresults]
    refine iff_of_true (spared_webError) ?_
    rintro ⟨results,h,-⟩
    cases h

theorem spared_stock {web : Web} {symbol : Bytes} {date : Gmtime.Date}
    (h : ¬YahooYqlStock.refused symbol date) (respData : Int32) :
    Spared (YahooYqlStock.handleOne web symbol date respData) ↔
      StockExcused (web (YahooYql.httpRequest
        (YahooYql.queryUrl (YahooYqlStock.yql symbol date) .json YahooYql.tables))) := by
  have hexec := YahooYql.execute_eq web (YahooYqlStock.yql_ne_nil symbol date) .json YahooYql.tables
  unfold YahooYqlStock.handleOne
  rw [if_neg h]
  rcases hweb : web (YahooYql.httpRequest
    (YahooYql.queryUrl (YahooYqlStock.yql symbol date) .json YahooYql.tables)) with e | (_ | _) | r
  all_goals rw [hweb] at hexec
  · rw [hexec]
    exact iff_of_false not_spared_error not_false
  · rw [hexec]
    exact iff_of_true spared_webError rfl
  · rw [hexec]
    exact iff_of_false not_spared_error (by simp [StockExcused])
  · rw [hexec]
    simp only [bind_ok,StockExcused]
    rcases hparse : parse r.content with f | v | v
    · exact iff_of_false not_spared_error (by simp)
    · simp only [bind_ok,Except.ok.injEq,Document.parsed.injEq,reduceCtorEq,exists_false,false_or,
        exists_eq_left']
      by_cases hv : v.isObject = true
      · simp only [hv,not_true,if_false]
        exact spared_closing v respData
      · simp only [hv]
        refine iff_of_true spared_webError ?_
        rintro ⟨results,h,-⟩
        rw [Value.get_of_not (Bool.eq_false_of_not_eq_true hv)] at h
        cases h
    · exact iff_of_true spared_webError (.inl ⟨v,rfl⟩)

/-- The exception classes of `_getprice`: one for the user, another for the site. -/
theorem price_cases (v : Value) :
    (Opaque v ∧ CoinMarket.price v = raise .runtimeError) ∨
      (¬Opaque v ∧ ((∃ n, CoinMarket.price v = .ok n) ∨
        CoinMarket.price v = raise .invalidArgument)) := by
  rcases v with _ | _ | _ | _ | items | _
  case array =>
    rcases items with _ | ⟨x,_ | ⟨y,rest⟩⟩
    case cons.nil =>
      obtain ⟨fields,rfl⟩ | hx := x.object_or
      · refine .inr ⟨?_,?_⟩
        · rintro ⟨x,h,hx⟩
          cases h
          cases hx
        · simp only [CoinMarket.price,Value.asObject_object,bind_ok]
          split
          · exact .inl ⟨_,rfl⟩
          · exact .inr rfl
      · refine .inl ⟨⟨x,rfl,hx⟩,?_⟩
        rw [CoinMarket.price,Value.asObject_of_not hx]
        rfl
    all_goals exact .inr ⟨nofun,.inr rfl⟩
  all_goals exact .inr ⟨nofun,.inr rfl⟩

/-- Every exception class but `invalid_argument` blames the service. -/
theorem spared_price {web : Web} {req : Bytes} (hlen : req.length = 32) (respData : Int32) :
    Spared (CoinMarket.handle web req respData) ↔
      ∃ e, e ≠ .invalidArgument ∧ CoinMarket.getprice web (CoinMarket.coinId req) = raise e := by
  rw [CoinMarket.handle,if_neg (not_not.mpr hlen)]
  rcases CoinMarket.getprice web (CoinMarket.coinId req) with (e | _) | n
  · cases e with
    | invalidArgument =>
        refine iff_of_false (not_spared (by decide)) ?_
        rintro ⟨e,hne,h⟩
        cases h
        exact hne rfl
    | _ => exact iff_of_true spared_webError ⟨_,by decide,rfl⟩
  · refine iff_of_false not_spared_error ?_
    rintro ⟨e,-,h⟩
    cases h
  · refine iff_of_false (not_spared (by decide)) ?_
    rintro ⟨e,-,h⟩
    cases h

theorem spares_price (v : Value) :
    (∃ e, e ≠ .invalidArgument ∧ CoinMarket.price v = raise e) ↔ Opaque v := by
  obtain ⟨hop,hprice⟩ | ⟨hop,⟨n,hprice⟩ | hprice⟩ := price_cases v
  · exact iff_of_true ⟨_,by decide,hprice⟩ hop
  · rw [hprice]
    refine iff_of_false ?_ hop
    rintro ⟨e,-,h⟩
    cases h
  · rw [hprice]
    refine iff_of_false ?_ hop
    rintro ⟨e,hne,h⟩
    cases h
    exact hne rfl

/-- The scan never throws: it finds a quote, or runs on behind the string. -/
theorem manualParse_error {resp : Bytes} {f : Fault}
    (h : CoinMarket.manualParseResponse resp = .error f) : f = .undefined := by
  unfold CoinMarket.manualParseResponse at h
  split at h
  · cases h
  · split_ifs at h
    · cases h
    · exact (Except.error.inj h).symm

theorem spared_coin {web : Web} {req : Bytes} (hlen : req.length = 32) (respData : Int32) :
    Spared (CoinMarket.handle web req respData) ↔
      CoinExcused (web (CoinMarket.httpRequest (CoinMarket.coinId req))) := by
  rw [spared_price hlen]
  rcases hweb : web (CoinMarket.httpRequest (CoinMarket.coinId req)) with e | e | r
  · refine iff_of_true ⟨e.exn,by cases e <;> decide,?_⟩ trivial
    simp [CoinMarket.getprice,hweb,Fetch.client]
  · refine iff_of_true ⟨e.exn,by cases e <;> decide,?_⟩ trivial
    simp [CoinMarket.getprice,hweb,Fetch.client,Fetch.getResponse,pure_eq_ok]
  rcases hparse : parse r.content with f | v | v
  · refine iff_of_true ⟨.overflowError,by decide,?_⟩ (.inl ⟨f,hparse⟩)
    obtain rfl := parse_error hparse
    simp [CoinMarket.getprice,hweb,Fetch.client,Fetch.getResponse,hparse,pure_eq_ok,raise]
  · have hprice : CoinMarket.getprice web (CoinMarket.coinId req) = CoinMarket.price v := by
      simp [CoinMarket.getprice,hweb,Fetch.client,Fetch.getResponse,hparse,pure_eq_ok]
    rw [hprice,spares_price]
    simp [CoinExcused,hparse]
  · have hprice : CoinMarket.getprice web (CoinMarket.coinId req) = (do
        let result ← CoinMarket.manualParseResponse (cstr r.content)
        if result ≠ .finite 0 then pure result.toInt32 else CoinMarket.price v) := by
      simp [CoinMarket.getprice,hweb,Fetch.client,Fetch.getResponse,hparse,pure_eq_ok]
    have hread : CoinExcused (.response r) ↔
        CoinMarket.manualParseResponse (cstr r.content) = .ok (.finite 0) ∧ Opaque v := by
      simp [CoinExcused,hparse]
    rw [hprice,hread]
    rcases hmanual : CoinMarket.manualParseResponse (cstr r.content) with f | d
    · obtain rfl := manualParse_error hmanual
      refine iff_of_false ?_ (fun h => by cases h.1)
      rintro ⟨e,-,h⟩
      cases h
    · rw [bind_ok]
      by_cases hzero : d = .finite 0
      · rw [if_neg (not_not.mpr hzero),spares_price,hzero]
        exact (and_iff_right rfl).symm
      · rw [if_pos hzero]
        refine iff_of_false ?_ fun h => hzero (Except.ok.inj h.1)
        rintro ⟨e,-,h⟩
        cases h

/-- No response and no exception that the handler catches blames the service. -/
theorem not_spared_wolfram {web : Web} {req : Bytes} (hlen : req.length = 32) (output : Bytes) :
    ¬Spared (WolframScraper.handle web req output) := by
  rw [WolframScraper.handle_eq web hlen]
  rcases web (WolframScraper.httpRequest (WolframScraper.query req)) with e | (_ | _) | r
  · exact not_spared_error
  · exact not_spared (by decide)
  · exact not_spared_error
  · exact not_spared (by decide)

theorem spared_steam (web : Web) (apiKey cutoffTime : Bytes) (resp : Int32) :
    Spared (SteamScraper.getSteamTransaction web apiKey cutoffTime resp) ↔
      SteamExcused (web (SteamScraper.httpRequest apiKey cutoffTime)) := by
  rcases hweb : web (SteamScraper.httpRequest apiKey cutoffTime) with e | e | r
  · simp only [SteamScraper.getSteamTransaction,hweb,Fetch.client,bind_raise]
    exact iff_of_false not_spared_error not_false
  · simp only [SteamScraper.getSteamTransaction,hweb,Fetch.client,Fetch.getResponse,bind_raise,
      pure_bind,catchExn_raise]
    exact iff_of_true spared_webError trivial
  · simp only [SteamScraper.getSteamTransaction,hweb,Fetch.client,Fetch.getResponse,pure_bind]
    have hread {doc : Document} (hdoc : parse r.content = .ok doc) :
        ¬SteamExcused (.response r) := by
      rintro ⟨f,hf⟩
      exact ne_ok hf _ hdoc
    rcases hparse : parse r.content with f | v | v
    · obtain rfl := parse_error hparse
      exact iff_of_true spared_webError ⟨_,hparse⟩
    · refine iff_of_false ?_ (hread hparse)
      obtain ⟨fields,rfl⟩ | hv := v.object_or
      · simp only [bind_ok,Value.isObject_object,Value.get_object,not_true,if_false]
        exact not_spared (by decide)
      · simp only [bind_ok,hv]
        exact not_spared (by decide)
    · exact iff_of_false (not_spared (by decide)) (hread hparse)

/-- The part of `weather_current` behind the check for an object. -/
theorem spared_temperature (v : Value) (r : Int32) :
    Spared (do
      let v₁ ← WeatherScraper.second v "query"
      match ← WeatherScraper.second v₁ "results" with
      | .null => pure (ErrCode.webError,r)
      | results => return (ErrCode.noError,← WeatherScraper.temperature results)) ↔
      ∃ v₁, WeatherScraper.second v "query" = .ok v₁ ∧
        WeatherScraper.second v₁ "results" = .ok .null := by
  rcases h₁ : WeatherScraper.second v "query" with f | v₁
  · exact iff_of_false not_spared_error (by simp)
  simp only [bind_ok,Except.ok.injEq,exists_eq_left']
  rcases h₂ : WeatherScraper.second v₁ "results" with f | results
  · exact iff_of_false not_spared_error (by simp)
  simp only [bind_ok,Except.ok.injEq]
  have hanswers (x : Exec Int32) : ¬Spared (do return (ErrCode.noError,← x)) := by
    rcases x with f | n
    · exact not_spared_error
    · exact not_spared (by decide)
  cases results
  case null => exact iff_of_true spared_webError rfl
  all_goals exact iff_of_false (hanswers _) (by simp)

theorem spared_weather {web : Web} {city : Bytes} (hcity : city ≠ []) (r : Int32) :
    Spared (WeatherScraper.weatherCurrent web city r) ↔
      WeatherExcused (web (YahooYql.httpRequest
        (YahooYql.queryUrl (WeatherScraper.constructQuery city) .json YahooYql.tables))) := by
  have hquery : WeatherScraper.constructQuery city ≠ [] := by
    simp only [WeatherScraper.constructQuery,List.append_assoc]
    exact List.cons_ne_nil _ _
  have hexec := YahooYql.execute_eq web hquery .json YahooYql.tables
  unfold WeatherScraper.weatherCurrent
  rw [if_neg hcity]
  rcases hweb : web (YahooYql.httpRequest
    (YahooYql.queryUrl (WeatherScraper.constructQuery city) .json YahooYql.tables)) with
      e | (_ | _) | resp
  all_goals rw [hweb] at hexec
  · rw [hexec]
    exact iff_of_false not_spared_error not_false
  · rw [hexec]
    exact iff_of_true spared_webError rfl
  · rw [hexec]
    exact iff_of_false not_spared_error (by simp [WeatherExcused])
  · rw [hexec]
    simp only [bind_ok]
    rcases hparse : parse resp.content with f | v | v
    · exact iff_of_false not_spared_error (by simp [WeatherExcused,hparse])
    · have hread : WeatherExcused (.response resp) ↔
          ∃ v₁, WeatherScraper.second v "query" = .ok v₁ ∧
            WeatherScraper.second v₁ "results" = .ok .null := by
        simp [WeatherExcused,hparse]
      rw [hread]
      by_cases hv : v.isObject = true
      · simp only [bind_ok,hv,not_true,if_false]
        exact spared_temperature v r
      · simp only [bind_ok,hv]
        refine iff_of_false (not_spared (by decide)) ?_
        rintro ⟨v₁,h,-⟩
        rw [WeatherScraper.second,Value.asObject_of_not (Bool.eq_false_of_not_eq_true hv)] at h
        cases h
    · exact iff_of_false (not_spared (by decide)) (by simp [WeatherExcused,hparse])

/-- What a well-formed request asks for. -/
inductive Query where
  | bitcoinFee
  | flight (epoch : UInt64) (number : Bytes)
  | encryptedFlight (epoch : UInt64) (number : Bytes)
  | stock (symbol : Bytes) (date : Gmtime.Date)
  | coin (coinId : Bytes)
  | weather (city : Bytes)
  | wolfram (query : Bytes)
  | steam (apiKey cutoffTime : Bytes)

namespace Query

def encrypted : Query → Bool
  | .encryptedFlight _ _ | .steam _ _ => true
  | _ => false

def httpRequest : Query → HttpRequest
  | .bitcoinFee => BitcoinFees.httpRequest
  | .flight epoch number | .encryptedFlight epoch number => FlightScraper.httpRequest epoch number
  | .stock symbol date => YahooYql.httpRequest
      (YahooYql.queryUrl (YahooYqlStock.yql symbol date) .json YahooYql.tables)
  | .coin coinId => CoinMarket.httpRequest coinId
  | .weather city => YahooYql.httpRequest
      (YahooYql.queryUrl (WeatherScraper.constructQuery city) .json YahooYql.tables)
  | .wolfram query => WolframScraper.httpRequest query
  | .steam apiKey cutoffTime => SteamScraper.httpRequest apiKey cutoffTime

/-- Plain text is always readable. -/
def readable : Query → Bytes → Prop
  | .flight _ _, content | .encryptedFlight _ _, content => Parseable (cstr content)
  | .wolfram _, _ => True
  | _, content => Parseable content

/-- The outcomes of the fetch that leave the fee with the requester. -/
def excused : Query → Fetch → Prop
  | .bitcoinFee => BitcoinExcused
  | .flight _ _ | .encryptedFlight _ _ => FlightExcused
  | .stock _ _ => StockExcused
  | .coin _ => CoinExcused
  | .weather _ => WeatherExcused
  | .wolfram _ => fun _ => False
  | .steam _ _ => SteamExcused

end Query

/-- A query encrypted to the enclave, whether or not the enclave has its key. -/
def Seals (key : HybridKey) (data : Bytes) (v : Value) : Prop :=
  ∃ ciphertext cleartext, decode (cstr data) = .ok ciphertext ∧
    key.decrypt ciphertext = some cleartext ∧ parse cleartext = .ok (.parsed v)

/-- The well-formed requests: what passes the checks of its handler. -/
inductive Asks (key : HybridKey) : UInt64 → Bytes → Query → Prop
  | bitcoinFee (data : Bytes) : Asks key TYPE_BITCOIN_FEE data .bitcoinFee
  | flight {data : Bytes} (hlen : data.length = 64) : Asks key TYPE_FLIGHT_INS data
      (.flight (FlightScraper.unixEpoch data) (FlightScraper.flightNumber data))
  | encryptedFlight {data flight : Bytes} {time : ℚ} {v : Value} (hseal : Seals key data v)
      (hquery : FlightScraper.query v = some (flight,time)) : Asks key TYPE_FLIGHT_INS_ENC data
      (.encryptedFlight (toInt64 time).toUInt64 (cstr flight))
  | stock {data : Bytes} {date : Gmtime.Date} (hlen : data.length = 64)
      (htime : ¬YahooYqlStock.unixEpoch data > 0xF4865700)
      (hdate : Gmtime.gmtimeTc (YahooYqlStock.unixEpoch data) = .ok date)
      (hrefused : ¬YahooYqlStock.refused (YahooYqlStock.symbol data) date) :
      Asks key TYPE_FINANCE_INFO data (.stock (YahooYqlStock.symbol data) date)
  | coin {data : Bytes} (hlen : data.length = 32) :
      Asks key TYPE_COINMARKET data (.coin (CoinMarket.coinId data))
  | weather {data : Bytes} (hlen : data.length = 32) (hcity : WeatherScraper.city data ≠ []) :
      Asks key TYPE_WEATHER data (.weather (WeatherScraper.city data))
  | wolfram {data : Bytes} (hlen : data.length = 32) :
      Asks key TYPE_WOLFRAM data (.wolfram (WolframScraper.query data))
  | steam {data apiKey cutoffTime : Bytes} {v : Value} (hseal : Seals key data v)
      (hquery : SteamScraper.query v = some (apiKey,cutoffTime)) :
      Asks key TYPE_STEAM_EX data (.steam apiKey cutoffTime)

def Ready (key : HybridKey) : Prop := key.seeded = true ∧ key.provisioned = true

/-- The enclave cannot decrypt, or the fetch gives nothing usable. -/
def ServiceFails (w : World) (q : Query) : Prop :=
  q.encrypted = true ∧ ¬Ready w.key ∨ Fails q.readable (w.web q.httpRequest)

def Excused (w : World) (q : Query) : Prop :=
  (q.encrypted = true → Ready w.key) ∧ q.excused (w.web q.httpRequest)

theorem decryptQuery_ready {key : HybridKey} (h : Ready key) {data cleartext : Bytes}
    {ciphertext : HybridCiphertext} (hdecode : decode (cstr data) = .ok ciphertext)
    (hdecrypt : key.decrypt ciphertext = some cleartext) :
    decryptQuery key data = .ok cleartext := by
  simp [decryptQuery,h.1,h.2,HybridKey.queryPubkey,HybridKey.hybridDecrypt,hdecode,hdecrypt,
    pure_eq_ok]

theorem decryptQuery_not_ready {key : HybridKey} (h : ¬Ready key) (data : Bytes) :
    decryptQuery key data = raise .runtimeError := by
  rw [Ready,not_and_or,Bool.not_eq_true,Bool.not_eq_true] at h
  unfold decryptQuery
  rcases h with h | h
  · simp [h]
  · cases hs : key.seeded <;> simp [h,HybridKey.queryPubkey]

theorem spared_encryptedFlight {w : World} {data flight : Bytes} {time : ℚ} {v : Value}
    (hseal : Seals w.key data v) (hquery : FlightScraper.query v = some (flight,time))
    (respData : Int32) :
    Spared (FlightScraper.handleEncryptedQuery w.web w.key data respData) ↔
      Ready w.key ∧ FlightExcused (w.web
        (FlightScraper.httpRequest (toInt64 time).toUInt64 (cstr flight))) := by
  by_cases hready : Ready w.key
  · obtain ⟨ciphertext,cleartext,hdecode,hdecrypt,hparse⟩ := hseal
    rw [and_iff_right hready,← spared_flight _ _ _ 0 respData,FlightScraper.handleEncryptedQuery,
      decryptQuery_ready hready hdecode hdecrypt]
    simp only [map_ok,catchExn_ok,bind_ok,hparse,hquery]
    rfl
  · refine iff_of_false ?_ fun h => hready h.1
    rw [FlightScraper.handleEncryptedQuery,decryptQuery_not_ready hready]
    exact not_spared (by decide)

theorem spared_sealedSteam {w : World} {data apiKey cutoffTime : Bytes} {v : Value}
    (hseal : Seals w.key data v) (hquery : SteamScraper.query v = some (apiKey,cutoffTime))
    (respData : Int32) :
    Spared (SteamScraper.handle w.web w.key data respData) ↔
      Ready w.key ∧ SteamExcused (w.web (SteamScraper.httpRequest apiKey cutoffTime)) := by
  by_cases hready : Ready w.key
  · obtain ⟨ciphertext,cleartext,hdecode,hdecrypt,hparse⟩ := hseal
    rw [and_iff_right hready,← spared_steam _ _ _ respData,SteamScraper.handle,
      decryptQuery_ready hready hdecode hdecrypt]
    simp only [map_ok,catchExn_ok,bind_ok,hparse,hquery]
  · refine iff_of_false ?_ fun h => hready h.1
    rw [SteamScraper.handle,decryptQuery_not_ready hready]
    exact not_spared (by decide)

/-- In one run, with any memory. -/
theorem refunded_answer {w : World} {type : UInt64} {data : Bytes} {q : Query}
    (hasks : Asks w.key type data q) (mem : Memory) :
    Refunded (answer w mem type data) ↔ Excused w q := by
  cases hasks with
  | bitcoinFee =>
      have hanswer : answer w mem TYPE_BITCOIN_FEE data =
          conclude <$> BitcoinFees.handle w.web mem.fees mem.result := rfl
      rw [hanswer,refunded_conclude,Excused,and_iff_right (by simp [Query.encrypted])]
      exact spared_bitcoinFee _ _ _
  | flight hlen =>
      have hanswer : answer w mem TYPE_FLIGHT_INS data =
          conclude <$> FlightScraper.handle w.web mem.delay data 0 := rfl
      rw [hanswer,refunded_conclude,FlightScraper.handle_eq hlen,Excused,
        and_iff_right (by simp [Query.encrypted])]
      exact spared_flight _ _ _ _ _
  | encryptedFlight hseal hquery =>
      have hanswer : answer w mem TYPE_FLIGHT_INS_ENC data =
          conclude <$> FlightScraper.handleEncryptedQuery w.web w.key data 0 := rfl
      rw [hanswer,refunded_conclude,Excused,Query.encrypted,forall_prop_of_true rfl]
      exact spared_encryptedFlight hseal hquery 0
  | stock hlen htime hdate hrefused =>
      have hanswer : answer w mem TYPE_FINANCE_INFO data =
          concludeFinance <$> YahooYqlStock.handle w.web data 0 := rfl
      rw [hanswer,refunded_concludeFinance,YahooYqlStock.handle,if_neg (not_not.mpr hlen),
        if_neg htime,hdate,Excused,and_iff_right (by simp [Query.encrypted])]
      exact spared_stock hrefused 0
  | coin hlen =>
      have hanswer : answer w mem TYPE_COINMARKET data =
          conclude <$> CoinMarket.handle w.web data mem.result := rfl
      rw [hanswer,refunded_conclude,Excused,and_iff_right (by simp [Query.encrypted])]
      exact spared_coin hlen _
  | weather hlen hcity =>
      have hanswer : answer w mem TYPE_WEATHER data =
          conclude <$> WeatherScraper.handle w.web data mem.result := rfl
      rw [hanswer,refunded_conclude,WeatherScraper.handle,if_neg (not_not.mpr hlen),Excused,
        and_iff_right (by simp [Query.encrypted])]
      exact spared_weather hcity _
  | wolfram hlen =>
      have hanswer : answer w mem TYPE_WOLFRAM data =
          concludeWolfram <$> WolframScraper.handle w.web data [] := rfl
      rw [hanswer,refunded_concludeWolfram]
      exact iff_of_false (not_spared_wolfram hlen []) fun h => h.2
  | steam hseal hquery =>
      have hanswer : answer w mem TYPE_STEAM_EX data =
          conclude <$> SteamScraper.handle w.web w.key data mem.result := rfl
      rw [hanswer,refunded_conclude,Excused,Query.encrypted,forall_prop_of_true rfl]
      exact spared_sealedSteam hseal hquery _

/-- A delivery by the enclave for a request which is open, with its own data. -/
structure Outstanding (m : Evm.Msg) (w : Contract.World) (d : Contract.Delivery) : Prop where
  enclave : m.sender = Contract.SGX_ADDRESS
  sender : d.sender = m.sender
  numbered : 0 < d.requestId
  requested : (w.storage.requests d.requestId).requester ≠ 0
  charged : Contract.CANCELLED_FEE_FLAG < (w.storage.requests d.requestId).fee
  hash : (w.storage.requests d.requestId).paramsHash = d.paramsHash
  funds : (w.storage.requests d.requestId).fee.toNat ≤ w.balance

/-- What the contract does with a high flag: the fee goes back to the requester. -/
theorem deliver_refunds {m : Evm.Msg} {w : Contract.World} {d : Contract.Delivery}
    (hopen : Outstanding m w d) (herror : 2 ≤ d.error) :
    Evm.Account.tried (Contract.deliver m d.requestId d.paramsHash d.error d.respData w) =
      w.attempts++[((w.storage.requests d.requestId).requester,
        (w.storage.requests d.requestId).fee,.errorRefund d)] := by
  obtain ⟨henclave,hsender,hid,hrequester,hfee,hhash,hfunds⟩ := hopen
  obtain ⟨sender,requestId,paramsHash,error,respData⟩ := d
  obtain rfl : sender = m.sender := hsender
  simp only at hid hrequester hfee hhash hfunds herror ⊢
  have hfee₀ : (w.storage.requests requestId).fee ≠ Contract.DELIVERED_FEE_FLAG := by
    intro h
    rw [h] at hfee
    exact absurd hfee (by decide)
  have hfee₁ : (w.storage.requests requestId).fee ≠ Contract.CANCELLED_FEE_FLAG := by
    intro h
    rw [h] at hfee
    exact absurd hfee (by decide)
  have hguard : ¬(m.sender ≠ Contract.SGX_ADDRESS ∨ requestId ≤ 0 ∨
      (w.storage.requests requestId).requester = 0 ∨
        (w.storage.requests requestId).fee = Contract.DELIVERED_FEE_FLAG) := by
    simp only [not_or,not_not]
    exact ⟨henclave,UInt64.not_le.mpr hid,hrequester,hfee₀⟩
  simp only [Contract.deliver,if_neg hguard,if_neg (not_not.mpr hhash),if_neg hfee₁]
  rw [if_neg (UInt64.not_lt.mpr herror),Evm.Account.callOut,if_pos (by
    simpa [Contract.setFlag,Contract.markDelivered] using hfunds)]
  simp [Evm.Account.tried,Evm.Account.attempts,Contract.setFlag,Contract.markDelivered]

/-- The flag that the enclave signs is at least 2 if and only if it can decrypt a
query which is encrypted and what comes from the site is excused; the contract then
gives the fee of an open request back to its requester, and pays nobody else. -/
theorem refund_iff {w : World} {type : UInt64} {data : Bytes} {q : Query}
    (hasks : Asks w.key type data q) :
    ((∀ mem, Refunded (answer w mem type data)) ↔ Excused w q) ∧
      (Excused w q → ∀ mem m contract d, Outstanding m contract d →
        (∃ respData, answer w mem type data = .ok (d.error,respData)) →
        Evm.Account.tried (Contract.deliver m d.requestId d.paramsHash d.error d.respData
            contract) =
          contract.attempts++[((contract.storage.requests d.requestId).requester,
            (contract.storage.requests d.requestId).fee,.errorRefund d)]) := by
  refine ⟨⟨fun h => ?_,fun h mem => ?_⟩,?_⟩
  · exact (refunded_answer hasks ⟨0,0,0,fun _ => 0⟩).mp (h _)
  · exact (refunded_answer hasks mem).mpr h
  · rintro h mem m contract d hopen ⟨respData,hanswer⟩
    obtain ⟨flag,_,hflag,hle⟩ := (refunded_answer hasks mem).mpr h
    cases hanswer.symm.trans hflag
    exact deliver_refunds hopen hle

/-- Every request of the enclave fails with status 500. -/
def outage : World where
  web := fun _ => .response ⟨500,[]⟩
  key := ⟨true,false,fun _ => none⟩

/-- No site answers at all. -/
def silence : World := {outage with web := fun _ => .noResponse .runtimeError}

/-- One request is open, for the least fee. -/
def oneOpen : Contract.World :=
  let w := Contract.constructor 5 1500000000000000
  w.set {w.storage with
    requests := Function.update w.storage.requests 1 ⟨7,1500000000000000,8,0,3⟩}

def giveUp : Contract.Delivery := ⟨Contract.SGX_ADDRESS,1,3,TC_INTERNAL_ERROR,0⟩

theorem outstanding_giveUp : Outstanding ⟨Contract.SGX_ADDRESS,0,1,0,0⟩ oneOpen giveUp where
  enclave := rfl
  sender := rfl
  numbered := by decide
  requested := by decide
  charged := by decide
  hash := by decide
  funds := by decide

theorem refund_iff_silence :
    ((∀ mem, Refunded (answer silence mem TYPE_BITCOIN_FEE [])) ↔ Excused silence .bitcoinFee) ∧
      Evm.Account.tried (Contract.deliver ⟨Contract.SGX_ADDRESS,0,1,0,0⟩ 1 3 TC_INTERNAL_ERROR 0
        oneOpen) = [(7,1500000000000000,.errorRefund giveUp)] := by
  obtain ⟨hiff,hpaid⟩ := refund_iff (Asks.bitcoinFee [] : Asks silence.key _ _ _)
  have hexcused : Excused silence .bitcoinFee := ⟨fun h => absurd h (by decide),trivial⟩
  exact ⟨hiff,hpaid hexcused ⟨0,0,0,fun _ => 0⟩ _ _ giveUp outstanding_giveUp ⟨[],rfl⟩⟩

/-- A fee which the site never sent is reported as an answer. -/
theorem outage_charged : Asks outage.key TYPE_BITCOIN_FEE [] .bitcoinFee ∧
    ServiceFails outage .bitcoinFee ∧
    answer outage ⟨42,0,0,fun _ => 0⟩ TYPE_BITCOIN_FEE [] = .ok (0,fixed 32 42) :=
  ⟨.bitcoinFee [],.inr (.inl (by decide)),rfl⟩

end TownCrier.Failures
