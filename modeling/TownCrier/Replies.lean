import TownCrier.Answers
import TownCrier.Delivery
import TownCrier.Failures
import TownCrier.StockDate

/-!
# Which requests are answered

Every handler guards a part of its work. `Answerable` says, type by type, what
must be true of a request and of the site's answer for the rest of the work to
come to an end, so that `do_handle_request` returns a transaction.
-/
namespace TownCrier.Replies
open BigEndian Cpp Encoding Https HybridCipher PicoJson EventHandler FormTransaction

/-- The computation returns. -/
def Completes {A : Type} (x : Exec A) : Prop := ∃ a, x = .ok a

section Completes
variable {A B : Type}

theorem completes_ok (a : A) : Completes (.ok a : Exec A) := ⟨a,rfl⟩

theorem not_completes_error (f : Fault) : ¬Completes (.error f : Exec A) := by
  rintro ⟨a,h⟩
  cases h

theorem completes_map {f : A → B} {x : Exec A} : Completes (f <$> x) ↔ Completes x := by
  cases x with
  | ok a => exact iff_of_true ⟨f a,rfl⟩ ⟨a,rfl⟩
  | error e => exact iff_of_false (not_completes_error e) (not_completes_error e)

theorem completes_return {f : A → B} {x : Exec A} :
    Completes (do return f (← x)) ↔ Completes x := by
  cases x with
  | ok a => exact iff_of_true ⟨f a,rfl⟩ ⟨a,rfl⟩
  | error e => exact iff_of_false (not_completes_error e) (not_completes_error e)

/-- A handler for every exception leaves only undefined behaviour. -/
theorem completes_catchExn {x : Exec A} {h : Exn → Exec A} (hh : ∀ e, Completes (h e)) :
    Completes (catchExn x h) ↔ x ≠ undefined := by
  rcases x with (e | _) | a
  · exact iff_of_true (hh e) nofun
  · exact iff_of_false (not_completes_error _) (not_not.mpr rfl)
  · exact iff_of_true ⟨a,rfl⟩ nofun

end Completes

/-- What a JSON value holds at the end of a path of keys. -/
def path : List String → Value → Option Value
  | [], v => some v
  | key::keys, .object fields => (fields.lookup (ascii key)).bind (path keys)
  | _::_, _ => none

/-- The list of flights is there and has no entry. -/
def NoFlights (content : Bytes) : Prop :=
  ∃ fields, parse (cstr content) = .ok (.parsed (.object fields)) ∧
    fields.lookup (ascii "error") = none ∧
      path ["FlightInfoExResult","flights"] (.object fields) = some (.array [])

/-- The flight handlers catch `runtime_error` around the client and everything
around the parser, which does not expect an empty list. -/
def FlightReadable : Fetch → Prop
  | .noClient _ => False
  | .noResponse e => e = .runtimeError
  | .response r => ¬NoFlights r.content

/-- The stock query parses outside of its `try` block. -/
def StockReadable : Fetch → Prop
  | .noClient _ => False
  | .noResponse e => e = .runtimeError
  | .response r => Completes (parse r.content)

/-- The scan for a price runs to a closing quote. -/
def CoinReadable : Fetch → Prop
  | .response r => ∀ v temp, parse r.content = .ok (.malformed v) →
      CoinMarket.find (ascii "price_usd\": \"") (cstr r.content) = some temp → 34 ∈ temp
  | _ => True

/-- An object has to have the whole path to the temperature, or no results. -/
def WeatherReadable : Fetch → Prop
  | .noClient _ => False
  | .noResponse e => e = .runtimeError
  | .response r => Completes (parse r.content) ∧
      ∀ v, parse r.content = .ok (.parsed v) → v.isObject = true →
        path ["query","results"] v = some .null ∨
          ∃ s, path ["query","results","channel","item","condition","temp"] v = some (.string s)

/-- Without a text there is nothing to copy. -/
def WolframReadable : Fetch → Prop
  | .response r => r.content ≠ []
  | _ => False

/-- The header of the ciphertext is read from beyond its end. -/
def Stub (key : HybridKey) (data : Bytes) : Prop :=
  key.seeded = true ∧ key.provisioned = true ∧
    ∃ cipher, b64Pton (cstr (cstr data)) (cstr data).length = some cipher ∧
      cipher.length < HEADER_LEN

/-- A decrypted text is parsed outside of every `try` block. -/
def Sealed (key : HybridKey) (data : Bytes) (good : Value → Prop) : Prop :=
  ¬Stub key data ∧ ∀ json, decryptQuery key data = .ok json →
    Completes (parse json) ∧ ∀ v, parse json = .ok (.parsed v) → good v

/-- What the types of requests need for an answer. -/
structure Answerable (w : World) (type : UInt64) (data : Bytes) : Prop where
  flight : type = TYPE_FLIGHT_INS → data.length = 64 → FlightReadable (w.web
    (FlightScraper.httpRequest (FlightScraper.unixEpoch data) (FlightScraper.flightNumber data)))
  steam : type = TYPE_STEAM_EX → Sealed w.key data fun _ => True
  stock : type = TYPE_FINANCE_INFO → data.length = 64 → ¬YahooYqlStock.Rejected data →
    YahooYqlStock.word data%2^64 < 2^63 ∧
      ∀ date, Gmtime.gmtimeTc (YahooYqlStock.unixEpoch data) = .ok date →
        ¬YahooYqlStock.refused (YahooYqlStock.symbol data) date →
          StockReadable (w.web (YahooYql.httpRequest (YahooYql.queryUrl
            (YahooYqlStock.yql (YahooYqlStock.symbol data) date) .json YahooYql.tables)))
  coin : type = TYPE_COINMARKET → data.length = 32 →
    CoinReadable (w.web (CoinMarket.httpRequest (CoinMarket.coinId data)))
  weather : type = TYPE_WEATHER → data.length = 32 → WeatherScraper.city data ≠ [] →
    WeatherReadable (w.web (YahooYql.httpRequest (YahooYql.queryUrl
      (WeatherScraper.constructQuery (WeatherScraper.city data)) .json YahooYql.tables)))
  wolfram : type = TYPE_WOLFRAM → data.length = 32 →
    WolframReadable (w.web (WolframScraper.httpRequest (WolframScraper.query data)))
  encryptedFlight : type = TYPE_FLIGHT_INS_ENC → Sealed w.key data fun v =>
    ∀ flight time, FlightScraper.query v = some (flight,time) → FlightReadable (w.web
      (FlightScraper.httpRequest (toInt64 time).toUInt64 (cstr flight)))

theorem path_two {fields : List (Bytes × Value)} {a b : String} {x : Value} :
    path [a,b] (.object fields) = some x ↔
      ∃ inner, fields.lookup (ascii a) = some (.object inner) ∧ inner.lookup (ascii b) = some x := by
  rcases h : fields.lookup (ascii a) with _ | (_ | _ | _ | _ | _ | inner) <;> simp [path,h]

section Flight
open FlightScraper

/-- The list of flights in a document is there and has no entry. -/
def Flightless (resp : Bytes) : Prop :=
  ∃ fields, parse resp = .ok (.parsed (.object fields)) ∧ fields.lookup (ascii "error") = none ∧
    path ["FlightInfoExResult","flights"] (.object fields) = some (.array [])

theorem flightless_iff {resp : Bytes} {fields : List (Bytes × Value)}
    (h : parse resp = .ok (.parsed (.object fields))) :
    Flightless resp ↔ fields.lookup (ascii "error") = none ∧
      ∃ result, fields.lookup (ascii "FlightInfoExResult") = some (.object result) ∧
        result.lookup (ascii "flights") = some (.array []) := by
  rw [← path_two]
  refine ⟨?_,fun hpath => ⟨fields,h,hpath⟩⟩
  rintro ⟨fields',h',hpath⟩
  cases h.symm.trans h'
  exact hpath

/-- The parser of an answer fails beyond repair only on an empty list. -/
theorem parseResponse_flightless (resp : Bytes) (delay : Int32) (epoch : UInt64) :
    parseResponse resp delay epoch = undefined ↔ Flightless resp := by
  rcases hparse : parse resp with f | v | v
  · obtain rfl := parse_error hparse
    exact iff_of_false (by rw [parseResponse,hparse]; intro h; cases h) (by simp [Flightless,hparse])
  · obtain ⟨fields,rfl⟩ | hv := v.object_or
    · rw [flightless_iff hparse]
      rcases herror : fields.lookup (ascii "error") with _ | e
      case some => simp [parseResponse,hparse,herror,pure_eq_ok,undefined]
      rcases hresult : fields.lookup (ascii "FlightInfoExResult") with _ | v
      · simp [parseResponse,hparse,herror,hresult,raise,undefined]
      obtain ⟨result,rfl⟩ | hv := v.object_or
      · rcases hflights : result.lookup (ascii "flights") with _ | ⟨_ | _ | _ | _ | items | _⟩
        case some.array =>
          rcases items with _ | ⟨v,rest⟩
          · simp [parseResponse,hparse,herror,hresult,hflights]
          obtain ⟨flight,rfl⟩ | hv := v.object_or
          · rcases hd : flight.lookup (ascii "actualdeparturetime") with
              _ | ⟨_ | _ | d | _ | _ | _⟩ <;>
              simp [parseResponse,hparse,herror,hresult,hflights,hd,pure_eq_ok,undefined]
          · simp [parseResponse,hparse,herror,hresult,hflights,Value.get_of_not hv,raise,undefined]
        all_goals simp [parseResponse,hparse,herror,hresult,hflights,pure_eq_ok,undefined]
      · have hne : ∀ result, v ≠ .object result := by
          rintro result rfl
          cases hv
        simp [parseResponse,hparse,herror,hresult,Value.get_of_not hv,hne,raise,undefined]
    · have hne : ∀ fields, v ≠ .object fields := by
        rintro fields rfl
        cases hv
      simp [parseResponse,Flightless,hparse,hv,hne,pure_eq_ok,undefined]
  · simp [parseResponse,Flightless,hparse,pure_eq_ok,undefined]

theorem parseResponse_undefined_iff (content : Bytes) (delay : Int32) (epoch : UInt64) :
    parseResponse (cstr content) delay epoch = undefined ↔ NoFlights content :=
  parseResponse_flightless (cstr content) delay epoch

theorem completes_flight {web : Web} {epoch : UInt64} {flight : Bytes} {resp : Int32}
    (hclient : ∀ q e, web q ≠ .noClient e) :
    Completes (getFlightDelay web epoch flight resp) ↔
      FlightReadable (web (httpRequest epoch flight)) := by
  rcases hweb : web (httpRequest epoch flight) with e | e | r
  · exact absurd hweb (hclient _ e)
  · cases e with
    | runtimeError =>
        refine iff_of_true ⟨(.httpError,resp),?_⟩ rfl
        simp [getFlightDelay,hweb,Fetch.client,Fetch.getResponse,ClientError.exn,
          Exn.isRuntimeError,pure_eq_ok]
    | badAlloc =>
        refine iff_of_false ?_ (by intro h; cases h)
        have hthrow : getFlightDelay web epoch flight resp = raise .badAlloc := by
          simp [getFlightDelay,hweb,Fetch.client,Fetch.getResponse,ClientError.exn,
            Exn.isRuntimeError,pure_eq_ok]
        rw [hthrow]
        exact not_completes_error _
  · by_cases hne : r.content = []
    · have hempty : ¬NoFlights r.content := by
        rintro ⟨fields,hparse,-⟩
        rw [hne] at hparse
        cases hparse
      refine iff_of_true ⟨(.httpError,resp),?_⟩ hempty
      simp [getFlightDelay,hweb,Fetch.client,Fetch.getResponse,hne,pure_eq_ok]
    · have hcatch : getFlightDelay web epoch flight resp =
          catchExn (parseResponse (cstr r.content) resp epoch) fun _ => pure (.internalErr,resp) := by
        simp [getFlightDelay,hweb,Fetch.client,Fetch.getResponse,hne,pure_eq_ok]
      rw [hcatch]
      refine (completes_catchExn fun _ => completes_ok (FlightError.internalErr,resp)).trans ?_
      exact (parseResponse_undefined_iff _ _ _).not

end Flight

section Encrypted
variable {key : HybridKey} {data : Bytes}

theorem decode_undefined_iff (cipherB64 : Bytes) : decode cipherB64 = undefined ↔
    ∃ cipher, b64Pton (cstr cipherB64) cipherB64.length = some cipher ∧
      cipher.length < HEADER_LEN := by
  rcases h : b64Pton (cstr cipherB64) cipherB64.length with _ | cipher
  · simp [decode,h,raise,undefined]
  · by_cases hlen : cipher.length < HEADER_LEN
    · simp [decode,h,hlen]
    · simp [decode,h,hlen,pure_eq_ok,undefined]

theorem decryptQuery_undefined_iff (key : HybridKey) (data : Bytes) :
    decryptQuery key data = undefined ↔ Stub key data := by
  unfold decryptQuery Stub
  rcases hs : key.seeded with _ | _
  · simp [raise,undefined]
  rcases hp : key.provisioned with _ | _
  · simp [HybridKey.queryPubkey,hp,raise,undefined]
  rw [← decode_undefined_iff]
  rcases hdecode : decode (cstr data) with (e | _) | ciphertext
  · simp [HybridKey.queryPubkey,hp,pure_eq_ok,catchExn,raise,undefined]
  · simp [HybridKey.queryPubkey,hp,pure_eq_ok,catchExn,undefined]
  · rcases hdecrypt : key.decrypt ciphertext with _ | cleartext <;>
      simp [HybridKey.queryPubkey,HybridKey.hybridDecrypt,hp,hdecrypt,pure_eq_ok,catchExn,raise,
        undefined]

/-- What both encrypted queries have in common. -/
theorem completes_sealed {A : Type} {x : Exec A} {rest : Value → Exec A}
    (hstub : decryptQuery key data = undefined → x = undefined)
    (hthrow : ∀ e, decryptQuery key data = raise e → Completes x)
    (hjson : ∀ json, decryptQuery key data = .ok json →
      (∀ f, parse json = .error f → x = .error f) ∧
        (∀ v, parse json = .ok (.malformed v) → Completes x) ∧
        ∀ v, parse json = .ok (.parsed v) → x = rest v) :
    Completes x ↔ Sealed key data fun v => Completes (rest v) := by
  rw [Sealed,← decryptQuery_undefined_iff]
  rcases hd : decryptQuery key data with (e | _) | json
  · exact iff_of_true (hthrow e hd) ⟨nofun,nofun⟩
  · rw [hstub hd]
    exact iff_of_false (not_completes_error _) fun h => h.1 rfl
  · obtain ⟨herror,hmalformed,hparsed⟩ := hjson json hd
    rcases hparse : parse json with f | v | v
    · rw [herror f hparse]
      refine iff_of_false (not_completes_error _) fun h => ?_
      have hdoc := (h.2 json rfl).1
      rw [hparse] at hdoc
      exact not_completes_error f hdoc
    · rw [hparsed v hparse]
      refine ⟨fun h => ⟨nofun,?_⟩,fun h => (h.2 json rfl).2 v hparse⟩
      rintro json' ⟨⟩
      refine ⟨⟨_,hparse⟩,fun v' hv => ?_⟩
      cases hparse.symm.trans hv
      exact h
    · refine iff_of_true (hmalformed v hparse) ⟨nofun,?_⟩
      rintro json' ⟨⟩
      refine ⟨⟨_,hparse⟩,fun v' hv => ?_⟩
      cases hparse.symm.trans hv

theorem completes_steamTransaction {web : Web} (hclient : ∀ q e, web q ≠ .noClient e)
    (apiKey cutoffTime : Bytes) (resp : Int32) :
    Completes (SteamScraper.getSteamTransaction web apiKey cutoffTime resp) := by
  rcases hweb : web (SteamScraper.httpRequest apiKey cutoffTime) with e | e | r
  · exact absurd hweb (hclient _ e)
  · cases e <;> exact ⟨(.webError,resp),by
      simp [SteamScraper.getSteamTransaction,hweb,Fetch.client,Fetch.getResponse,ClientError.exn,
        pure_eq_ok]⟩
  · rcases hparse : parse r.content with f | v | v
    · obtain rfl := parse_error hparse
      exact ⟨(.webError,resp),by simp [SteamScraper.getSteamTransaction,hweb,Fetch.client,
        Fetch.getResponse,hparse,catchExn,pure_eq_ok]⟩
    · obtain ⟨fields,rfl⟩ | hv := v.object_or
      · exact ⟨_,by simp [SteamScraper.getSteamTransaction,hweb,Fetch.client,Fetch.getResponse,
          hparse,pure_eq_ok]; rfl⟩
      · exact ⟨(.invalidParams,resp),by simp [SteamScraper.getSteamTransaction,hweb,Fetch.client,
          Fetch.getResponse,hparse,hv,pure_eq_ok]⟩
    · exact ⟨(.invalidParams,resp),by simp [SteamScraper.getSteamTransaction,hweb,Fetch.client,
        Fetch.getResponse,hparse,pure_eq_ok]⟩

/-- What a handler of encrypted queries does with the parsed object. -/
def steamRest (web : Web) (respData : Int32) (v : Value) : Exec (ErrCode × Int32) :=
  match SteamScraper.query v with
  | none => pure (.invalidParams,respData)
  | some (apiKey,cutoffTime) => SteamScraper.getSteamTransaction web apiKey cutoffTime respData

def flightRest (web : Web) (respData : Int32) (v : Value) : Exec (ErrCode × Int32) :=
  match FlightScraper.query v with
  | none => pure (.invalidParams,respData)
  | some (flight,time) =>
      (fun x : FlightScraper.FlightError × Int32 => FlightScraper.report x.1 x.2 respData) <$>
        FlightScraper.getFlightDelay web (toInt64 time).toUInt64 (cstr flight) 0

theorem completes_steam {web : Web} (hclient : ∀ q e, web q ≠ .noClient e) (respData : Int32) :
    Completes (SteamScraper.handle web key data respData) ↔ Sealed key data fun _ => True := by
  have hrest : ∀ v, Completes (steamRest web respData v) := by
    intro v
    unfold steamRest
    rcases SteamScraper.query v with _ | ⟨apiKey,cutoffTime⟩
    · exact completes_ok _
    · exact completes_steamTransaction hclient _ _ _
  have hsealed := @completes_sealed key data _ (SteamScraper.handle web key data respData)
    (steamRest web respData) (fun h => by simp [SteamScraper.handle,h])
    (fun e h => ⟨(.invalidParams,respData),by simp [SteamScraper.handle,h,pure_eq_ok]⟩)
    (fun json h => ⟨fun f hparse => by simp [SteamScraper.handle,h,hparse],
      fun v hparse => ⟨(.invalidParams,respData),by simp [SteamScraper.handle,h,hparse,pure_eq_ok]⟩,
      fun v hparse => by
        simp only [SteamScraper.handle,h,map_ok,catchExn_ok,bind_ok,hparse]
        rfl⟩)
  simpa only [hrest] using hsealed

theorem completes_encryptedFlight {web : Web} (hclient : ∀ q e, web q ≠ .noClient e)
    (respData : Int32) :
    Completes (FlightScraper.handleEncryptedQuery web key data respData) ↔
      Sealed key data fun v => ∀ flight time, FlightScraper.query v = some (flight,time) →
        FlightReadable (web (FlightScraper.httpRequest (toInt64 time).toUInt64 (cstr flight))) := by
  have hrest : ∀ v, Completes (flightRest web respData v) ↔
      ∀ flight time, FlightScraper.query v = some (flight,time) →
        FlightReadable (web (FlightScraper.httpRequest (toInt64 time).toUInt64 (cstr flight))) := by
    intro v
    unfold flightRest
    rcases FlightScraper.query v with _ | ⟨flight,time⟩
    · exact iff_of_true (completes_ok _) nofun
    · refine (completes_map.trans (completes_flight hclient)).trans ⟨fun h => ?_,fun h => h _ _ rfl⟩
      rintro flight' time' ⟨⟩
      exact h
  have hsealed := @completes_sealed key data _ (FlightScraper.handleEncryptedQuery web key data
    respData) (flightRest web respData) (fun h => by simp [FlightScraper.handleEncryptedQuery,h])
    (fun e h => ⟨(.invalidParams,respData),by
      simp [FlightScraper.handleEncryptedQuery,h,pure_eq_ok]⟩)
    (fun json h => ⟨fun f hparse => by simp [FlightScraper.handleEncryptedQuery,h,hparse],
      fun v hparse => ⟨(.invalidParams,respData),by
        simp [FlightScraper.handleEncryptedQuery,h,hparse,pure_eq_ok]⟩,
      fun v hparse => by
        simp only [FlightScraper.handleEncryptedQuery,h,map_ok,catchExn_ok,bind_ok,hparse]
        rfl⟩)
  simpa only [hrest] using hsealed

end Encrypted

section Plain
variable {web : Web} {data : Bytes}

theorem completes_bitcoinFee (web : Web) (fees respData : Int32) :
    Completes (BitcoinFees.handle web fees respData) := by
  by_cases hunset : BitcoinFees.Unset (web BitcoinFees.httpRequest)
  · exact ⟨_,BitcoinFees.handle_unset hunset fees respData⟩
  · obtain ⟨r,n,-,-,-,h⟩ | h := BitcoinFees.handle_set hunset
    · exact ⟨_,h fees respData⟩
    · exact ⟨_,h fees respData⟩

theorem completes_wolfram (hclient : ∀ q e, web q ≠ .noClient e) (hlen : data.length = 32) :
    (∃ text, WolframScraper.handle web data [] = .ok (.noError,text) ∧ text ≠ []) ↔
      WolframReadable (web (WolframScraper.httpRequest (WolframScraper.query data))) := by
  rw [WolframScraper.handle_eq web hlen]
  rcases hweb : web (WolframScraper.httpRequest (WolframScraper.query data)) with e | (_ | _) | r
  · exact absurd hweb (hclient _ e)
  · exact iff_of_false (by rintro ⟨text,⟨⟩,hne⟩; exact hne rfl) id
  · exact iff_of_false (by rintro ⟨text,⟨⟩,-⟩) id
  · constructor
    · rintro ⟨text,⟨⟩,hne⟩
      exact hne
    · exact fun hne => ⟨_,rfl,hne⟩

theorem price_ne_undefined (v : Value) : CoinMarket.price v ≠ undefined := by
  unfold CoinMarket.price
  split
  next ticker =>
    obtain ⟨fields,rfl⟩ | hv := ticker.object_or
    · rw [Value.asObject_object,bind_ok]
      split <;> nofun
    · rw [Value.asObject_of_not hv]
      nofun
  next => nofun

theorem getprice_undefined_iff (hclient : ∀ q e, web q ≠ .noClient e) (tokenName : Bytes) :
    CoinMarket.getprice web tokenName = undefined ↔
      ¬CoinReadable (web (CoinMarket.httpRequest tokenName)) := by
  rcases hweb : web (CoinMarket.httpRequest tokenName) with e | e | r
  · exact absurd hweb (hclient _ e)
  · refine iff_of_false ?_ (not_not.mpr trivial)
    simp [CoinMarket.getprice,hweb,Fetch.client,Fetch.getResponse,pure_eq_ok,raise,undefined]
  · rcases hparse : parse r.content with f | v | v
    · obtain rfl := parse_error hparse
      refine iff_of_false ?_ (not_not.mpr fun v temp h => by cases hparse.symm.trans h)
      simp [CoinMarket.getprice,hweb,Fetch.client,Fetch.getResponse,hparse,pure_eq_ok,undefined]
    · refine iff_of_false ?_ (not_not.mpr fun v temp h => by cases hparse.symm.trans h)
      simpa [CoinMarket.getprice,hweb,Fetch.client,Fetch.getResponse,hparse,pure_eq_ok] using
        price_ne_undefined v
    · have hscan : CoinMarket.getprice web tokenName =
          (CoinMarket.manualParseResponse (cstr r.content) >>= fun result =>
            if result ≠ .finite 0 then pure result.toInt32 else CoinMarket.price v) := by
        simp [CoinMarket.getprice,hweb,Fetch.client,Fetch.getResponse,hparse,pure_eq_ok]
      have hrest : ∀ result : Numerals.Double,
          (if result ≠ .finite 0 then pure result.toInt32 else CoinMarket.price v) ≠ undefined := by
        intro result
        split_ifs
        · intro h
          cases h
        · exact price_ne_undefined v
      rw [hscan,CoinMarket.manualParseResponse]
      rcases hfind : CoinMarket.find (ascii "price_usd\": \"") (cstr r.content) with _ | temp
      · refine iff_of_false ?_ (not_not.mpr fun v temp _ h => ?_)
        · simp only [pure_bind]
          exact hrest _
        · cases hfind.symm.trans h
      · by_cases hquote : 34 ∈ temp
        · refine iff_of_false ?_ (not_not.mpr fun v temp' _ h => ?_)
          · simp only [if_pos hquote,pure_bind]
            exact hrest _
          · cases hfind.symm.trans h
            exact hquote
        · refine iff_of_true ?_ fun h => hquote (h v temp hparse hfind)
          simp only [if_neg hquote,bind_undefined]

theorem completes_coin (hclient : ∀ q e, web q ≠ .noClient e) (hlen : data.length = 32)
    (respData : Int32) :
    Completes (CoinMarket.handle web data respData) ↔
      CoinReadable (web (CoinMarket.httpRequest (CoinMarket.coinId data))) := by
  unfold CoinMarket.handle
  rw [if_neg (not_not.mpr hlen)]
  refine (completes_catchExn fun e => ?_).trans ?_
  · cases e <;> exact completes_ok _
  · rw [← not_iff_not,not_not,← getprice_undefined_iff hclient]
    rcases CoinMarket.getprice web (CoinMarket.coinId data) with (e | _) | n
    · exact iff_of_false nofun nofun
    · exact iff_of_true rfl rfl
    · exact iff_of_false nofun nofun

/-- The parsing of an answer from Yahoo, with whatever comes after it. -/
theorem completes_execute (hclient : ∀ q e, web q ≠ .noClient e) {q : Bytes} (hq : q ≠ [])
    {rest : Option Bytes → Exec (ErrCode × Int32)} (hnone : Completes (rest none)) :
    Completes (YahooYql.execute web q .json YahooYql.tables >>= rest) ↔
      match web (YahooYql.httpRequest (YahooYql.queryUrl q .json YahooYql.tables)) with
      | .noClient _ => False
      | .noResponse e => e = .runtimeError
      | .response r => Completes (rest (some r.content)) := by
  rw [YahooYql.execute_eq web hq]
  rcases hweb : web (YahooYql.httpRequest (YahooYql.queryUrl q .json YahooYql.tables)) with
    e | (_ | _) | r
  · exact absurd hweb (hclient _ e)
  · exact iff_of_true hnone rfl
  · exact iff_of_false (not_completes_error _) nofun
  · exact Iff.rfl

theorem closing_ne_undefined (v : Value) (respData : Int32) :
    YahooYqlStock.closing v respData ≠ undefined := by
  rw [YahooYqlStock.closing,← bind_assoc]
  obtain ⟨results,hresults⟩ | hresults := v.get_get_or "query" "results"
  · rw [hresults,bind_ok]
    by_cases hempty : ¬results.evaluateAsBoolean
    · rw [if_pos hempty]
      intro h
      cases h
    · rw [if_neg hempty,← bind_assoc]
      obtain ⟨x,hx⟩ | hx := results.get_get_or "quote" "Close"
      · rw [hx,bind_ok]
        cases x <;> intro h <;> cases h
      · rw [hx]
        intro h
        cases h
  · rw [hresults]
    intro h
    cases h

theorem completes_stock (hclient : ∀ q e, web q ≠ .noClient e) {symbol : Bytes}
    {date : Gmtime.Date} (hrefused : ¬YahooYqlStock.refused symbol date) (respData : Int32) :
    Completes (YahooYqlStock.handleOne web symbol date respData) ↔
      StockReadable (web (YahooYql.httpRequest (YahooYql.queryUrl
        (YahooYqlStock.yql symbol date) .json YahooYql.tables))) := by
  unfold YahooYqlStock.handleOne
  rw [if_neg hrefused]
  refine (completes_execute hclient (YahooYqlStock.yql_ne_nil symbol date) ?_).trans ?_
  · exact completes_ok _
  rcases web (YahooYql.httpRequest (YahooYql.queryUrl (YahooYqlStock.yql symbol date) .json
    YahooYql.tables)) with e | e | r
  · exact Iff.rfl
  · exact Iff.rfl
  · dsimp only [StockReadable]
    rcases parse r.content with f | v | v
    · exact iff_of_false (not_completes_error f) (not_completes_error f)
    · refine iff_of_true ?_ (completes_ok _)
      rw [bind_ok]
      dsimp only
      by_cases hv : ¬v.isObject
      · rw [if_pos hv]
        exact completes_ok _
      · rw [if_neg hv]
        exact (completes_catchExn fun _ => completes_ok (ErrCode.webError,respData)).mpr
          (closing_ne_undefined v respData)
    · exact iff_of_true (completes_ok _) (completes_ok _)

/-- Going down one key needs an object that has it. -/
theorem second_cases (v : Value) (key : String) :
    (∃ x, WeatherScraper.second v key = .ok x ∧ ∀ keys, path (key::keys) v = path keys x) ∨
      (∃ f, WeatherScraper.second v key = .error f) ∧ ∀ keys, path (key::keys) v = none := by
  obtain ⟨fields,rfl⟩ | hv := v.object_or
  · rcases h : fields.lookup (ascii key) with _ | x
    · exact .inr ⟨⟨_,by simp [WeatherScraper.second,h]; rfl⟩,fun _ => by simp [path,h]⟩
    · exact .inl ⟨x,by simp [WeatherScraper.second,h,pure_eq_ok],fun _ => by simp [path,h]⟩
  · refine .inr ⟨⟨_,by rw [WeatherScraper.second,Value.asObject_of_not hv]; rfl⟩,fun _ => ?_⟩
    cases v <;> first | rfl | cases hv

/-- One step down a path, with the rest of the way. -/
theorem completes_second {A : Type} {v : Value} {key : String} {keys : List String}
    {rest : Value → Exec A} {good : Option Value → Prop} (hnone : ¬good none)
    (hrest : ∀ x, Completes (rest x) ↔ good (path keys x)) :
    Completes (WeatherScraper.second v key >>= rest) ↔ good (path (key::keys) v) := by
  obtain ⟨x,hx,hpath⟩ | ⟨⟨f,hf⟩,hpath⟩ := second_cases v key
  · rw [hx,hpath,bind_ok]
    exact hrest x
  · rw [hf,hpath]
    exact iff_of_false (not_completes_error f) hnone

theorem completes_temperature (results : Value) :
    Completes (WeatherScraper.temperature results) ↔
      ∃ s, path ["channel","item","condition","temp"] results = some (.string s) := by
  have hnone : ¬∃ s, (none : Option Value) = some (.string s) := by
    rintro ⟨s,h⟩
    cases h
  unfold WeatherScraper.temperature
  refine @completes_second _ _ _ _ _ (fun x => ∃ s, x = some (.string s)) hnone fun channel => ?_
  refine @completes_second _ _ _ _ _ (fun x => ∃ s, x = some (.string s)) hnone fun item => ?_
  refine @completes_second _ _ _ _ _ (fun x => ∃ s, x = some (.string s)) hnone fun condition => ?_
  refine @completes_second _ _ _ _ _ (fun x => ∃ s, x = some (.string s)) hnone fun temp => ?_
  cases temp with
  | string s => exact iff_of_true (completes_ok _) ⟨s,rfl⟩
  | _ =>
      refine iff_of_false (not_completes_error _) ?_
      rintro ⟨s,h⟩
      cases h

/-- The part of the weather query behind the checks of the document. -/
theorem completes_results (v : Value) (r : Int32) :
    Completes (do
      let v₁ ← WeatherScraper.second v "query"
      match ← WeatherScraper.second v₁ "results" with
      | .null => pure (ErrCode.webError,r)
      | results => return (ErrCode.noError,← WeatherScraper.temperature results)) ↔
    path ["query","results"] v = some .null ∨
      ∃ s, path ["query","results","channel","item","condition","temp"] v = some (.string s) := by
  have hnone : ¬((none : Option Value) = some .null ∨ ∃ s, (none : Option Value) = some (.string s)) := by
    rintro (h | ⟨s,h⟩) <;> cases h
  obtain ⟨x,hx,hpath⟩ | ⟨⟨f,hf⟩,hpath⟩ := second_cases v "query"
  · rw [hx,bind_ok,hpath,hpath]
    obtain ⟨results,hresults,hpath⟩ | ⟨⟨f,hf⟩,hpath⟩ := second_cases x "results"
    · rw [hresults,bind_ok,hpath,hpath]
      cases results with
      | null => exact iff_of_true (completes_ok _) (.inl rfl)
      | _ =>
          refine Iff.trans ?_ (or_iff_right nofun).symm
          rw [← completes_temperature]
          exact completes_return
    · rw [hf,hpath,hpath]
      exact iff_of_false (not_completes_error f) hnone
  · rw [hf,hpath,hpath]
    exact iff_of_false (not_completes_error f) hnone

theorem completes_weather (hclient : ∀ q e, web q ≠ .noClient e) {city : Bytes}
    (hcity : city ≠ []) (r : Int32) :
    Completes (WeatherScraper.weatherCurrent web city r) ↔
      WeatherReadable (web (YahooYql.httpRequest (YahooYql.queryUrl
        (WeatherScraper.constructQuery city) .json YahooYql.tables))) := by
  have hquery : WeatherScraper.constructQuery city ≠ [] := by
    simp only [WeatherScraper.constructQuery,List.append_assoc]
    exact List.cons_ne_nil _ _
  unfold WeatherScraper.weatherCurrent
  rw [if_neg hcity]
  refine (completes_execute hclient hquery ?_).trans ?_
  · exact completes_ok _
  rcases web (YahooYql.httpRequest (YahooYql.queryUrl (WeatherScraper.constructQuery city) .json
    YahooYql.tables)) with e | e | r'
  · exact Iff.rfl
  · exact Iff.rfl
  · dsimp only [WeatherReadable]
    rcases hparse : parse r'.content with f | v | v
    · exact iff_of_false (not_completes_error f) fun h => not_completes_error f h.1
    · rw [bind_ok]
      dsimp only
      by_cases hv : v.isObject = true
      · rw [if_neg (not_not.mpr hv)]
        refine (completes_results v r).trans ⟨fun h => ⟨completes_ok _,?_⟩,fun h => h.2 v rfl hv⟩
        rintro v' ⟨⟩ -
        exact h
      · rw [if_pos hv]
        refine iff_of_true (completes_ok _) ⟨completes_ok _,?_⟩
        rintro v' ⟨⟩ hv'
        exact absurd hv' hv
    · exact iff_of_true (completes_ok _) ⟨completes_ok _,fun _ h => by cases h⟩

end Plain

/-- The answer comes, with something to copy if it is not an error. -/
def Given (w : World) (mem : Memory) (type : UInt64) (data : Bytes) : Prop :=
  ∃ errorFlag respData, answer w mem type data = .ok (errorFlag,respData) ∧
    (errorFlag = 0 → respData ≠ [])

theorem conclude_ne_nil {x : ErrCode × Int32} (h : (conclude x).1 = 0) : (conclude x).2 ≠ [] := by
  obtain ⟨c,n⟩ := x
  cases c with
  | noError =>
      rw [conclude_noError]
      exact List.ne_nil_of_length_pos ((fixed_length _ _).symm ▸ by decide)
  | unknownError => exact absurd h (by decide : TC_INTERNAL_ERROR ≠ 0)
  | webError => exact absurd h (by decide : TC_INTERNAL_ERROR ≠ 0)
  | invalidParams => exact absurd h (by decide : TC_INPUT_ERROR ≠ 0)

theorem concludeFinance_ne_nil {x : ErrCode × Int32} (h : (concludeFinance x).1 = 0) :
    (concludeFinance x).2 ≠ [] := by
  obtain ⟨c,n⟩ := x
  cases c with
  | noError =>
      rw [concludeFinance_noError]
      exact List.ne_nil_of_length_pos ((fixed_length _ _).symm ▸ by decide)
  | unknownError => exact absurd h (by decide : TC_ERR_FLAG_INTERNAL_ERR ≠ 0)
  | webError => exact absurd h (by decide : TC_INTERNAL_ERROR ≠ 0)
  | invalidParams => exact absurd h (by decide : TC_ERR_FLAG_INVALID_INPUT ≠ 0)

/-- An answer that is a number has always something to copy. -/
theorem given_map {w : World} {mem : Memory} {type : UInt64} {data : Bytes}
    {f : ErrCode × Int32 → UInt64 × Bytes} {x : Exec (ErrCode × Int32)}
    (hanswer : answer w mem type data = f <$> x) (hf : ∀ y, (f y).1 = 0 → (f y).2 ≠ []) :
    Given w mem type data ↔ Completes x := by
  rw [Given,hanswer]
  constructor
  · rintro ⟨errorFlag,respData,h,-⟩
    exact completes_map.mp ⟨_,h⟩
  · rintro ⟨y,rfl⟩
    exact ⟨_,_,rfl,hf y⟩

section Types
variable {w : World} {mem : Memory} {type : UInt64} {data : Bytes}

theorem given_flight (hclient : ∀ q e, w.web q ≠ .noClient e) :
    Given w mem TYPE_FLIGHT_INS data ↔ (data.length = 64 → FlightReadable (w.web
      (FlightScraper.httpRequest (FlightScraper.unixEpoch data)
        (FlightScraper.flightNumber data)))) := by
  refine (given_map (x := FlightScraper.handle w.web mem.delay data 0) rfl
    fun _ => conclude_ne_nil).trans ?_
  by_cases hlen : data.length = 64
  · rw [FlightScraper.handle_eq hlen,completes_map,completes_flight hclient,imp_iff_right hlen]
  · refine iff_of_true ?_ fun h => absurd h hlen
    simpa [FlightScraper.handle,hlen,pure_eq_ok] using completes_ok _

theorem given_stock (hclient : ∀ q e, w.web q ≠ .noClient e) :
    Given w mem TYPE_FINANCE_INFO data ↔ (data.length = 64 → ¬YahooYqlStock.Rejected data →
      YahooYqlStock.word data%2^64 < 2^63 ∧
        ∀ date, Gmtime.gmtimeTc (YahooYqlStock.unixEpoch data) = .ok date →
          ¬YahooYqlStock.refused (YahooYqlStock.symbol data) date →
            StockReadable (w.web (YahooYql.httpRequest (YahooYql.queryUrl
              (YahooYqlStock.yql (YahooYqlStock.symbol data) date) .json YahooYql.tables)))) := by
  have hseconds : Gmtime.SECS_DAY = 86400 := rfl
  refine (given_map (x := YahooYqlStock.handle w.web data 0) rfl
    fun _ => concludeFinance_ne_nil).trans ?_
  by_cases hlen : data.length = 64
  case neg =>
    refine iff_of_true ?_ fun h => absurd h hlen
    simpa [YahooYqlStock.handle,hlen,pure_eq_ok] using completes_ok _
  rw [imp_iff_right hlen]
  by_cases hrejected : YahooYqlStock.Rejected data
  case pos =>
    rw [YahooYqlStock.handle_rejected hlen hrejected]
    exact iff_of_true (completes_ok _) fun h => absurd hrejected h
  rw [imp_iff_right hrejected]
  by_cases hlow : YahooYqlStock.word data%2^64 < 2^63
  · have hle : YahooYqlStock.word data%2^64 ≤ YahooYqlStock.LIMIT := by
      by_contra hlarge
      exact hrejected ((YahooYqlStock.rejected_iff hlen).mpr ⟨Nat.lt_of_not_le hlarge,hlow⟩)
    have hlimit : YahooYqlStock.LIMIT = 0xF4865700 := rfl
    have hyear : Gmtime.EPOCH_YR+(YahooYqlStock.unixEpoch data).toUInt64.toNat/Gmtime.SECS_DAY <
        2^31 := by
      rw [YahooYqlStock.unixEpoch_toNat hlen,hseconds,show Gmtime.EPOCH_YR = 1970 from rfl]
      omega
    obtain ⟨date,hdate,-⟩ := Gmtime.gmtimeTc_ok hyear
    rw [YahooYqlStock.handle_dated hlen hrejected hdate,and_iff_right hlow]
    by_cases hrefused : YahooYqlStock.refused (YahooYqlStock.symbol data) date
    · refine iff_of_true ?_ fun date' hdate' h => ?_
      · unfold YahooYqlStock.handleOne
        rw [if_pos hrefused]
        exact completes_ok _
      · cases hdate.symm.trans hdate'
        exact absurd hrefused h
    · rw [completes_stock hclient hrefused]
      refine ⟨fun h date' hdate' _ => ?_,fun h => h date hdate hrefused⟩
      cases hdate.symm.trans hdate'
      exact h
  · have hyears : 366*2^31 ≤ (YahooYqlStock.unixEpoch data).toUInt64.toNat/Gmtime.SECS_DAY := by
      rw [YahooYqlStock.unixEpoch_toNat hlen,hseconds]
      omega
    have hundefined : YahooYqlStock.handle w.web data 0 = undefined := by
      unfold YahooYqlStock.handle
      rw [if_neg (by simpa using hlen)]
      refine (if_neg hrejected).trans ?_
      rw [Gmtime.gmtimeTc_undefined hyears,bind_undefined]
    rw [hundefined]
    exact iff_of_false (not_completes_error _) fun h => hlow h.1

theorem given_coin (hclient : ∀ q e, w.web q ≠ .noClient e) :
    Given w mem TYPE_COINMARKET data ↔ (data.length = 32 →
      CoinReadable (w.web (CoinMarket.httpRequest (CoinMarket.coinId data)))) := by
  refine (given_map (x := CoinMarket.handle w.web data mem.result) rfl
    fun _ => conclude_ne_nil).trans ?_
  by_cases hlen : data.length = 32
  · rw [completes_coin hclient hlen,imp_iff_right hlen]
  · refine iff_of_true ?_ fun h => absurd h hlen
    simpa [CoinMarket.handle,hlen,pure_eq_ok] using completes_ok _

theorem given_weather (hclient : ∀ q e, w.web q ≠ .noClient e) :
    Given w mem TYPE_WEATHER data ↔ (data.length = 32 → WeatherScraper.city data ≠ [] →
      WeatherReadable (w.web (YahooYql.httpRequest (YahooYql.queryUrl
        (WeatherScraper.constructQuery (WeatherScraper.city data)) .json YahooYql.tables)))) := by
  refine (given_map (x := WeatherScraper.handle w.web data mem.result) rfl
    fun _ => conclude_ne_nil).trans ?_
  by_cases hlen : data.length = 32
  · have hhandle : WeatherScraper.handle w.web data mem.result =
        WeatherScraper.weatherCurrent w.web (WeatherScraper.city data) mem.result := by
      simp [WeatherScraper.handle,hlen]
    rw [hhandle,imp_iff_right hlen]
    by_cases hcity : WeatherScraper.city data = []
    · refine iff_of_true ?_ fun h => absurd hcity h
      unfold WeatherScraper.weatherCurrent
      rw [if_pos hcity]
      exact completes_ok _
    · rw [completes_weather hclient hcity,imp_iff_right hcity]
  · refine iff_of_true ?_ fun h => absurd h hlen
    simpa [WeatherScraper.handle,hlen,pure_eq_ok] using completes_ok _

theorem given_wolfram (hclient : ∀ q e, w.web q ≠ .noClient e) :
    Given w mem TYPE_WOLFRAM data ↔ (data.length = 32 →
      WolframReadable (w.web (WolframScraper.httpRequest (WolframScraper.query data)))) := by
  have hanswer : answer w mem TYPE_WOLFRAM data =
      concludeWolfram <$> WolframScraper.handle w.web data [] := rfl
  rw [Given,hanswer]
  by_cases hlen : data.length = 32
  · rw [← completes_wolfram hclient hlen,imp_iff_right hlen]
    rw [WolframScraper.handle_eq w.web hlen]
    rcases w.web (WolframScraper.httpRequest (WolframScraper.query data)) with e | (_ | _) | r
    · exact iff_of_false (by rintro ⟨f,t,⟨⟩,-⟩) (by rintro ⟨t,⟨⟩,-⟩)
    · exact iff_of_false (by rintro ⟨f,t,⟨⟩,h⟩; exact h rfl rfl) (by rintro ⟨t,⟨⟩,h⟩; exact h rfl)
    · exact iff_of_false (by rintro ⟨f,t,⟨⟩,-⟩) (by rintro ⟨t,⟨⟩,-⟩)
    · refine ⟨?_,?_⟩
      · rintro ⟨f,t,⟨⟩,h⟩
        exact ⟨_,rfl,h rfl⟩
      · rintro ⟨t,⟨⟩,h⟩
        exact ⟨_,_,rfl,fun _ => h⟩
  · refine iff_of_true ⟨TC_INPUT_ERROR,[],?_,fun h => absurd h (by decide)⟩ fun h => absurd h hlen
    simp [WolframScraper.handle,hlen,pure_eq_ok,concludeWolfram]

theorem given_steam (hclient : ∀ q e, w.web q ≠ .noClient e) :
    Given w mem TYPE_STEAM_EX data ↔ Sealed w.key data fun _ => True :=
  (given_map (x := SteamScraper.handle w.web w.key data mem.result) rfl
    fun _ => conclude_ne_nil).trans (completes_steam hclient _)

theorem given_encryptedFlight (hclient : ∀ q e, w.web q ≠ .noClient e) :
    Given w mem TYPE_FLIGHT_INS_ENC data ↔ Sealed w.key data fun v =>
      ∀ flight time, FlightScraper.query v = some (flight,time) → FlightReadable (w.web
        (FlightScraper.httpRequest (toInt64 time).toUInt64 (cstr flight))) :=
  (given_map (x := FlightScraper.handleEncryptedQuery w.web w.key data 0) rfl
    fun _ => conclude_ne_nil).trans (completes_encryptedFlight hclient _)

/-- A fee always comes, set or not, and so does the error of the other types. -/
theorem given_rest (hflight : type ≠ TYPE_FLIGHT_INS) (hsteam : type ≠ TYPE_STEAM_EX)
    (hstock : type ≠ TYPE_FINANCE_INFO) (hcoin : type ≠ TYPE_COINMARKET)
    (hweather : type ≠ TYPE_WEATHER) (hwolfram : type ≠ TYPE_WOLFRAM)
    (hencrypted : type ≠ TYPE_FLIGHT_INS_ENC) : Given w mem type data := by
  by_cases hbitcoin : type = TYPE_BITCOIN_FEE
  · subst hbitcoin
    exact (given_map rfl fun _ => conclude_ne_nil).mpr (completes_bitcoinFee w.web _ _)
  · simp only [Given,answer,hflight,hsteam,hstock,hcoin,hweather,hwolfram,hencrypted,hbitcoin,
      if_false]
    split_ifs
    · exact ⟨_,_,rfl,fun h => absurd h (by decide)⟩
    · exact ⟨_,_,rfl,fun h => absurd h (by decide)⟩

end Types

theorem given_iff {w : World} (hclient : ∀ q e, w.web q ≠ .noClient e) (mem : Memory)
    (type : UInt64) (data : Bytes) : Given w mem type data ↔ Answerable w type data := by
  constructor
  · intro h
    exact {
      flight := fun ht => (given_flight hclient).mp (ht ▸ h)
      steam := fun ht => (given_steam hclient).mp (ht ▸ h)
      stock := fun ht => (given_stock hclient).mp (ht ▸ h)
      coin := fun ht => (given_coin hclient).mp (ht ▸ h)
      weather := fun ht => (given_weather hclient).mp (ht ▸ h)
      wolfram := fun ht => (given_wolfram hclient).mp (ht ▸ h)
      encryptedFlight := fun ht => (given_encryptedFlight hclient).mp (ht ▸ h) }
  · intro h
    by_cases hflight : type = TYPE_FLIGHT_INS
    · exact hflight ▸ (given_flight hclient).mpr (h.flight hflight)
    by_cases hsteam : type = TYPE_STEAM_EX
    · exact hsteam ▸ (given_steam hclient).mpr (h.steam hsteam)
    by_cases hstock : type = TYPE_FINANCE_INFO
    · exact hstock ▸ (given_stock hclient).mpr (h.stock hstock)
    by_cases hcoin : type = TYPE_COINMARKET
    · exact hcoin ▸ (given_coin hclient).mpr (h.coin hcoin)
    by_cases hweather : type = TYPE_WEATHER
    · exact hweather ▸ (given_weather hclient).mpr (h.weather hweather)
    by_cases hwolfram : type = TYPE_WOLFRAM
    · exact hwolfram ▸ (given_wolfram hclient).mpr (h.wolfram hwolfram)
    by_cases hencrypted : type = TYPE_FLIGHT_INS_ENC
    · exact hencrypted ▸ (given_encryptedFlight hclient).mpr (h.encryptedFlight hencrypted)
    exact given_rest hflight hsteam hstock hcoin hweather hwolfram hencrypted

theorem respB32_given {heap : ℕ → UInt8} {errorFlag : UInt64} {respData : Bytes} :
    Completes (respB32 heap errorFlag respData) ↔ (errorFlag = 0 → respData ≠ []) := by
  unfold respB32
  split_ifs with herror hempty
  · exact iff_of_true (completes_ok _) fun h => absurd h herror
  · exact iff_of_false (not_completes_error _) fun h => h (not_not.mp herror) hempty
  · exact iff_of_true (completes_ok _) fun _ => hempty

/-- With the address of the contract and a key to sign, a transaction comes out
whatever the nonce, the id and the memory are if and only if the request and the
answer of the site are fit for the handler of the type. -/
theorem answered_iff (e : Enclave) {w : World} (type : UInt64) (data : Bytes)
    (hto : ∃ mTo, bytes20 (cstr e.contractAddress) = pure mTo)
    (hsign : ∀ hash, (e.ecdsaSign hash).isSome) (hclient : ∀ q c, w.web q ≠ .noClient c) :
    (∀ mem nonce id, ∃ raw, doHandleRequest e w mem nonce id type data = .ok (some raw)) ↔
      Answerable w type data := by
  constructor
  · intro h
    obtain ⟨raw,hraw⟩ := h ⟨0,0,0,fun _ => 0⟩ 0 0
    obtain ⟨⟨errorFlag,respData⟩,hanswer,htx⟩ := bind_eq_ok hraw
    refine (given_iff hclient _ type data).mp ⟨errorFlag,respData,hanswer,?_⟩
    rw [← respB32_given]
    obtain ⟨resp,hresp,-⟩ := bind_eq_ok htx
    exact ⟨resp,hresp⟩
  · intro h mem nonce id
    obtain ⟨errorFlag,respData,hanswer,hne⟩ := (given_iff hclient mem type data).mpr h
    obtain ⟨resp,hresp⟩ := (@respB32_given mem.heap _ _).mpr hne
    obtain ⟨raw,hraw⟩ := Delivery.formTransaction_signs e nonce id type.toUInt8 data hresp hto fun _ => hsign
    refine ⟨raw,?_⟩
    rw [doHandleRequest,hanswer]
    exact hraw

theorem answerable_outage : Answerable Failures.outage TYPE_BITCOIN_FEE [] := by
  constructor <;> intro h <;> exact absurd h (by decide)

/-- Even a fee that the site never sent is signed. -/
theorem answered_outage :
    ∃ raw, doHandleRequest Delivery.sampleEnclave Failures.outage (Answers.filled 42) 1 1
      TYPE_BITCOIN_FEE [] = .ok (some raw) :=
  (answered_iff Delivery.sampleEnclave TYPE_BITCOIN_FEE [] ⟨_,rfl⟩ (fun _ => rfl)
    fun _ _ h => Fetch.noConfusion h).mpr answerable_outage _ _ _

/-- A site whose answer to every query is an object without the expected path. -/
def shapeless : World where
  web := fun _ => .response ⟨200,ascii "\x7b\"query\":5\x7d"⟩
  key := ⟨true,true,fun _ => none⟩

/-- The weather in a city: the accessors of the JSON value throw, and nobody
catches that before `handle_request` gives up. -/
theorem shapeless_unanswered :
    doHandleRequest Delivery.sampleEnclave shapeless (Answers.filled 0) 1 1 TYPE_WEATHER
        (List.replicate 32 97) = raise .runtimeError ∧
      handleRequest Delivery.sampleEnclave shapeless (Answers.filled 0) 1 1 TYPE_WEATHER
        (List.replicate 32 97) = .ok none := by
  decide +kernel

end TownCrier.Replies
