import TownCrier.Exchange
import TownCrier.JsonGrammar
import TownCrier.Lookups
import TownCrier.SignedAnswers

/-!
# What the site tells is what the contract gets

A site answers the request for a number with a document, in whatever way it writes it
down and whatever the network cuts it into. The number that the document has for this
request is the one in the transaction which the enclave signs, up to its sign.
-/
namespace TownCrier.Feed
open BigEndian Cpp Numerals Https HybridCipher PicoJson EventHandler Failures Replies SignedAnswers
open Delivery FormTransaction

/-- A flight that has left, or that is cancelled: the seconds from the scheduled time on. -/
structure Departs (epoch : UInt64) (v : Value) (n : Int32) : Prop where
  listed : path ["error"] v = none
  departure : ∃ flight flights d, path ["FlightInfoExResult","flights"] v =
    some (.array (flight::flights)) ∧ path ["actualdeparturetime"] flight = some (.number d) ∧
      toUInt64 d ≠ 0 ∧ n = (FlightScraper.classify 0 (toUInt64 d) epoch).2

/-- The number that a document has for a query. -/
inductive Tells : Query → Value → Int32 → Prop
  | fee {v d} (h : path ["fastestFee"] v = some (.number d)) : Tells .bitcoinFee v (toInt32 d)
  | flight {epoch number v n} (h : Departs epoch v n) : Tells (.flight epoch number) v n
  | encryptedFlight {epoch number v n} (h : Departs epoch v n) :
      Tells (.encryptedFlight epoch number) v n
  | close {symbol date v s} (h : path ["query","results","quote","Close"] v = some (.string s)) :
      Tells (.stock symbol date) v (strtod (cstr s)).1.toInt32
  | price {coinId ticker s} (h : path ["price_usd"] ticker = some (.string s)) :
      Tells (.coin coinId) (.array [ticker]) (strtod s).1.toInt32
  | temperature {city v s} (h : path temperatureKeys v = some (.string s)) :
      Tells (.weather city) v (atoi (cstr s))
  | trade {apiKey cutoffTime v r} (h : path ["response"] v = some r) :
      Tells (.steam apiKey cutoffTime) v (if r.evaluateAsBoolean then 1 else 0)

section Path
variable {v x : Value} {key : String} {keys : List String}

theorem path_cons (h : path (key::keys) v = some x) :
    ∃ fields y, v = .object fields ∧ fields.lookup (ascii key) = some y ∧ path keys y = some x := by
  cases v with
  | object fields =>
      obtain ⟨y,hy,hx⟩ := Option.bind_eq_some_iff.mp h
      exact ⟨fields,y,rfl,hy,hx⟩
  | _ => cases h

theorem get_of_path (h : path (key::keys) v = some x) :
    ∃ y, v.get key = .ok y ∧ path keys y = some x := by
  obtain ⟨fields,y,rfl,hy,hx⟩ := path_cons h
  exact ⟨y,by rw [Value.get_object,hy]; rfl,hx⟩

theorem second_of_path (h : path (key::keys) v = some x) :
    ∃ y, WeatherScraper.second v key = .ok y ∧ path keys y = some x := by
  obtain ⟨fields,y,rfl,hy,hx⟩ := path_cons h
  exact ⟨y,by simp [WeatherScraper.second,hy,pure_eq_ok],hx⟩

theorem isObject_of_path (h : path (key::keys) v = some x) : v.isObject = true := by
  obtain ⟨fields,y,rfl,-⟩ := path_cons h
  rfl

end Path

section Handlers
variable {web : Web} {key : HybridKey} {data : Bytes} {r : HttpResponse} {v : Value} {n : Int32}

theorem bitcoinFee_told (hweb : web BitcoinFees.httpRequest = .response r)
    (hstatus : r.statusCode = 200) (hparse : parse r.content = .ok (.parsed v))
    (h : Tells .bitcoinFee v n) (fees respData : Int32) :
    BitcoinFees.handle web fees respData = .ok (.noError,n) := by
  cases h with
  | @fee _ d h =>
      obtain ⟨fields,y,rfl,hy,hd⟩ := path_cons h
      cases hd
      have hfee : BitcoinFees.fastestFee (.parsed (.object fields)) = some d := by
        rw [BitcoinFees.fastestFee,hy]
      rw [BitcoinFees.handle,BitcoinFees.getRecommendedFees_eq hweb hstatus hparse,hfee]
      rfl

theorem reported_of_departs {epoch : UInt64} (hparse : parse (cstr r.content) = .ok (.parsed v))
    (h : Departs epoch v n) : ∃ d, FlightScraper.reportedDeparture r.content = some d ∧
      ∀ delay respData, FlightScraper.report (FlightScraper.classify delay (toUInt64 d) epoch).1
        (FlightScraper.classify delay (toUInt64 d) epoch).2 respData = (.noError,n) := by
  obtain ⟨hlisted,flight,flights,d,hflights,hd,hleft,rfl⟩ := h
  obtain ⟨fields,result,rfl,hresult,hinner⟩ := path_cons hflights
  obtain ⟨inner,y,rfl,hy,hlist⟩ := path_cons hinner
  cases hlist
  obtain ⟨fields',z,rfl,hz,hnumber⟩ := path_cons hd
  cases hnumber
  have herror : fields.lookup (ascii "error") = none := by
    rcases hlookup : fields.lookup (ascii "error") with _ | x
    · rfl
    · rw [path,hlookup] at hlisted
      cases hlisted
  refine ⟨d,?_,fun delay respData => ?_⟩
  · unfold FlightScraper.reportedDeparture
    rw [hparse]
    dsimp only
    rw [herror,hresult]
    dsimp only
    rw [hy]
    dsimp only
    rw [hz]
  · unfold FlightScraper.classify
    rw [if_neg hleft,if_neg hleft]
    split_ifs <;> rfl

theorem flight_told {epoch : UInt64} {number : Bytes}
    (hweb : web (FlightScraper.httpRequest epoch number) = .response r)
    (hparse : parse (cstr r.content) = .ok (.parsed v)) (h : Departs epoch v n)
    (delay respData : Int32) :
    (fun x : FlightScraper.FlightError × Int32 => FlightScraper.report x.1 x.2 respData) <$>
      FlightScraper.getFlightDelay web epoch number delay = .ok (.noError,n) := by
  obtain ⟨d,hd,hreport⟩ := reported_of_departs hparse h
  rw [FlightScraper.getFlightDelay_reported hweb hd,map_ok,hreport]

theorem coin_told {coinId : Bytes} (hweb : web (CoinMarket.httpRequest coinId) = .response r)
    (hparse : parse r.content = .ok (.parsed v)) (h : Tells (.coin coinId) v n) :
    CoinMarket.getprice web coinId = .ok n := by
  cases h with
  | price h =>
      obtain ⟨fields,y,rfl,hy,hs⟩ := path_cons h
      cases hs
      simp [CoinMarket.getprice,hweb,Fetch.client,Fetch.getResponse,hparse,CoinMarket.price,hy,
        pure_eq_ok]

theorem execute_told {q env : Bytes} {format : YahooYql.Format} (hq : q ≠ [])
    (hweb : web (YahooYql.httpRequest (YahooYql.queryUrl q format env)) = .response r) :
    YahooYql.execute web q format env = .ok (some r.content) := by
  rw [YahooYql.execute_eq web hq,hweb]

theorem stock_told {symbol : Bytes} {date : Gmtime.Date} (hrefused : ¬YahooYqlStock.refused symbol date)
    (hweb : web (Query.stock symbol date).httpRequest = .response r)
    (hparse : parse r.content = .ok (.parsed v)) (h : Tells (.stock symbol date) v n)
    (respData : Int32) : YahooYqlStock.handleOne web symbol date respData = .ok (.noError,n) := by
  cases h with
  | close h =>
      have hobject := isObject_of_path h
      obtain ⟨query,hquery,h⟩ := get_of_path h
      obtain ⟨results,hresults,h⟩ := get_of_path h
      obtain ⟨fields,_,rfl,-⟩ := path_cons h
      obtain ⟨quote,hquote,h⟩ := get_of_path h
      obtain ⟨close,hclose,h⟩ := get_of_path h
      cases h
      rw [YahooYqlStock.handleOne,if_neg hrefused,execute_told (YahooYqlStock.yql_ne_nil symbol date) hweb]
      simp [hparse,hobject,YahooYqlStock.closing,hquery,hresults,hquote,hclose,
        Value.evaluateAsBoolean,pure_eq_ok]

theorem weather_told {city : Bytes} (hcity : city ≠ [])
    (hweb : web (Query.weather city).httpRequest = .response r)
    (hparse : parse r.content = .ok (.parsed v)) (h : Tells (.weather city) v n)
    (respData : Int32) : WeatherScraper.weatherCurrent web city respData = .ok (.noError,n) := by
  have hquery : WeatherScraper.constructQuery city ≠ [] := by
    simp only [WeatherScraper.constructQuery,List.append_assoc]
    exact List.cons_ne_nil _ _
  cases h with
  | temperature h =>
      have hobject := isObject_of_path h
      obtain ⟨query,hq,h⟩ := second_of_path h
      obtain ⟨results,hresults,h⟩ := second_of_path h
      obtain ⟨fields,_,rfl,-⟩ := path_cons h
      obtain ⟨channel,hchannel,h⟩ := second_of_path h
      obtain ⟨item,hitem,h⟩ := second_of_path h
      obtain ⟨condition,hcondition,h⟩ := second_of_path h
      obtain ⟨temp,htemp,h⟩ := second_of_path h
      cases h
      rw [WeatherScraper.weatherCurrent,if_neg hcity,execute_told hquery hweb]
      simp [hparse,hobject,hq,hresults,WeatherScraper.temperature,hchannel,hitem,hcondition,htemp,
        Value.asString,pure_eq_ok]

theorem steam_told {apiKey cutoffTime : Bytes}
    (hweb : web (SteamScraper.httpRequest apiKey cutoffTime) = .response r)
    (hparse : parse r.content = .ok (.parsed v)) (h : Tells (.steam apiKey cutoffTime) v n)
    (respData : Int32) :
    SteamScraper.getSteamTransaction web apiKey cutoffTime respData = .ok (.noError,n) := by
  cases h with
  | trade h =>
      have hobject := isObject_of_path h
      obtain ⟨response,hresponse,h⟩ := get_of_path h
      cases h
      simp [SteamScraper.getSteamTransaction,hweb,Fetch.client,Fetch.getResponse,hparse,hobject,
        hresponse,pure_eq_ok]

/-- The handler of a query gives the number that the document of the site has for it. -/
theorem scraped_of_tells {type : UInt64} {q : Query} (hasks : Asks key type data q)
    (hready : q.encrypted = true → Ready key) (hweb : web q.httpRequest = .response r)
    (hstatus : r.statusCode = 200) (hparse : parse r.content = .ok (.parsed v))
    (hcstr : cstr r.content = r.content) (h : Tells q v n) (mem : Memory) :
    Scraped ⟨web,key⟩ mem data type n := by
  have hparse' : parse (cstr r.content) = .ok (.parsed v) := hcstr.symm ▸ hparse
  cases hasks with
  | bitcoinFee => exact .bitcoinFee (bitcoinFee_told hweb hstatus hparse h _ _)
  | flight hlen =>
      cases h with
      | flight h =>
          refine .flight ?_
          rw [FlightScraper.handle_eq hlen]
          exact flight_told hweb hparse' h _ _
  | encryptedFlight hseal hquery =>
      obtain ⟨ciphertext,cleartext,hdecode,hdecrypt,hsealed⟩ := hseal
      cases h with
      | encryptedFlight h =>
          refine .encryptedFlight ?_
          have htold := flight_told hweb hparse' h 0 0
          rw [FlightScraper.handleEncryptedQuery,decryptQuery_ready (hready rfl) hdecode hdecrypt]
          simp only [map_ok,catchExn_ok,bind_ok,hsealed,hquery]
          exact htold
  | stock hlen htime hdate hrefused =>
      refine .stock ?_
      rw [YahooYqlStock.handle,if_neg (not_not.mpr hlen),if_neg htime,hdate]
      exact stock_told hrefused hweb hparse h _
  | coin hlen =>
      refine .coin ?_
      rw [CoinMarket.handle,if_neg (not_not.mpr hlen),coin_told hweb hparse h]
      rfl
  | weather hlen hcity =>
      refine .weather ?_
      rw [WeatherScraper.handle,if_neg (not_not.mpr hlen)]
      exact weather_told hcity hweb hparse h _
  | wolfram => cases h
  | steam hseal hquery =>
      obtain ⟨ciphertext,cleartext,hdecode,hdecrypt,hsealed⟩ := hseal
      refine .steam ?_
      rw [SteamScraper.handle,decryptQuery_ready (hready rfl) hdecode hdecrypt]
      simp only [map_ok,catchExn_ok,bind_ok,hsealed,hquery]
      exact steam_told hweb hparse h _

end Handlers

theorem quad_noNul {q : Bytes} {n : ℕ} (h : Quad q n) : 0 ∉ q := by
  have hzero : digitValue 16 0 = none := by decide
  cases h with
  | digits ha hb hc hd =>
      simp only [List.mem_cons,List.not_mem_nil,or_false,not_or]
      refine ⟨?_,?_,?_,?_⟩
      all_goals
        rintro rfl
        first
          | exact absurd (hzero.symm.trans ha) nofun
          | exact absurd (hzero.symm.trans hb) nofun
          | exact absurd (hzero.symm.trans hc) nofun
          | exact absurd (hzero.symm.trans hd) nofun

theorem escaped_noNul {e x : Bytes} (h : Escaped e x) : 0 ∉ e := by
  have hzero : escape 0 = none := by decide
  cases h with
  | char hc =>
      rw [List.mem_singleton]
      rintro rfl
      cases hzero.symm.trans hc
  | unit hq => simp [quad_noNul hq]
  | pair hq _ hq' => simp [quad_noNul hq,quad_noNul hq']

theorem chars_noNul {t cs : Bytes} (h : Chars t cs) : 0 ∉ t := by
  induction h with
  | nil => exact List.not_mem_nil
  | plain hctrl _ _ _ ih =>
      rw [List.mem_cons,not_or]
      refine ⟨?_,ih⟩
      rintro rfl
      exact absurd hctrl (by decide)
  | escape he _ ih => simp [escaped_noNul he,ih]

theorem blanks_noNul {w : Bytes} (h : Blanks w) : 0 ∉ w :=
  fun hmem => absurd (h 0 hmem) (by decide)

/-- The text of a document is a C string. -/
theorem text_noNul {node : Node} {t : Bytes} (h : Text node t) : 0 ∉ t := by
  have hwords : 0 ∉ ascii "null" ∧ 0 ∉ ascii "false" ∧ 0 ∉ ascii "true" := by decide
  have hnumber : numberChar 0 = false := by decide
  induction h with
  | null hw => simp [blanks_noNul hw,hwords]
  | false hw => simp [blanks_noNul hw,hwords]
  | true hw => simp [blanks_noNul hw,hwords]
  | number hw hc ht =>
      rw [List.mem_append,not_or]
      exact ⟨blanks_noNul hw,fun hmem => absurd (hnumber.symm.trans (ht 0 hmem)) nofun⟩
  | string hw ht => simp [blanks_noNul hw,chars_noNul ht]
  | emptyArray hw hw' | emptyObject hw hw' => simp [blanks_noNul hw,blanks_noNul hw']
  | array hw _ ih | object hw _ ih | lastItem _ hw ih => simp [blanks_noNul hw,ih]
  | item _ hw _ ih ih' => simp [blanks_noNul hw,ih,ih']
  | lastMember hw hk hw' _ hw'' ih =>
      simp [blanks_noNul hw,chars_noNul hk,blanks_noNul hw',blanks_noNul hw'',ih]
  | member hw hk hw' _ hw'' _ ih ih' =>
      simp [blanks_noNul hw,chars_noNul hk,blanks_noNul hw',blanks_noNul hw'',ih,ih']

theorem bounded_of_tells {q : Query} {v : Value} {n : Int32} (h : Tells q v n) (rest : Bytes) :
    Bounded v rest := by
  have hobject {v x : Value} {key : String} {keys : List String} (h : path (key::keys) v = some x) :
      Bounded v rest := by
    obtain ⟨fields,y,rfl,-⟩ := path_cons h
    trivial
  cases h with
  | fee h | close h | temperature h | trade h => exact hobject h
  | flight h | encryptedFlight h =>
      obtain ⟨flight,flights,d,hflights,-⟩ := h.departure
      exact hobject hflights
  | price => trivial

/-- A transaction that the handler returns is one that was signed. -/
theorem handleRequest_eq_some {e : Enclave} {w : World} {mem : Memory} {nonce : Int32}
    {id type : UInt64} {data raw : Bytes} :
    handleRequest e w mem nonce id type data = .ok (some raw) ↔
      doHandleRequest e w mem nonce id type data = .ok (some raw) := by
  unfold handleRequest
  rcases doHandleRequest e w mem nonce id type data with (exn | _) | out
  · exact iff_of_false nofun nofun
  · exact iff_of_false nofun nofun
  · rfl

/-- The number which a site has for a query reaches the contract: the transaction that the
enclave signs for the request delivers it, without an error, as a word of which the low
four bytes are those of the number; and if the enclave can sign at all, it signs. -/
theorem site_tells_contract {key : HybridKey} {type : UInt64} {data t rest : Bytes} {q : Query}
    {v : Value} {n : Int32} {site : Site} {s : Session} {web : Web}
    (hasks : Asks key type data q) (hready : q.encrypted = true → Ready key) (hharmless : q.Harmless)
    (hserves : Serves site s q.httpRequest) (hmeets : Meets s q.httpRequest web)
    (hstatus : (site q.meant).response.statusCode = 200) (htext : Text (.value v) t)
    (hbody : (site q.meant).body = t++rest) (hrest : 0 ∉ rest) (htells : Tells q v n)
    (e : Enclave) (mem : Memory) (nonce : Int32) (id : UInt64) :
    (∀ raw, handleRequest e ⟨web,key⟩ mem nonce id type data = .ok (some raw) →
      ∃ items call respData, Rlp.parse raw = some (.list items) ∧ items[5]? = some (.str call) ∧
        decodeDeliver e.keccak call =
          some (.deliver id (e.keccak (type.toUInt8::data)) 0 respData) ∧
        respData.toInt = n.toInt%2^32) ∧
    ((∃ mTo, Encoding.bytes20 (cstr e.contractAddress) = pure mTo) →
      (∀ hash, (e.ecdsaSign hash).isSome) →
      ∃ raw, handleRequest e ⟨web,key⟩ mem nonce id type data = .ok (some raw)) := by
  have hweb : web q.httpRequest = .response (site q.meant).response := by
    obtain ⟨k,out,hout,hfetch⟩ := hmeets
    rw [(run_served hserves (q.intact_iff.mpr hharmless) out).mp ⟨k,hout⟩] at hfetch
    exact (Option.some.inj hfetch).symm
  have hparse : parse (site q.meant).body = .ok (.parsed v) := by
    rw [hbody]
    exact parse_text htext (bounded_of_tells htells rest)
  have hcstr : cstr (site q.meant).body = (site q.meant).body := by
    refine YahooYql.cstr_of_notMem ?_
    rw [hbody,List.mem_append,not_or]
    exact ⟨text_noNul htext,hrest⟩
  have hscraped := scraped_of_tells hasks hready hweb hstatus hparse hcstr htells mem
  have hsigned := respB32_lowWord mem.heap n
  simp only [handleRequest_eq_some,doHandleRequest_scraped e nonce id hscraped]
  refine ⟨fun raw hraw => ?_,fun hto hsign => ?_⟩
  · obtain ⟨items,call,hitems,hcall,hdeliver⟩ := formTransaction_decodes e hsigned hraw
    exact ⟨items,call,_,hitems,hcall,hdeliver,toInt_lowWord n⟩
  · exact formTransaction_signs e nonce id type.toUInt8 data hsigned hto fun _ => hsign

def forecast : Bytes :=
  ascii "\x7b\"query\":\x7b\"results\": \x7b\"channel\":\x7b\"item\":\x7b\"condition\":"++
    ascii "\x7b\"temp\":\"21\"\x7d\x7d \x7d\x7d\x7d\x7d"

def nested : List String → Value → Value
  | [], v => v
  | key::keys, v => .object [(ascii key,nested keys v)]

def forecastValue : Value := nested temperatureKeys (.string (ascii "21"))

theorem forecast_text : Text (.value forecastValue) forecast := by
  have hparse : parseValue (forecast.length+1) .null forecast = .ok (.success forecastValue []) := rfl
  obtain ⟨t,ht,hforecast,-⟩ := parseValue_sound _ _ _ _ _ hparse
  rw [List.append_nil] at hforecast
  rwa [hforecast]

/-- The document, with the end of the stream after it. -/
def forecastSent : Sent where
  head := ⟨ascii "HTTP/1.1",ascii "200",ascii "OK",[]⟩
  rest := forecast
  body := forecast
  ending := .eof
  proper := ⟨by decide,by decide,by decide,nofun⟩
  closed := nofun
  numbered := ⟨⟨by decide +kernel,by decide⟩,nofun⟩
  small := by decide
  sends := .untilEnd (by decide) rfl rfl

def forecastSession : Session := { patient with reads := bytewise forecastSent.stream .eof }

def forecastWeb : Web := fun _ => .response forecastSent.response

theorem site_tells_contract_weather : ∃ raw items call respData,
    handleRequest sampleEnclave ⟨forecastWeb,noKey⟩ blank 4 1 TYPE_WEATHER city = .ok (some raw) ∧
      Rlp.parse raw = some (.list items) ∧ items[5]? = some (.str call) ∧
      decodeDeliver sampleEnclave.keccak call = some (.deliver 1 3 0 respData) ∧
      respData.toInt = 21 := by
  have hasks : Asks noKey TYPE_WEATHER city (.weather (WeatherScraper.city city)) :=
    .weather rfl (by decide)
  have hmessage : buildRequestMessage (Query.weather (WeatherScraper.city city)).httpRequest =
      RequestText.print (Query.weather (WeatherScraper.city city)).meant :=
    (RequestText.parse_eq_some.mp ((Query.weather (WeatherScraper.city city)).intact_iff.mpr trivial)).2
  have hserves : Serves (fun _ => forecastSent) forecastSession
      (Query.weather (WeatherScraper.city city)).httpRequest := by
    refine ⟨rfl,?_,fun _ _ => carries_bytewise _ _⟩
    rw [hmessage]
    decide +kernel
  have htells : Tells (.weather (WeatherScraper.city city)) forecastValue 21 := by
    have hpath : path temperatureKeys forecastValue = some (.string (ascii "21")) := rfl
    have htemp : atoi (cstr (ascii "21")) = 21 := by decide
    exact htemp ▸ .temperature hpath
  have hmeets : Meets forecastSession (Query.weather (WeatherScraper.city city)).httpRequest
      forecastWeb := by
    obtain ⟨n,hn⟩ := (run_served hserves
      ((Query.weather (WeatherScraper.city city)).intact_iff.mpr trivial) _).mpr rfl
    exact ⟨n,_,hn,rfl⟩
  obtain ⟨hdelivers,hsigns⟩ := site_tells_contract hasks nofun trivial hserves hmeets rfl
    forecast_text (List.append_nil _).symm List.not_mem_nil htells sampleEnclave blank 4 1
  obtain ⟨raw,hraw⟩ := hsigns ⟨⟨_,by decide⟩,rfl⟩ fun _ => rfl
  obtain ⟨items,call,respData,hitems,hcall,hdeliver,hvalue⟩ := hdelivers raw hraw
  exact ⟨raw,items,call,respData,hraw,hitems,hcall,hdeliver,hvalue⟩

end TownCrier.Feed
