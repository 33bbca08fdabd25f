import TownCrier.Failures
import TownCrier.FlightRequest
import TownCrier.RequestText
import TownCrier.Substrings
import TownCrier.UrlQuery

/-!
# What the enclave sends

For each request of the contract the enclave sends at most one request to a site. The
site reads in it what the code means to send, unless texts of the requester have
separators in them, or words by which `buildRequestMessage` takes the version or
the host for written already. A statement of YQL is encoded and cannot do that.
-/
namespace TownCrier.Failures
open BigEndian Cpp EventHandler HttpMessage Https HybridCipher PicoJson Substrings

/-- No separator, and none of the words that `buildRequestMessage` looks for. -/
structure Inert (separators text : Bytes) : Prop where
  free : Free separators text
  version : ¬found text (ascii "HTTP/1.1")
  host : ¬found text (ascii "Host:")

/-- A request of version 1.1 without headers of its own. -/
def plainGet (host path : Bytes) (params : List (Bytes × Bytes)) : Request where
  method := ascii "GET"
  path := path
  params := params
  version := ascii "HTTP/1.1"
  headers := [ascii "Accept: text/html",ascii "Host: "++host]

def yqlGet (q : Bytes) : Request :=
  plainGet (ascii "query.yahooapis.com") (ascii "/v1/public/yql")
    ((YahooYql.parameters (cstr q) .json YahooYql.tables).map YahooYql.encodeParam)

namespace Query

/-- The request that the code means to send. -/
def meant : Query → Request
  | .bitcoinFee => plainGet (ascii "bitcoinfees.earn.com") (ascii "/api/v1/fees/recommended") []
  | .flight epoch number | .encryptedFlight epoch number =>
      FlightScraper.flightRequest epoch number
  | .stock symbol date => yqlGet (YahooYqlStock.yql symbol date)
  | .coin coinId => plainGet (ascii "api.coinmarketcap.com") (ascii "/v1/ticker/"++coinId++ascii "/") []
  | .weather city => yqlGet (WeatherScraper.constructQuery city)
  | .wolfram query => plainGet (ascii "api.wolframalpha.com") (ascii "/v1/result")
      [(ascii "appid",WolframScraper.APPID),(ascii "i",query)]
  | .steam apiKey cutoffTime => plainGet (ascii "api.steampowered.com")
      (ascii "/IEconService/GetTradeOffers/v0001/")
      [(ascii "get_sent_offers",ascii "0"),(ascii "get_received_offers",ascii "1"),
        (ascii "get_descriptions",ascii "0"),(ascii "active_only",ascii "1"),
        (ascii "historical_only",ascii "1"),(ascii "key",apiKey),
        (ascii "time_historical_cutoff",cutoffTime)]

/-- The texts of the requester leave the request as it is meant. The buffer for the URL
of a flight has 256 bytes. -/
def Harmless : Query → Prop
  | .bitcoinFee | .stock _ _ | .weather _ => True
  | .flight epoch number | .encryptedFlight epoch number =>
      FlightScraper.Unreserved number ∧ number.length+(decimal epoch.toNat).length ≤ 190
  | .coin coinId => Inert [13,10,32,35,63] coinId
  | .wolfram query => Inert [13,10,32,35,38] query
  | .steam apiKey cutoffTime =>
      Inert [13,10,32,35,38] apiKey ∧ Inert [13,10,32,35,38] cutoffTime

/-- The site reads what is meant. -/
def Intact (q : Query) : Prop :=
  RequestText.parse (buildRequestMessage q.httpRequest) = some q.meant

end Query

section Message
variable {r : HttpRequest} {text : Bytes}

theorem found_version (url : Bytes) :
    found (ascii "GET "++url) (ascii "HTTP/1.1") ↔ found url (ascii "HTTP/1.1") :=
  infix_skip (show (72 : UInt8) ∉ ascii "GET " by decide)

theorem found_host (url : Bytes) :
    found (ascii "GET "++url++ascii " HTTP/1.1"++ascii "\r\n"++ascii "Accept: text/html\r\n")
      (ascii "Host:") ↔ found url (ascii "Host:") := by
  have hrest : ascii "GET "++url++ascii " HTTP/1.1"++ascii "\r\n"++ascii "Accept: text/html\r\n" =
      (ascii "GET "++url)++32::ascii "HTTP/1.1\r\nAccept: text/html\r\n" := by
    simp only [List.append_assoc]
    rfl
  have hnone : ¬ascii "Host:" <:+: ascii "HTTP/1.1\r\nAccept: text/html\r\n" := by decide
  rw [hrest,found,infix_separated (show (32 : UInt8) ∉ ascii "Host:" by decide),or_iff_left hnone]
  exact infix_skip (show (72 : UInt8) ∉ ascii "GET " by decide)

/-- `buildRequestMessage` writes a version and a host, unless it finds them in the URL. -/
theorem message_eq_iff (h11 : r.isHttp11 = true) (hheaders : r.headers = []) :
    buildRequestMessage r = printLines [ascii "GET "++r.url++ascii " HTTP/1.1",
      ascii "Accept: text/html",ascii "Host: "++r.host,[]] ↔
    ¬found r.url (ascii "HTTP/1.1") ∧ ¬found r.url (ascii "Host:") := by
  have hprint : printLines [ascii "GET "++r.url++ascii " HTTP/1.1",
      ascii "Accept: text/html",ascii "Host: "++r.host,[]] =
      ascii "GET "++r.url++ascii " HTTP/1.1"++ascii "\r\n"++ascii "Accept: text/html\r\n"++
        ascii "Host: "++r.host++ascii "\r\n"++GET_END := by
    simp only [printLines,List.flatMap_cons,List.flatMap_nil,List.append_assoc,List.nil_append,
      List.append_nil]
    rfl
  have hnone : ([] : List Bytes).flatMap (·++ascii "\r\n") = [] := rfl
  have hversion : (ascii " HTTP/1.1").length = 9 := rfl
  have hhost : (ascii "Host: ").length = 6 := rfl
  rw [hprint]
  simp only [buildRequestMessage,h11,hheaders,hnone,List.append_nil,found_version,true_and]
  by_cases hv : found r.url (ascii "HTTP/1.1")
  · -- without the version the text is too short
    refine iff_of_false (fun h => ?_) fun h => h.1 hv
    have hlen := congrArg List.length h
    rw [if_neg (not_not.mpr hv)] at hlen
    split_ifs at hlen
    all_goals
      simp only [List.length_append,hversion,hhost] at hlen
      omega
  · simp only [hv,not_false_eq_true,if_true,found_host,true_and]
    by_cases hh : found r.url (ascii "Host:")
    · refine iff_of_false (fun h => ?_) fun h => h hh
      have hlen := congrArg List.length h
      rw [if_neg (not_not.mpr hh)] at hlen
      simp only [List.length_append,hhost] at hlen
      omega
    · rw [if_pos hh]
      exact iff_of_true rfl hh

variable {host path : Bytes} {params : List (Bytes × Bytes)}

theorem print_plainGet : RequestText.print (plainGet host path params) =
    printLines [ascii "GET "++RequestText.target path params++ascii " HTTP/1.1",
      ascii "Accept: text/html",ascii "Host: "++host,[]] := by
  have hline : ascii "GET"++32::RequestText.target path params++32::ascii "HTTP/1.1" =
      ascii "GET "++RequestText.target path params++ascii " HTTP/1.1" := by
    simp only [List.append_assoc,List.cons_append]
    rfl
  rw [← hline]
  rfl

theorem readable_plainGet (hhost : Free [13,10] host) :
    Readable (plainGet host path params) ↔ Free [13,10,32,35,63] path ∧
      ∀ p ∈ params, Free [13,10,32,35,38,61] p.1 ∧ Free [13,10,32,35,38] p.2 := by
  constructor
  · intro h
    exact ⟨h.path,fun p hp => ⟨h.keys p hp,h.values p hp⟩⟩
  · intro ⟨hpath,hparams⟩
    refine ⟨show Free _ (ascii "GET") by decide,hpath,fun p hp => (hparams p hp).1,
      fun p hp => (hparams p hp).2,show Free _ (ascii "HTTP/1.1") by decide,?_⟩
    intro h hh
    rcases List.mem_pair.mp hh with rfl | rfl
    · decide
    · have hstart : Free [13,10] (ascii "Host: ") := by decide
      refine ⟨List.cons_ne_nil _ _,fun c hc => ?_⟩
      rcases List.mem_append.mp hc with hc | hc
      · exact hstart c hc
      · exact hhost c hc

/-- A request without headers of its own is read as meant if its parts are readable
and neither word is found in its URL. -/
theorem parse_plain_iff (host path : Bytes) (params : List (Bytes × Bytes)) {url : Bytes}
    (hhost : Free [13,10] host) (hurl : url = RequestText.target path params) :
    RequestText.parse (buildRequestMessage { host := host, url := url, isHttp11 := true }) =
      some (plainGet host path params) ↔
      (Free [13,10,32,35,63] path ∧
        ∀ p ∈ params, Free [13,10,32,35,38,61] p.1 ∧ Free [13,10,32,35,38] p.2) ∧
      ¬found url (ascii "HTTP/1.1") ∧ ¬found url (ascii "Host:") := by
  let r : HttpRequest := { host := host, url := url, isHttp11 := true }
  have hmessage := message_eq_iff (r := r) rfl rfl
  rw [RequestText.parse_eq_some,print_plainGet,← hurl,← readable_plainGet hhost]
  exact and_congr_right fun _ => hmessage

end Message

theorem not_found {w text : Bytes} {c : UInt8} (h : c ∉ text) : ¬found text (c::w) :=
  fun hw => h (hw.subset List.mem_cons_self)

/-- A text between two others that have no place for the words. -/
theorem found_between {w front text : Bytes} {c d : UInt8} (hfront : c ∉ front) (rest : Bytes)
    (hd : d ∉ c::w) (hrest : c ∉ d::rest) :
    found (front++text++d::rest) (c::w) ↔ found text (c::w) := by
  rw [found,List.append_assoc,infix_skip hfront,infix_separated hd]
  refine or_iff_left fun h => hrest ?_
  exact List.mem_cons_of_mem _ (h.subset List.mem_cons_self)

namespace Query

theorem intact_bitcoinFee : bitcoinFee.Intact := by
  have hletter : (72 : UInt8) ∉ ascii "/api/v1/fees/recommended" := by decide
  refine (parse_plain_iff (ascii "bitcoinfees.earn.com") (ascii "/api/v1/fees/recommended") []
    (by decide) rfl).mpr ⟨⟨by decide,nofun⟩,?_⟩
  exact ⟨not_found hletter,not_found hletter⟩

theorem intact_coin (coinId : Bytes) : (coin coinId).Intact ↔ (coin coinId).Harmless := by
  have hslash : found (ascii "/v1/ticker/"++coinId++ascii "/") (ascii "HTTP/1.1") ↔
      found coinId (ascii "HTTP/1.1") := by
    have hsplit : ascii "HTTP/1.1" = ascii "HTTP/1."++[49] := rfl
    have hstart : 72::ascii "TTP/1.1" <:+: ascii "/v1/ticker/"++coinId ↔
        72::ascii "TTP/1.1" <:+: coinId := infix_skip (by decide)
    rw [found,hsplit,show ascii "/" = [47] from rfl,infix_concat (by decide),← hsplit]
    exact hstart
  have hhost : found (ascii "/v1/ticker/"++coinId++ascii "/") (ascii "Host:") ↔
      found coinId (ascii "Host:") :=
    found_between (w := ascii "ost:") (show (72 : UInt8) ∉ ascii "/v1/ticker/" by decide) []
      (show (47 : UInt8) ∉ ascii "Host:" by decide) (by decide)
  have hpath : Free [13,10,32,35,63] (ascii "/v1/ticker/"++coinId++ascii "/") ↔
      Free [13,10,32,35,63] coinId := by
    have hends : Free [13,10,32,35,63] (ascii "/v1/ticker/") ∧ Free [13,10,32,35,63] (ascii "/") := by
      decide
    simp only [Free,List.forall_mem_append] at hends ⊢
    exact ⟨fun h => h.1.2,fun h => ⟨⟨hends.1,h⟩,hends.2⟩⟩
  have htarget : ascii "/v1/ticker/"++coinId++ascii "/" =
      RequestText.target (ascii "/v1/ticker/"++coinId++ascii "/") [] := rfl
  refine (parse_plain_iff (ascii "api.coinmarketcap.com") _ [] (by decide) htarget).trans ?_
  rw [hslash,hhost,hpath]
  constructor
  · intro hintact
    obtain ⟨⟨hfree,-⟩,hv,hh⟩ := hintact
    exact ⟨hfree,hv,hh⟩
  · intro hharmless
    obtain ⟨hfree,hv,hh⟩ := hharmless
    exact ⟨⟨hfree,List.forall_mem_nil _⟩,hv,hh⟩

theorem intact_wolfram (query : Bytes) : (wolfram query).Intact ↔ (wolfram query).Harmless := by
  have hletter : (72 : UInt8) ∉ ascii "/v1/result?appid="++WolframScraper.APPID++ascii "&i=" := by
    decide
  have hversion : found (ascii "/v1/result?appid="++WolframScraper.APPID++ascii "&i="++query)
      (ascii "HTTP/1.1") ↔ found query (ascii "HTTP/1.1") := infix_skip hletter
  have hhost : found (ascii "/v1/result?appid="++WolframScraper.APPID++ascii "&i="++query)
      (ascii "Host:") ↔ found query (ascii "Host:") := infix_skip hletter
  have htarget : ascii "/v1/result?appid="++WolframScraper.APPID++ascii "&i="++query =
      RequestText.target (ascii "/v1/result")
        [(ascii "appid",WolframScraper.APPID),(ascii "i",query)] := by
    rw [RequestText.target_of_params (List.cons_ne_nil _ _)]
    simp only [printQuery,List.map_cons,List.map_nil,List.intercalate_cons_cons,
      List.intercalate_singleton,printParam,List.append_assoc,List.cons_append]
    rfl
  refine (parse_plain_iff (ascii "api.wolframalpha.com") _ _ (by decide) htarget).trans ?_
  rw [hversion,hhost,List.forall_mem_cons,List.forall_mem_singleton]
  have happid : Free [13,10,32,35,38,61] (ascii "appid") ∧
      Free [13,10,32,35,38] WolframScraper.APPID ∧ Free [13,10,32,35,38,61] (ascii "i") ∧
      Free [13,10,32,35,63] (ascii "/v1/result") := by decide
  constructor
  · intro hintact
    obtain ⟨⟨-,-,-,hfree⟩,hv,hh⟩ := hintact
    exact ⟨hfree,hv,hh⟩
  · intro hharmless
    obtain ⟨hfree,hv,hh⟩ := hharmless
    exact ⟨⟨happid.2.2.2,⟨happid.1,happid.2.1⟩,happid.2.2.1,hfree⟩,hv,hh⟩

theorem intact_steam (apiKey cutoffTime : Bytes) :
    (steam apiKey cutoffTime).Intact ↔ (steam apiKey cutoffTime).Harmless := by
  let front := ascii "/IEconService/GetTradeOffers/v0001/?get_sent_offers=0&get_received_offers=1"++
    ascii "&get_descriptions=0&active_only=1&historical_only=1&key="
  have hfront : (72 : UInt8) ∉ front := by decide
  have hmiddle : (72 : UInt8) ∉ ascii "time_historical_cutoff=" := by decide
  have hparts (w : Bytes) (hw : (38 : UInt8) ∉ (72 : UInt8)::w) :
      found (front++apiKey++ascii "&time_historical_cutoff="++cutoffTime) (72::w) ↔
        found apiKey (72::w) ∨ found cutoffTime (72::w) := by
    have hand : ascii "&time_historical_cutoff=" = 38::ascii "time_historical_cutoff=" := rfl
    rw [found,hand,List.append_assoc,List.append_assoc,infix_skip hfront,List.cons_append,
      infix_separated hw,infix_skip hmiddle]
    exact Iff.rfl
  have htarget : front++apiKey++ascii "&time_historical_cutoff="++cutoffTime =
      RequestText.target (ascii "/IEconService/GetTradeOffers/v0001/")
        [(ascii "get_sent_offers",ascii "0"),(ascii "get_received_offers",ascii "1"),
          (ascii "get_descriptions",ascii "0"),(ascii "active_only",ascii "1"),
          (ascii "historical_only",ascii "1"),(ascii "key",apiKey),
          (ascii "time_historical_cutoff",cutoffTime)] := by
    rw [RequestText.target_of_params (List.cons_ne_nil _ _)]
    simp only [printQuery,List.map_cons,List.map_nil,List.intercalate_cons_cons,
      List.intercalate_singleton,printParam,List.append_assoc,List.cons_append]
    rfl
  refine (parse_plain_iff (ascii "api.steampowered.com") _ _ (by decide) htarget).trans ?_
  have hversion : found (front++apiKey++ascii "&time_historical_cutoff="++cutoffTime)
      (ascii "HTTP/1.1") ↔ found apiKey (ascii "HTTP/1.1") ∨ found cutoffTime (ascii "HTTP/1.1") :=
    hparts (ascii "TTP/1.1") (by decide)
  have hhost : found (front++apiKey++ascii "&time_historical_cutoff="++cutoffTime)
      (ascii "Host:") ↔ found apiKey (ascii "Host:") ∨ found cutoffTime (ascii "Host:") :=
    hparts (ascii "ost:") (by decide)
  have hfixed : (Free [13,10,32,35,38,61] (ascii "get_sent_offers") ∧
      Free [13,10,32,35,38,61] (ascii "get_received_offers") ∧
      Free [13,10,32,35,38,61] (ascii "get_descriptions") ∧
      Free [13,10,32,35,38,61] (ascii "active_only") ∧
      Free [13,10,32,35,38,61] (ascii "historical_only") ∧
      Free [13,10,32,35,38,61] (ascii "key") ∧
      Free [13,10,32,35,38,61] (ascii "time_historical_cutoff")) ∧
      Free [13,10,32,35,38] (ascii "0") ∧ Free [13,10,32,35,38] (ascii "1") ∧
      Free [13,10,32,35,63] (ascii "/IEconService/GetTradeOffers/v0001/") := by decide
  obtain ⟨⟨hk₁,hk₂,hk₃,hk₄,hk₅,hk₆,hk₇⟩,h0,h1,hpath⟩ := hfixed
  rw [hversion,hhost,not_or,not_or]
  simp only [List.forall_mem_cons,hk₁,hk₂,hk₃,hk₄,hk₅,hk₆,hk₇,h0,h1,hpath,true_and]
  constructor
  · intro hintact
    obtain ⟨⟨hfree,hfree',-⟩,⟨hv,hv'⟩,hh,hh'⟩ := hintact
    exact ⟨⟨hfree,hv,hh⟩,hfree',hv',hh'⟩
  · intro hharmless
    obtain ⟨⟨hfree,hv,hh⟩,hfree',hv',hh'⟩ := hharmless
    exact ⟨⟨hfree,hfree',List.forall_mem_nil _⟩,⟨hv,hv'⟩,hh,hh'⟩

theorem zero_notMem_cstr (s : Bytes) : 0 ∉ cstr s := by
  intro hmem
  have hne := List.mem_takeWhile_imp hmem
  simp at hne

/-- An encoded text has neither the slash of the version nor the colon of the host. -/
theorem query_letter {q : Bytes} (hq : 0 ∉ q) {c : UInt8}
    (hc : ¬YahooYql.Literal c ∧ c ≠ 37 ∧ c ≠ 38 ∧ c ≠ 61) :
    c ∉ printQuery ((YahooYql.parameters q .json YahooYql.tables).map YahooYql.encodeParam) := by
  have htables : 0 ∉ YahooYql.tables := by decide
  rw [not_mem_printQuery hc.2.2.1 hc.2.2.2,List.forall_mem_map]
  intro p hp
  refine ⟨fun hmem => hc.1 ((YahooYql.mem_parameters hq htables p hp).2 c hmem),fun hmem => ?_⟩
  exact (YahooYql.urlEncode_clean c hmem).elim hc.1 hc.2.1

theorem intact_yql (q : Bytes) :
    RequestText.parse (buildRequestMessage
      (YahooYql.httpRequest (YahooYql.queryUrl q .json YahooYql.tables))) = some (yqlGet q) := by
  have hq := zero_notMem_cstr q
  have htables : 0 ∉ YahooYql.tables := by decide
  have hurl : YahooYql.queryUrl q .json YahooYql.tables = ascii "/v1/public/yql"++63::printQuery
      ((YahooYql.parameters (cstr q) .json YahooYql.tables).map YahooYql.encodeParam) := by
    rw [← YahooYql.queryUrl_eq hq htables,YahooYql.queryUrl,YahooYql.queryUrl,
      YahooYql.cstr_of_notMem hq]
  have hparams : (YahooYql.parameters (cstr q) .json YahooYql.tables).map YahooYql.encodeParam ≠ [] :=
    List.cons_ne_nil _ _
  have htarget := hurl.trans (RequestText.target_of_params hparams).symm
  refine (parse_plain_iff (ascii "query.yahooapis.com") _ _ (by decide) htarget).mpr ⟨⟨?_,?_⟩,?_⟩
  · decide
  · intro p hp
    have hfree : Free [13,10,32,35,38,61] (p.1++p.2) := by
      intro c hc
      obtain ⟨⟨hlow,-,-,hnumber,-⟩,hand,heq⟩ := YahooYql.encoded_free hq htables p hp c hc
      simp only [List.mem_cons,List.not_mem_nil,or_false,not_or]
      refine ⟨?_,?_,?_,hnumber,hand,heq⟩
      all_goals
        rintro rfl
        exact absurd hlow (by decide)
    refine ⟨fun c hc => hfree c (List.mem_append_left _ hc),fun c hc hsep => ?_⟩
    exact hfree c (List.mem_append_right _ hc) (List.mem_append_left [61] hsep)
  · have hletter : (72 : UInt8) ∉ ascii "/v1/public/yql"++[63] := by decide
    rw [hurl,List.append_cons,found,found]
    constructor
    · intro hw
      have hw := (infix_skip (w := ascii "TTP/1.1") hletter).mp hw
      exact query_letter hq (show _ ∧ (47 : UInt8) ≠ 37 ∧ _ by decide) (hw.subset (by decide))
    · intro hw
      have hw := (infix_skip (w := ascii "ost:") hletter).mp hw
      exact query_letter hq (show _ ∧ (58 : UInt8) ≠ 37 ∧ _ by decide) (hw.subset (by decide))

/-- A query which the handlers accept is read as meant if its texts are harmless. -/
theorem intact_iff : ∀ q : Query, q.Intact ↔ q.Harmless
  | bitcoinFee => iff_of_true intact_bitcoinFee trivial
  | flight epoch number | encryptedFlight epoch number =>
      (RequestText.parse_iff_of_params (List.cons_ne_nil _ _)).trans
        (FlightScraper.intact_iff epoch number)
  | stock symbol date => iff_of_true (intact_yql (YahooYqlStock.yql symbol date)) trivial
  | coin coinId => intact_coin coinId
  | weather city => iff_of_true (intact_yql (WeatherScraper.constructQuery city)) trivial
  | wolfram query => intact_wolfram query
  | steam apiKey cutoffTime => intact_steam apiKey cutoffTime

end Query

section Dependence
variable {key : HybridKey} {type : UInt64} {data : Bytes} {q q' : Query} {v v' : Value}

theorem Seals.unique (h : Seals key data v) (h' : Seals key data v') : v' = v := by
  obtain ⟨ciphertext,cleartext,hdecode,hdecrypt,hparse⟩ := h
  obtain ⟨ciphertext',cleartext',hdecode',hdecrypt',hparse'⟩ := h'
  cases hdecode.symm.trans hdecode'
  cases hdecrypt.symm.trans hdecrypt'
  cases hparse.symm.trans hparse'
  rfl

/-- The type says which handler is asked, and the data are read in one way. -/
theorem Asks.unique (h : Asks key type data q) (h' : Asks key type data q') : q' = q := by
  generalize htype : type = type' at h'
  cases h with
  | bitcoinFee => cases h' with
    | bitcoinFee => rfl
    | _ => exact absurd htype (by decide)
  | flight => cases h' with
    | flight => rfl
    | _ => exact absurd htype (by decide)
  | encryptedFlight hseal hquery => cases h' with
    | encryptedFlight hseal' hquery' =>
        cases hseal.unique hseal'
        cases hquery.symm.trans hquery'
        rfl
    | _ => exact absurd htype (by decide)
  | stock _ _ hdate => cases h' with
    | stock _ _ hdate' =>
        cases hdate.symm.trans hdate'
        rfl
    | _ => exact absurd htype (by decide)
  | coin => cases h' with
    | coin => rfl
    | _ => exact absurd htype (by decide)
  | weather => cases h' with
    | weather => rfl
    | _ => exact absurd htype (by decide)
  | wolfram => cases h' with
    | wolfram => rfl
    | _ => exact absurd htype (by decide)
  | steam hseal hquery => cases h' with
    | steam hseal' hquery' =>
        cases hseal.unique hseal'
        cases hquery.symm.trans hquery'
        rfl
    | _ => exact absurd htype (by decide)

theorem seals_of_decrypt {json : Bytes} (hdecrypt : decryptQuery key data = .ok json)
    (hparse : PicoJson.parse json = .ok (.parsed v)) : Seals key data v := by
  by_cases hready : Ready key
  · rcases hdecode : decode (cstr data) with f | ciphertext
    · cases f <;>
        simp [decryptQuery,hready.1,hready.2,HybridKey.queryPubkey,hdecode,catchExn,raise,
          pure_eq_ok] at hdecrypt
    · rcases hcleartext : key.decrypt ciphertext with _ | cleartext
      · simp [decryptQuery,hready.1,hready.2,HybridKey.queryPubkey,HybridKey.hybridDecrypt,hdecode,
          hcleartext,pure_eq_ok,raise,catchExn] at hdecrypt
      · cases (decryptQuery_ready hready hdecode hcleartext).symm.trans hdecrypt
        exact ⟨ciphertext,json,hdecode,hcleartext,hparse⟩
  · rw [decryptQuery_not_ready hready] at hdecrypt
    cases hdecrypt

variable {web web' : Web}

theorem execute_congr {q env : Bytes} {format : YahooYql.Format}
    (h : web (YahooYql.httpRequest (YahooYql.queryUrl q format env)) =
      web' (YahooYql.httpRequest (YahooYql.queryUrl q format env))) :
    YahooYql.execute web q format env = YahooYql.execute web' q format env := by
  unfold YahooYql.execute YahooYql.buildQuery
  split_ifs
  · rfl
  · simp only [pure_eq_ok,bind_ok,h]

theorem bitcoinFee_congr
    (h : ∀ q, Asks key TYPE_BITCOIN_FEE data q → web q.httpRequest = web' q.httpRequest)
    (fees respData : Int32) :
    BitcoinFees.handle web fees respData = BitcoinFees.handle web' fees respData := by
  have hweb : web BitcoinFees.httpRequest = web' BitcoinFees.httpRequest := h _ (.bitcoinFee data)
  rw [BitcoinFees.handle,BitcoinFees.handle,BitcoinFees.getRecommendedFees,
    BitcoinFees.getRecommendedFees,hweb]

theorem flight_congr
    (h : ∀ q, Asks key TYPE_FLIGHT_INS data q → web q.httpRequest = web' q.httpRequest)
    (delay respData : Int32) :
    FlightScraper.handle web delay data respData = FlightScraper.handle web' delay data respData := by
  by_cases hlen : data.length = 64
  · rw [FlightScraper.handle_eq hlen,FlightScraper.handle_eq hlen,
      FlightScraper.getFlightDelay_congr (h _ (.flight hlen))]
  · rw [FlightScraper.handle,FlightScraper.handle,if_pos hlen,if_pos hlen]

theorem encryptedFlight_congr
    (h : ∀ q, Asks key TYPE_FLIGHT_INS_ENC data q → web q.httpRequest = web' q.httpRequest)
    (respData : Int32) : FlightScraper.handleEncryptedQuery web key data respData =
      FlightScraper.handleEncryptedQuery web' key data respData := by
  unfold FlightScraper.handleEncryptedQuery
  rcases hdecrypt : decryptQuery key data with (e | _) | json
  · rfl
  · rfl
  · simp only [map_ok,catchExn_ok,bind_ok]
    rcases hparse : PicoJson.parse json with f | v | v
    · rfl
    · simp only [bind_ok]
      rcases hquery : FlightScraper.query v with _ | ⟨flight,time⟩
      · rfl
      · have hseal := seals_of_decrypt hdecrypt hparse
        simp only [FlightScraper.getFlightDelay_congr (h _ (.encryptedFlight hseal hquery))]
    · rfl

theorem stock_congr
    (h : ∀ q, Asks key TYPE_FINANCE_INFO data q → web q.httpRequest = web' q.httpRequest)
    (respData : Int32) :
    YahooYqlStock.handle web data respData = YahooYqlStock.handle web' data respData := by
  unfold YahooYqlStock.handle
  split_ifs with hlen htime
  · rfl
  · rfl
  rcases hdate : Gmtime.gmtimeTc (YahooYqlStock.unixEpoch data) with f | date
  · rfl
  · simp only [bind_ok]
    unfold YahooYqlStock.handleOne
    split_ifs with hrefused
    · rfl
    · rw [execute_congr (h _ (.stock (not_not.mp hlen) htime hdate hrefused))]

theorem coin_congr
    (h : ∀ q, Asks key TYPE_COINMARKET data q → web q.httpRequest = web' q.httpRequest)
    (respData : Int32) : CoinMarket.handle web data respData = CoinMarket.handle web' data respData := by
  by_cases hlen : data.length = 32
  · have hweb : web (CoinMarket.httpRequest _) = web' (CoinMarket.httpRequest _) := h _ (.coin hlen)
    rw [CoinMarket.handle,CoinMarket.handle,CoinMarket.getprice,CoinMarket.getprice,hweb]
  · rw [CoinMarket.handle,CoinMarket.handle,if_pos hlen,if_pos hlen]

theorem weather_congr
    (h : ∀ q, Asks key TYPE_WEATHER data q → web q.httpRequest = web' q.httpRequest)
    (respData : Int32) :
    WeatherScraper.handle web data respData = WeatherScraper.handle web' data respData := by
  unfold WeatherScraper.handle WeatherScraper.weatherCurrent
  split_ifs with hlen hcity
  · rfl
  · rfl
  · rw [execute_congr (h _ (.weather (not_not.mp hlen) hcity))]

theorem wolfram_congr
    (h : ∀ q, Asks key TYPE_WOLFRAM data q → web q.httpRequest = web' q.httpRequest)
    (output : Bytes) :
    WolframScraper.handle web data output = WolframScraper.handle web' data output := by
  by_cases hlen : data.length = 32
  · have hweb : web (WolframScraper.httpRequest _) = web' (WolframScraper.httpRequest _) :=
      h _ (.wolfram hlen)
    rw [WolframScraper.handle_eq web hlen,WolframScraper.handle_eq web' hlen,hweb]
  · rw [WolframScraper.handle,WolframScraper.handle,if_pos hlen,if_pos hlen]

theorem steam_congr
    (h : ∀ q, Asks key TYPE_STEAM_EX data q → web q.httpRequest = web' q.httpRequest)
    (respData : Int32) :
    SteamScraper.handle web key data respData = SteamScraper.handle web' key data respData := by
  unfold SteamScraper.handle
  rcases hdecrypt : decryptQuery key data with (e | _) | json
  · rfl
  · rfl
  · simp only [map_ok,catchExn_ok,bind_ok]
    rcases hparse : PicoJson.parse json with f | v | v
    · rfl
    · simp only [bind_ok]
      rcases hquery : SteamScraper.query v with _ | ⟨apiKey,cutoffTime⟩
      · rfl
      · have hseal := seals_of_decrypt hdecrypt hparse
        have hweb : web (SteamScraper.httpRequest _ _) = web' (SteamScraper.httpRequest _ _) :=
          h _ (.steam hseal hquery)
        simp only [SteamScraper.getSteamTransaction,hweb]
    · rfl

/-- An answer to any other request makes no difference. -/
theorem answer_congr (h : ∀ q, Asks key type data q → web q.httpRequest = web' q.httpRequest)
    (mem : Memory) : answer ⟨web,key⟩ mem type data = answer ⟨web',key⟩ mem type data := by
  unfold answer
  dsimp only
  split_ifs with h₁ h₂ h₃ h₄ h₅ h₆ h₇ h₈ h₉
  · rw [bitcoinFee_congr (h₁ ▸ h)]
  · rw [flight_congr (h₂ ▸ h)]
  · rw [steam_congr (h₃ ▸ h)]
  · rw [stock_congr (h₄ ▸ h)]
  · rfl
  · rw [coin_congr (h₆ ▸ h)]
  · rw [weather_congr (h₇ ▸ h)]
  · rw [wolfram_congr (h₈ ▸ h)]
  · rw [encryptedFlight_congr (h₉ ▸ h)]
  · rfl

end Dependence

/-- Whatever the contract hands to the enclave, at most one request is sent for it, the
answer depends on what comes back for this request only, and the site reads it as meant
just when the texts of the requester are harmless. -/
theorem requests_read_as_meant (key : HybridKey) (type : UInt64) (data : Bytes) :
    (∀ q q', Asks key type data q → Asks key type data q' → q' = q) ∧
    (∀ web web' : Web, (∀ q, Asks key type data q → web q.httpRequest = web' q.httpRequest) →
      ∀ mem, answer ⟨web,key⟩ mem type data = answer ⟨web',key⟩ mem type data) ∧
    ∀ q, Asks key type data q → (q.Intact ↔ q.Harmless) :=
  ⟨fun _ _ h h' => h.unique h',fun _ _ h mem => answer_congr h mem,fun q _ => q.intact_iff⟩

def noKey : HybridKey := ⟨true,false,fun _ => none⟩

/-- The name of a coin, and one that goes on with the version and a header of its own. -/
theorem requests_read_as_meant_coins :
    (Query.coin (CoinMarket.coinId (ascii "bitcoin"++List.replicate 25 0))).Intact ∧
    ¬(Query.coin (CoinMarket.coinId (ascii "bitcoin HTTP/1.1\r\nX-Injected:yes"))).Intact := by
  constructor
  · refine ((requests_read_as_meant noKey TYPE_COINMARKET _).2.2 _ (.coin rfl)).mpr ?_
    have hletter : (72 : UInt8) ∉ CoinMarket.coinId (ascii "bitcoin"++List.replicate 25 0) := by decide
    exact ⟨by decide,not_found hletter,not_found hletter⟩
  · intro h
    have hharmless := ((requests_read_as_meant noKey TYPE_COINMARKET _).2.2 _ (.coin rfl)).mp h
    exact absurd hharmless.free (by decide)

end TownCrier.Failures
