import TownCrier.FlightScraper

/-!
# Fees, coin prices, Wolfram answers and Steam trades

`bitcoinfees.cpp`, `coinmarketcap.cpp`, `wolfram.cpp` and the part of
`steam2.cpp` which the event handler reaches. As with the flights, a handler
returns its error code and the content of its caller's variable.
-/
namespace TownCrier
open BigEndian Cpp Numerals Https HybridCipher PicoJson

namespace BitcoinFees

def httpRequest : HttpRequest where
  host := ascii "bitcoinfees.earn.com"
  url := ascii "/api/v1/fees/recommended"
  isHttp11 := true

/-- The fields of the result are assigned in order, up to the first that throws. -/
def readFees (v : Value) (fastestFee : Int32) : Exec Int32 :=
  let read (key : String) : Exec ℚ := do (← v.get key).asNumber
  match read "fastestFee" with
  | .ok d => pure (toInt32 d)
  | .error (.throw _) => pure fastestFee
  | .error .undefined => undefined

/-- The field `fastestFee` of the result, which holds anything before the call. -/
def getRecommendedFees (web : Web) (fastestFee : Int32) : Exec Int32 := do
  let fetch := web httpRequest
  fetch.client
  let httpResponse ← fetch.getResponse
  if httpResponse.statusCode ≠ 200 then pure fastestFee
  else
    match ← parse httpResponse.content with
    | .malformed _ => pure fastestFee
    | .parsed v => if v.isObject then readFees v fastestFee else pure fastestFee

/-- `RecommendedFees fees` has no initial value: `fees` is what it holds. -/
def handle (web : Web) (fees : Int32) (responseData : Int32) : Exec (ErrCode × Int32) :=
  catchExn (do return (.noError,← getRecommendedFees web fees)) fun
    | .invalidArgument => pure (.invalidParams,responseData)
    | _ => pure (.webError,responseData)

def fastestFee : Document → Option ℚ
  | .parsed (.object fields) =>
      match fields.lookup (ascii "fastestFee") with
      | some (.number d) => some d
      | _ => none
  | _ => none

/-- An answer that leaves the fee as it was, without an exception that gets out. -/
def Unset : Fetch → Prop
  | .response r => r.statusCode ≠ 200 ∨ ∃ doc, parse r.content = .ok doc ∧ fastestFee doc = none
  | _ => False

theorem Unset.response {f : Fetch} (h : Unset f) : ∃ r, f = .response r ∧
    (r.statusCode ≠ 200 ∨ ∃ doc, parse r.content = .ok doc ∧ fastestFee doc = none) := by
  cases f with
  | response r => exact ⟨r,rfl,h⟩
  | noClient e => exact h.elim
  | noResponse e => exact h.elim

theorem readFees_eq (fields : List (Bytes × Value)) (fastestFee₀ : Int32) :
    readFees (.object fields) fastestFee₀ =
      .ok (((fastestFee (.parsed (.object fields))).map toInt32).getD fastestFee₀) := by
  rcases h : fields.lookup (ascii "fastestFee") with _ | v
  · simp [readFees,fastestFee,h,Value.asNumber,raise,pure_eq_ok]
  · obtain ⟨d,rfl⟩ | hv := v.asNumber_or
    · simp [readFees,fastestFee,h,pure_eq_ok]
    · have hnone : fastestFee (.parsed (.object fields)) = none := by
        rw [fastestFee,h]
        cases v <;> first | rfl | cases hv
      simp [readFees,h,hv,hnone,raise,pure_eq_ok]

theorem getRecommendedFees_eq {web : Web} {r : HttpResponse} (hweb : web httpRequest = .response r)
    (hstatus : r.statusCode = 200) {doc : Document} (hdoc : parse r.content = .ok doc)
    (fees : Int32) :
    getRecommendedFees web fees = .ok (((fastestFee doc).map toInt32).getD fees) := by
  rcases doc with v | v
  · obtain ⟨fields,rfl⟩ | hv := v.object_or
    · simp [getRecommendedFees,hweb,Fetch.client,Fetch.getResponse,hstatus,hdoc,readFees_eq,
        pure_eq_ok]
    · have hnone : fastestFee (.parsed v) = none := by
        cases v <;> first | rfl | cases hv
      simp [getRecommendedFees,hweb,Fetch.client,Fetch.getResponse,hstatus,hdoc,hv,hnone,pure_eq_ok]
  · simp [getRecommendedFees,hweb,Fetch.client,Fetch.getResponse,hstatus,hdoc,fastestFee,pure_eq_ok]

theorem handle_unset {web : Web} (h : Unset (web httpRequest)) (fees responseData : Int32) :
    handle web fees responseData = .ok (.noError,fees) := by
  obtain ⟨r,hweb,hcase⟩ := h.response
  by_cases hstatus : r.statusCode = 200
  · obtain ⟨doc,hdoc,hfee⟩ := hcase.resolve_left (not_not.mpr hstatus)
    simp [handle,getRecommendedFees_eq hweb hstatus hdoc,hfee,pure_eq_ok]
  · simp [handle,getRecommendedFees,hweb,Fetch.client,Fetch.getResponse,hstatus,pure_eq_ok]

/-- Otherwise the fee comes from the answer, or the handler blames the site. -/
theorem handle_set {web : Web} (h : ¬Unset (web httpRequest)) :
    (∃ r n, web httpRequest = .response r ∧ r.statusCode = 200 ∧
      (∃ doc, parse r.content = .ok doc) ∧
      ∀ fees responseData, handle web fees responseData = .ok (.noError,n)) ∨
    ∀ fees responseData, handle web fees responseData = .ok (.webError,responseData) := by
  rcases hweb : web httpRequest with e | e | r
  · refine .inr fun _ _ => ?_
    cases e <;> simp [handle,getRecommendedFees,hweb,Fetch.client,ClientError.exn,pure_eq_ok]
  · refine .inr fun _ _ => ?_
    cases e <;>
      simp [handle,getRecommendedFees,hweb,Fetch.client,Fetch.getResponse,ClientError.exn,pure_eq_ok]
  · rw [hweb,Unset,not_or,not_not] at h
    obtain ⟨hstatus,hfee⟩ := h
    rcases hparse : parse r.content with f | doc
    · refine .inr fun _ _ => ?_
      obtain rfl := parse_error hparse
      simp [handle,getRecommendedFees,hweb,Fetch.client,Fetch.getResponse,hstatus,hparse,catchExn,
        pure_eq_ok]
    · obtain ⟨d,hd⟩ := Option.ne_none_iff_exists'.mp fun hnone => hfee ⟨doc,hparse,hnone⟩
      refine .inl ⟨r,toInt32 d,rfl,hstatus,⟨doc,hparse⟩,fun _ _ => ?_⟩
      simp [handle,getRecommendedFees_eq hweb hstatus hparse,hd,pure_eq_ok]

end BitcoinFees

namespace CoinMarket

/-- The text from the first occurrence of `s` on, without it. -/
def find (s : Bytes) : Bytes → Option Bytes
  | [] => if s = [] then some [] else none
  | c::cs => if s.isPrefixOf (c::cs) then some ((c::cs).drop s.length) else find s cs

/-- The scan for the closing quote does not stop at the end of the string. -/
def manualParseResponse (resp : Bytes) : Exec Double :=
  match find (ascii "price_usd\": \"") resp with
  | none => pure (.finite 0)
  | some temp => if 34 ∈ temp then pure (strtod temp).1 else undefined

def httpRequest (tokenName : Bytes) : HttpRequest where
  host := ascii "api.coinmarketcap.com"
  url := ascii "/v1/ticker/"++tokenName++ascii "/"
  isHttp11 := true

/-- The ladder at the end of `_getprice`. -/
def price : Value → Exec Int32
  | .array [ticker] => do
      let fields ← ticker.asObject
      match fields.lookup (ascii "price_usd") with
      | some (.string s) => pure (strtod s).1.toInt32
      | _ => raise .invalidArgument
  | _ => raise .invalidArgument

/-- After an error of the parser, its incomplete value still counts. -/
def getprice (web : Web) (tokenName : Bytes) : Exec Int32 := do
  let fetch := web (httpRequest tokenName)
  fetch.client
  let response ← fetch.getResponse
  match ← parse response.content with
  | .parsed v => price v
  | .malformed v =>
      let result ← manualParseResponse (cstr response.content)
      if result ≠ .finite 0 then pure result.toInt32 else price v

def coinId (req : Bytes) : Bytes := cstr (req.take 0x20)

def handle (web : Web) (req : Bytes) (respData : Int32) : Exec (ErrCode × Int32) :=
  if req.length ≠ 32 then pure (.invalidParams,respData)
  else catchExn (do return (.noError,← getprice web (coinId req))) fun
    | .invalidArgument => pure (.invalidParams,respData)
    | _ => pure (.webError,respData)

end CoinMarket

namespace WolframScraper

def APPID : Bytes := ascii "A8V8R2-523WY42ULW"

def httpRequest (query : Bytes) : HttpRequest where
  host := ascii "api.wolframalpha.com"
  url := ascii "/v1/result?appid="++APPID++ascii "&i="++query
  isHttp11 := true

def performQuery (web : Web) (query : Bytes) : Exec Bytes := do
  let fetch := web (httpRequest query)
  fetch.client
  catchRuntime (HttpResponse.content <$> fetch.getResponse) (pure [])

/-- Blanks of the query become plus signs. -/
def query (req : Bytes) : Bytes := (cstr (req.take 0x20)).map fun c => if c = 32 then 43 else c

def handle (web : Web) (req : Bytes) (output : Bytes) : Exec (ErrCode × Bytes) :=
  if req.length ≠ 32 then pure (.invalidParams,output)
  else do return (.noError,← performQuery web (query req))

/-- An error of the client that is not caught goes through, the other gives no text. -/
theorem handle_eq (web : Web) {req : Bytes} (hlen : req.length = 32) (output : Bytes) :
    handle web req output =
      match web (httpRequest (query req)) with
      | .noClient e => raise e.exn
      | .noResponse .badAlloc => raise .badAlloc
      | .noResponse .runtimeError => .ok (.noError,[])
      | .response r => .ok (.noError,r.content) := by
  rcases hweb : web (httpRequest (query req)) with e | (_ | _) | r
  all_goals
    simp [handle,hlen,performQuery,hweb,Fetch.client,Fetch.getResponse,ClientError.exn,
      Exn.isRuntimeError,pure_eq_ok]

end WolframScraper

namespace SteamScraper

def httpRequest (apiKey cutoffTime : Bytes) : HttpRequest where
  host := ascii "api.steampowered.com"
  url := ascii "/IEconService/GetTradeOffers/v0001/?get_sent_offers=0&get_received_offers=1"++
    ascii "&get_descriptions=0&active_only=1&historical_only=1&key="++apiKey++
      ascii "&time_historical_cutoff="++cutoffTime
  isHttp11 := true

/-- The buyer and the items are passed along but not looked at. -/
def getSteamTransaction (web : Web) (apiKey cutoffTime : Bytes) (resp : Int32) :
    Exec (ErrCode × Int32) := do
  let fetch := web (httpRequest apiKey cutoffTime)
  fetch.client
  catchExn (do
    let response ← fetch.getResponse
    match ← parse response.content with
    | .malformed _ => pure (.invalidParams,resp)
    | .parsed root =>
        if ¬root.isObject then pure (.invalidParams,resp)
        else
          let responseObj ← root.get "response"
          pure (.noError,if responseObj.evaluateAsBoolean then 1 else 0)) fun _ =>
    pure (.webError,resp)

/-- The fields of a decrypted query that are passed on, if all of them are there. -/
def query (v : Value) : Option (Bytes × Bytes) :=
  match v with
  | .object fields =>
      match fields.lookup (ascii "api_key"),fields.lookup (ascii "buyer_id"),
          fields.lookup (ascii "cutoff_time"),fields.lookup (ascii "items") with
      | some (.string apiKey),some (.string _),some (.string cutoffTime),some (.array _) =>
          some (apiKey,cutoffTime)
      | _,_,_,_ => none
  | _ => none

def handle (web : Web) (key : HybridKey) (req : Bytes) (respData : Int32) :
    Exec (ErrCode × Int32) := do
  match ← catchExn (some <$> decryptQuery key req) fun _ => pure none with
  | none => pure (.invalidParams,respData)
  | some json =>
      match ← parse json with
      | .malformed _ => pure (.invalidParams,respData)
      | .parsed steamInfo =>
          match query steamInfo with
          | none => pure (.invalidParams,respData)
          | some (apiKey,cutoffTime) => getSteamTransaction web apiKey cutoffTime respData

end SteamScraper
end TownCrier
