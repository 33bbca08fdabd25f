import TownCrier.FlightScraper

/-!
# Queries to Yahoo: weather and stock prices

`yahoo_yql.cpp`, `current_weather.cpp` and `yahoo_yql_stock.h`, with the
calendar of `gmtime.cpp` and `url_encode` of `scraper_utils.cpp`.
-/
namespace TownCrier
open BigEndian Cpp Encoding Numerals Https PicoJson

namespace YahooYql

def toHex (c : UInt8) : UInt8 := (ascii "0123456789ABCDEF").getD (c &&& 15).toNat 0

/-- Letters and digits of the C locale. -/
def isAlnum (c : UInt8) : Bool := 48 ≤ c ∧ c ≤ 57 ∨ 65 ≤ c ∧ c ≤ 90 ∨ 97 ≤ c ∧ c ≤ 122

def urlEncode (str : Bytes) : Bytes :=
  str.flatMap fun c =>
    if isAlnum c ∨ c = 45 ∨ c = 95 ∨ c = 46 ∨ c = 126 ∨ c = 42 then [c]
    else if c = 32 then ascii "%20"
    else [37,toHex (c >>> 4),toHex (c &&& 15)]

inductive Format where
  | json | xml

/-- The parameters come out in the order of their names. -/
def queryUrl (q : Bytes) (format : Format) (env : Bytes) : Bytes :=
  let formatName := match format with
    | .json => ascii "json"
    | .xml => ascii "xml"
  let envPart := if env = [] then [] else ascii "&env="++urlEncode (cstr env)
  ascii "/v1/public/yql?diagnostics=false"++envPart++ascii "&format="++formatName++ascii "&q="++
    urlEncode (cstr q)

def buildQuery (q : Bytes) (format : Format) (env : Bytes) : Exec Bytes :=
  if q = [] then raise .invalidArgument else pure (queryUrl q format env)

def httpRequest (query : Bytes) : HttpRequest where
  host := ascii "query.yahooapis.com"
  url := query
  isHttp11 := true

/-- `none` stands for `WEB_ERROR`, which leaves `result` alone. -/
def execute (web : Web) (q : Bytes) (format : Format) (env : Bytes) : Exec (Option Bytes) := do
  let fetch := web (httpRequest (← buildQuery q format env))
  fetch.client
  catchRuntime ((fun r => some r.content) <$> fetch.getResponse) (pure none)

theorem execute_eq (web : Web) {q : Bytes} (h : q ≠ []) (format : Format) (env : Bytes) :
    execute web q format env =
      match web (httpRequest (queryUrl q format env)) with
      | .noClient e => raise e.exn
      | .noResponse .badAlloc => raise .badAlloc
      | .noResponse .runtimeError => .ok none
      | .response r => .ok (some r.content) := by
  rcases hweb : web (httpRequest (queryUrl q format env)) with e | (_ | _) | r
  all_goals
    simp [execute,buildQuery,h,hweb,Fetch.client,Fetch.getResponse,ClientError.exn,
      Exn.isRuntimeError,pure_eq_ok]

def tables : Bytes := ascii "store://datatables.org/alltableswithkeys"

end YahooYql

namespace WeatherScraper
open YahooYql

def constructQuery (request : Bytes) : Bytes :=
  ascii "select item.condition from weather.forecast where woeid in (select woeid from "++
    ascii "geo.places(1) where text=\""++request++ascii "\")"

/-- `find(key)->second`, also where the key is missing. -/
def second (v : Value) (key : String) : Exec Value := do
  match (← v.asObject).lookup (ascii key) with
  | some x => pure x
  | none => undefined

/-- What follows the check for a null result. -/
def temperature (results : Value) : Exec Int32 := do
  let channel ← second results "channel"
  let item ← second channel "item"
  let condition ← second item "condition"
  let temp ← second condition "temp"
  return atoi (cstr (← temp.asString))

def weatherCurrent (web : Web) (request : Bytes) (r : Int32) : Exec (ErrCode × Int32) := do
  if request = [] then pure (.invalidParams,r)
  else
    match ← execute web (constructQuery request) .json tables with
    | none => pure (.webError,r)
    | some resp =>
        match ← parse resp with
        | .malformed _ => pure (.invalidParams,r)
        | .parsed v =>
            if ¬v.isObject then pure (.invalidParams,r)
            else
              let v₁ ← second v "query"
              match ← second v₁ "results" with
              | .null => pure (.webError,r)
              | results => return (.noError,← temperature results)

def city (req : Bytes) : Bytes := cstr (req.take 0x20)

def handle (web : Web) (req : Bytes) (respData : Int32) : Exec (ErrCode × Int32) :=
  if req.length ≠ 1*32 then pure (.invalidParams,respData)
  else weatherCurrent web (city req) respData

end WeatherScraper

namespace Gmtime

def SECS_DAY : ℕ := 24*60*60
def EPOCH_YR : ℕ := 1970

def leapYear (year : ℕ) : Bool := year%4 = 0 ∧ (year%100 ≠ 0 ∨ year%400 = 0)
def yearSize (year : ℕ) : ℕ := if leapYear year then 366 else 365

def ytab (year : ℕ) : List ℕ :=
  [31,if leapYear year then 29 else 28,31,30,31,30,31,31,30,31,30,31]

/-- Every turn takes off a year of days, so the days bound the turns. The year
is an `int`, which must not overflow. -/
def yearLoop : ℕ → ℕ → ℕ → Exec (ℕ × ℕ)
  | 0, dayno, year => pure (dayno,year)
  | fuel+1, dayno, year =>
      if dayno ≥ yearSize year then
        if year+1 < 2^31 then yearLoop fuel (dayno-yearSize year) (year+1) else undefined
      else pure (dayno,year)

/-- The loop over the months of a table; there is nothing behind its end. -/
def monthLoop : List ℕ → ℕ → ℕ → Exec (ℕ × ℕ)
  | [], _, _ => undefined
  | size::rest, dayno, month =>
      if dayno ≥ size then monthLoop rest (dayno-size) (month+1) else pure (dayno,month)

structure Date where
  year : ℕ
  month : ℕ
  day : ℕ
  deriving DecidableEq

def gmtimeTc (timer : Int64) : Exec Date := do
  let (dayno,year) ← yearLoop (timer.toUInt64.toNat/SECS_DAY+1) (timer.toUInt64.toNat/SECS_DAY)
    EPOCH_YR
  let (dayno,month) ← monthLoop (ytab year) dayno 0
  return ⟨year,month+1,dayno+1⟩

end Gmtime

namespace YahooYqlStock
open YahooYql Gmtime

def symbol (req : Bytes) : Bytes := cstr (req.take 0x20)

def unixEpoch (req : Bytes) : Int64 := (uintBytes (req.drop 0x20) 32).toInt64

/-- A field of `%F`; a year after 1970 has its four digits. -/
def twoDigits (n : ℕ) : Bytes := if n < 10 then 48::decimal n else decimal n

def strftime (date : Date) : Bytes :=
  decimal date.year++45::twoDigits date.month++45::twoDigits date.day

def yql (symbol : Bytes) (date : Date) : Bytes :=
  snprintf 1024 (ascii "select * from yahoo.finance.historicaldata where symbol = \""++symbol++
    ascii "\" and startDate = \""++strftime date++ascii "\" and endDate = \""++strftime date++
    ascii "\"")

theorem yql_ne_nil (symbol : Bytes) (date : Date) : yql symbol date ≠ [] := by
  simp only [yql,snprintf,List.append_assoc]
  exact List.cons_ne_nil _ _

/-- The `try` block: what the parsed answer says. -/
def closing (resultJson : Value) (respData : Int32) : Exec (ErrCode × Int32) := do
  let result ← (← resultJson.get "query").get "results"
  if ¬result.evaluateAsBoolean then pure (.invalidParams,respData)
  else
    match ← (← result.get "quote").get "Close" with
    | .string s => pure (.noError,(strtod (cstr s)).1.toInt32)
    | _ => pure (.webError,respData)

def refused (symbol : Bytes) (date : Date) : Prop :=
  symbol = [] ∨ date.day > 31 ∨ date.year > 2017 ∨ date.month > 12

instance (symbol : Bytes) (date : Date) : Decidable (refused symbol date) :=
  inferInstanceAs (Decidable (_ ∨ _))

def handleOne (web : Web) (symbol : Bytes) (date : Date) (respData : Int32) :
    Exec (ErrCode × Int32) := do
  if refused symbol date then pure (.invalidParams,respData)
  else
    match ← execute web (yql symbol date) .json tables with
    | none => pure (.webError,respData)
    | some result =>
        match ← parse result with
        | .malformed _ => pure (.webError,respData)
        | .parsed v =>
            if ¬v.isObject then pure (.webError,respData)
            else catchExn (closing v respData) fun _ => pure (.webError,respData)

/-- The bound is an unsigned constant, but the comparison is one of signed words. -/
def handle (web : Web) (req : Bytes) (respData : Int32) : Exec (ErrCode × Int32) := do
  if req.length ≠ 32*2 then pure (.invalidParams,respData)
  else if unixEpoch req > 0xF4865700 then pure (.invalidParams,respData)
  else
    let date ← gmtimeTc (unixEpoch req)
    handleOne web (symbol req) date respData

end YahooYqlStock
end TownCrier
