import TownCrier.FlightRequest
import TownCrier.StockDate

/-!
# The literals of a query

Two scrapers put a text of the user between double quotes into a YQL statement,
as it is. A literal ends at the next double quote, so the statement is the one of
the template unless the text has a double quote itself.
-/
namespace TownCrier.YahooYql
open BigEndian Cpp Https

/-- The parts of a statement between its double quotes; every second one is a literal. -/
def pieces (q : Bytes) : List Bytes := q.splitOn 34

/-- A handler sends one statement, which has these parts. -/
def SendsPieces {A : Type} (handle : Web → Exec A) (template : List Bytes) : Prop :=
  ∃ q rest, (∀ web, handle web = execute web q .json tables >>= rest) ∧ pieces q = template

theorem pieces_iff {template : List Bytes} (hne : template ≠ []) :
    pieces ([34].intercalate template) = template ↔ ∀ p ∈ template, 34 ∉ p := by
  constructor
  · intro h p hp
    rw [← h] at hp
    exact HttpMessage.not_mem_of_mem_splitOn hp
  · exact fun h => List.splitOn_intercalate 34 h hne

theorem SendsPieces.free {A : Type} {handle : Web → Exec A} {template : List Bytes}
    (h : SendsPieces handle template) : ∀ p ∈ template, 34 ∉ p := by
  obtain ⟨q,rest,-,rfl⟩ := h
  exact fun p hp => HttpMessage.not_mem_of_mem_splitOn hp

/-- A handler that sends the template itself sends its parts if no part has a quote. -/
theorem sendsPieces_iff {A : Type} {handle : Web → Exec A} {rest : Option Bytes → Exec A}
    {template : List Bytes} (hne : template ≠ [])
    (h : ∀ web, handle web = execute web ([34].intercalate template) .json tables >>= rest) :
    SendsPieces handle template ↔ ∀ p ∈ template, 34 ∉ p := by
  constructor
  · exact SendsPieces.free
  · exact fun hall => ⟨_,rest,h,(pieces_iff hne).mpr hall⟩

end TownCrier.YahooYql

namespace TownCrier.YahooYqlStock
open BigEndian Cpp Gmtime Https YahooYql

/-- The request gets as far as the query, for this day. -/
structure Accepted (req : Bytes) (date : Date) : Prop where
  length : req.length = 64
  epoch : ¬Rejected req
  day : gmtimeTc (unixEpoch req) = .ok date
  inRange : ¬refused (symbol req) date

/-- Three literals: the symbol, and the day twice. -/
def template (symbol : Bytes) (date : Date) : List Bytes :=
  [ascii "select * from yahoo.finance.historicaldata where symbol = ",symbol,
    ascii " and startDate = ",strftime date,ascii " and endDate = ",strftime date,[]]

theorem decimal_short {n k : ℕ} (hk : 0 < k) (h : n < 10^k) : (decimal n).length ≤ k := by
  rwa [decimal,List.length_map,Nat.length_toDigits_le_iff (by decide) hk]

theorem twoDigits_short {n : ℕ} (h : n < 100) : (twoDigits n).length ≤ 2 := by
  rw [twoDigits]
  split_ifs with hn
  · have hone := decimal_short (n := n) (k := 1) (by decide) (by omega)
    rw [List.length_cons]
    omega
  · exact decimal_short (by decide) (by omega)

theorem strftime_short {date : Date} (hyear : date.year ≤ 2017) (hmonth : date.month ≤ 12)
    (hday : date.day ≤ 31) : (strftime date).length ≤ 10 := by
  have h₁ := decimal_short (n := date.year) (k := 4) (by decide) (by omega)
  have h₂ := twoDigits_short (n := date.month) (by omega)
  have h₃ := twoDigits_short (n := date.day) (by omega)
  simp only [strftime,List.length_append,List.length_cons]
  omega

theorem quote_notMem_strftime (date : Date) : 34 ∉ strftime date := by
  have hdecimal (n : ℕ) : 34 ∉ decimal n := by
    intro h
    have hlow := (FlightScraper.decimal_digits n 34 h).1
    exact absurd hlow (by decide)
  have htwo (n : ℕ) : 34 ∉ twoDigits n := by
    rw [twoDigits]
    split_ifs
    · simp [hdecimal]
    · exact hdecimal n
  simp [strftime,hdecimal,htwo]

theorem symbol_length (req : Bytes) : (symbol req).length ≤ 32 := by
  have hcstr : (symbol req).length ≤ (req.take 0x20).length :=
    (List.takeWhile_prefix _).length_le
  have htake := List.length_take_le 0x20 req
  omega

/-- The buffer has room for the whole statement. -/
theorem yql_eq {symbol : Bytes} {date : Date} (hsymbol : symbol.length ≤ 32)
    (h : ¬refused symbol date) : yql symbol date = [34].intercalate (template symbol date) := by
  have hstart : ascii "select * from yahoo.finance.historicaldata where symbol = \"" =
      ascii "select * from yahoo.finance.historicaldata where symbol = "++[34] := by decide
  have hbetween : ascii "\" and startDate = \"" = 34::(ascii " and startDate = "++[34]) := by decide
  have hlast : ascii "\" and endDate = \"" = 34::(ascii " and endDate = "++[34]) := by decide
  have htext : ascii "select * from yahoo.finance.historicaldata where symbol = \""++symbol++
      ascii "\" and startDate = \""++strftime date++ascii "\" and endDate = \""++strftime date++
      ascii "\"" = [34].intercalate (template symbol date) := by
    rw [hstart,hbetween,hlast]
    simp only [template,List.intercalate_cons_cons,List.intercalate_singleton,List.append_assoc,
      List.cons_append,List.nil_append]
    rfl
  have hlength : ([34].intercalate (template symbol date)).length ≤ 1023 := by
    simp only [refused,not_or,not_lt] at h
    have hdate := strftime_short h.2.2.1 h.2.2.2 h.2.1
    have h₁ : (ascii "select * from yahoo.finance.historicaldata where symbol = ").length = 58 := by
      decide
    have h₂ : (ascii " and startDate = ").length = 17 := by decide
    have h₃ : (ascii " and endDate = ").length = 15 := by decide
    simp only [template,List.intercalate_cons_cons,List.intercalate_singleton,List.length_append,
      List.length_cons,List.length_nil]
    omega
  rw [yql,htext,snprintf,List.take_of_length_le hlength]

theorem stock_sent {req : Bytes} {date : Date} (h : Accepted req date) (r : Int32) :
    ∃ rest, ∀ web, handle web req r =
      execute web ([34].intercalate (template (symbol req) date)) .json tables >>= rest := by
  rw [← yql_eq (symbol_length req) h.inRange]
  apply Exists.intro
  intro web
  rw [handle_dated h.length h.epoch h.day]
  exact if_neg h.inRange

end TownCrier.YahooYqlStock

namespace TownCrier.WeatherScraper
open BigEndian Cpp Https YahooYql

def template (city : Bytes) : List Bytes :=
  [ascii "select item.condition from weather.forecast where woeid in (select woeid from "++
    ascii "geo.places(1) where text=",city,ascii ")"]

theorem weather_sent {req : Bytes} (hlen : req.length = 32) (hcity : city req ≠ []) (r : Int32) :
    ∃ rest, ∀ web, handle web req r =
      execute web ([34].intercalate (template (city req))) .json tables >>= rest := by
  have hquery : constructQuery (city req) = [34].intercalate (template (city req)) := by
    have hstart : ascii "geo.places(1) where text=\"" = ascii "geo.places(1) where text="++[34] := by
      decide
    have hend : ascii "\")" = 34::ascii ")" := by decide
    rw [constructQuery,hstart,hend]
    simp only [template,List.intercalate_cons_cons,List.intercalate_singleton,List.append_assoc,
      List.cons_append,List.nil_append]
  apply Exists.intro
  intro web
  rw [handle,if_neg (not_not.mpr hlen),weatherCurrent,if_neg hcity,hquery]

end TownCrier.WeatherScraper

namespace TownCrier.YahooYql
open BigEndian Cpp Https

/-- The text of a user is one literal of the statement exactly if it has no double quote. -/
theorem literals_hold_iff (req : Bytes) (r : Int32) :
    (∀ date, YahooYqlStock.Accepted req date →
      (SendsPieces (fun web => YahooYqlStock.handle web req r)
          (YahooYqlStock.template (YahooYqlStock.symbol req) date) ↔
        34 ∉ YahooYqlStock.symbol req)) ∧
    (req.length = 32 → WeatherScraper.city req ≠ [] →
      (SendsPieces (fun web => WeatherScraper.handle web req r)
          (WeatherScraper.template (WeatherScraper.city req)) ↔
        34 ∉ WeatherScraper.city req)) := by
  constructor
  · intro date h
    obtain ⟨rest,hsent⟩ := YahooYqlStock.stock_sent h r
    have htexts : 34 ∉ ascii "select * from yahoo.finance.historicaldata where symbol = " ∧
        34 ∉ ascii " and startDate = " ∧ 34 ∉ ascii " and endDate = " := by decide
    refine (sendsPieces_iff (List.cons_ne_nil _ _) hsent).trans ?_
    simp [YahooYqlStock.quote_notMem_strftime,htexts]
  · intro hlen hcity
    obtain ⟨rest,hsent⟩ := WeatherScraper.weather_sent hlen hcity r
    have htexts :
        34 ∉ ascii "select item.condition from weather.forecast where woeid in (select woeid from "
          ∧ 34 ∉ ascii "geo.places(1) where text=" ∧ 34 ∉ ascii ")" := by decide
    refine (sendsPieces_iff (List.cons_ne_nil _ _) hsent).trans ?_
    simp [htexts]

/-- The letter A as a symbol, on the second day of 1970, and a city. -/
def plainStock : Bytes := 65::List.replicate 31 0++fixed 32 86400
def plainCity : Bytes := ascii "Ithaca"++List.replicate 26 0

theorem literals_hold_plain :
    SendsPieces (fun web => YahooYqlStock.handle web plainStock 0)
        (YahooYqlStock.template (ascii "A") ⟨1970,1,2⟩) ∧
      SendsPieces (fun web => WeatherScraper.handle web plainCity 0)
        (WeatherScraper.template (ascii "Ithaca")) := by
  have haccepted : YahooYqlStock.Accepted plainStock ⟨1970,1,2⟩ :=
    { length := by decide
      epoch := by unfold YahooYqlStock.Rejected; decide
      day := by rfl
      inRange := by decide }
  exact ⟨((literals_hold_iff plainStock 0).1 ⟨1970,1,2⟩ haccepted).mpr (by decide),
    ((literals_hold_iff plainCity 0).2 (by decide) (by decide)).mpr (by decide)⟩

/-- A city that closes its literal and goes on with a condition. -/
def openCity : Bytes := ascii "x\" or text=\"y"++List.replicate 19 0

theorem condition_added : openCity.length = 32 ∧ WeatherScraper.city openCity ≠ [] ∧
    pieces (WeatherScraper.constructQuery (WeatherScraper.city openCity)) =
      [ascii "select item.condition from weather.forecast where woeid in (select woeid from "++
        ascii "geo.places(1) where text=",ascii "x",ascii " or text=",ascii "y",ascii ")"] ∧
    ¬SendsPieces (fun web => WeatherScraper.handle web openCity 0)
      (WeatherScraper.template (WeatherScraper.city openCity)) := by
  refine ⟨by decide,by decide,by decide,fun h => ?_⟩
  have hfree := h.free (WeatherScraper.city openCity) (by simp [WeatherScraper.template])
  exact absurd hfree (by decide)

end TownCrier.YahooYql
