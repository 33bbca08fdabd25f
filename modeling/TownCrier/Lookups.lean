import TownCrier.Replies

/-!
# Elements of a document that are not there

The flight parser takes the first element of an array and the weather parser
what `find` points to. Neither looks whether there is one. What a value has the
wrong type for throws, and goes no further.
-/
namespace TownCrier.Replies
open BigEndian Cpp Https PicoJson

/-- On the way down the keys some object lacks the next one. -/
def Missing : List String → Value → Prop
  | key::keys, .object fields => ∀ x, fields.lookup (ascii key) = some x → Missing keys x
  | _, _ => False

/-- The keys from an answer of the weather query down to the temperature. -/
def temperatureKeys : List String := ["query","results","channel","item","condition","temp"]

theorem second_undefined {A : Type} {v : Value} {key : String} {keys : List String}
    {rest : Value → Exec A} (hrest : ∀ x, rest x = undefined ↔ Missing keys x) :
    WeatherScraper.second v key >>= rest = undefined ↔ Missing (key::keys) v := by
  obtain ⟨fields,rfl⟩ | hv := v.object_or
  · rw [Missing]
    cases h : fields.lookup (ascii key) with
    | none =>
        have hsecond : WeatherScraper.second (.object fields) key = undefined := by
          simp [WeatherScraper.second,h]
        rw [hsecond]
        exact iff_of_true rfl fun x hx => by cases hx
    | some x =>
        have hsecond : WeatherScraper.second (.object fields) key = .ok x := by
          simp [WeatherScraper.second,h,pure_eq_ok]
        rw [hsecond,bind_ok,hrest]
        constructor
        · intro hx y hy
          cases hy
          exact hx
        · exact fun hall => hall x rfl
  · have hthrow : WeatherScraper.second v key = raise .runtimeError := by
      rw [WeatherScraper.second,Value.asObject_of_not hv]
      rfl
    rw [hthrow]
    refine iff_of_false (fun h => by cases h) ?_
    cases v with
    | object => cases hv
    | _ => exact id

theorem temperature_undefined (results : Value) :
    WeatherScraper.temperature results = undefined ↔
      Missing ["channel","item","condition","temp"] results := by
  unfold WeatherScraper.temperature
  apply second_undefined
  intro channel
  apply second_undefined
  intro item
  apply second_undefined
  intro condition
  apply second_undefined
  intro temp
  cases temp with
  | string s => exact iff_of_false (fun h => by cases h) id
  | _ => exact iff_of_false (fun h => by cases h) id

/-- The lookups behind the checks of the document. -/
theorem results_undefined (v : Value) (r : Int32) :
    (do
      let v₁ ← WeatherScraper.second v "query"
      match ← WeatherScraper.second v₁ "results" with
      | .null => pure (ErrCode.webError,r)
      | results => return (ErrCode.noError,← WeatherScraper.temperature results)) = undefined ↔
    Missing temperatureKeys v := by
  have hreturn (x : Exec Int32) :
      (do return (ErrCode.noError,← x)) = undefined ↔ x = undefined := by
    cases x with
    | ok n => exact iff_of_false (fun h => by cases h) fun h => by cases h
    | error f =>
        change (.error f : Exec (ErrCode × Int32)) = .error .undefined ↔
          (.error f : Exec Int32) = .error .undefined
        rw [Except.error.injEq,Except.error.injEq]
  apply second_undefined
  intro v₁
  apply second_undefined
  intro results
  cases results with
  | null => exact iff_of_false (fun h => by cases h) id
  | _ => rw [← temperature_undefined,← hreturn]

theorem weather_undefined_iff (web : Web) (city : Bytes) (r : Int32) :
    WeatherScraper.weatherCurrent web city r = undefined ↔ city ≠ [] ∧
      ∃ reply v, web (YahooYql.httpRequest (YahooYql.queryUrl
          (WeatherScraper.constructQuery city) .json YahooYql.tables)) = .response reply ∧
        parse reply.content = .ok (.parsed v) ∧ Missing temperatureKeys v := by
  have hquery : WeatherScraper.constructQuery city ≠ [] := by
    simp only [WeatherScraper.constructQuery,List.append_assoc]
    exact List.cons_ne_nil _ _
  unfold WeatherScraper.weatherCurrent
  by_cases hcity : city = []
  · rw [if_pos hcity]
    exact iff_of_false (fun h => by cases h) fun h => h.1 hcity
  rw [if_neg hcity,YahooYql.execute_eq web hquery]
  cases hweb : web (YahooYql.httpRequest (YahooYql.queryUrl
      (WeatherScraper.constructQuery city) .json YahooYql.tables)) with
  | noClient e =>
      refine iff_of_false (fun h => by cases h) ?_
      rintro ⟨-,reply,v,h,-⟩
      cases h
  | noResponse e =>
      refine iff_of_false ?_ ?_
      · cases e <;> exact fun h => by cases h
      · rintro ⟨-,reply,v,h,-⟩
        cases h
  | response reply =>
      dsimp only [bind_ok]
      have hdocument : (city ≠ [] ∧ ∃ reply' v, Fetch.response reply = .response reply' ∧
          parse reply'.content = .ok (.parsed v) ∧ Missing temperatureKeys v) ↔
          ∃ v, parse reply.content = .ok (.parsed v) ∧ Missing temperatureKeys v := by
        constructor
        · rintro ⟨-,reply',v,h,hv⟩
          cases h
          exact ⟨v,hv⟩
        · rintro ⟨v,hv⟩
          exact ⟨hcity,reply,v,rfl,hv⟩
      rw [hdocument]
      rcases hparse : parse reply.content with f | v | v
      · obtain rfl := parse_error hparse
        refine iff_of_false (fun h => by cases h) ?_
        rintro ⟨v,h,-⟩
        cases h
      · rw [bind_ok]
        dsimp only
        by_cases hv : v.isObject = true
        · rw [if_neg (not_not.mpr hv)]
          refine (results_undefined v r).trans ?_
          constructor
          · exact fun h => ⟨v,rfl,h⟩
          · rintro ⟨v',h,hmissing⟩
            cases h
            exact hmissing
        · rw [if_pos hv]
          refine iff_of_false (fun h => by cases h) ?_
          rintro ⟨v',h,hmissing⟩
          cases h
          cases v with
          | object => exact hv rfl
          | _ => exact hmissing
      · refine iff_of_false (fun h => by cases h) ?_
        rintro ⟨v',h,-⟩
        cases h

/-- Each scraper stays inside of every document but those which lack what it takes. -/
theorem lookups_defined_iff (resp : Bytes) (delay : Int32) (epoch : UInt64) (web : Web)
    (city : Bytes) (r : Int32) :
    (FlightScraper.parseResponse resp delay epoch ≠ undefined ↔ ¬Flightless resp) ∧
      (WeatherScraper.weatherCurrent web city r ≠ undefined ↔ city = [] ∨
        ∀ reply v, web (YahooYql.httpRequest (YahooYql.queryUrl
            (WeatherScraper.constructQuery city) .json YahooYql.tables)) = .response reply →
          parse reply.content = .ok (.parsed v) → ¬Missing temperatureKeys v) := by
  constructor
  · rw [not_iff_not]
    exact parseResponse_flightless resp delay epoch
  · rw [← not_iff_not,not_not,weather_undefined_iff]
    simp only [not_or,not_forall,not_not,exists_prop,ne_eq]

/-- A list without flights, and an object without anything. -/
theorem absent_elements_read :
    FlightScraper.parseResponse (ascii "\x7b\"FlightInfoExResult\":\x7b\"flights\":[]\x7d\x7d") 0 0 =
      undefined ∧
    WeatherScraper.weatherCurrent (fun _ => .response ⟨200,ascii "\x7b\x7d"⟩) (ascii "Ithaca") 0 =
      undefined := by
  constructor
  · rfl
  · rfl

end TownCrier.Replies
