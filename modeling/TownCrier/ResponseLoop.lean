import TownCrier.ByteFeed
import TownCrier.Cpp

/-!
# The client of the enclave

`HttpsClient` as its callers see it: the constructor sets up the connection state
and may throw, and so may `getResponse`, which talks to the site. What a site answers
to which request is not known.

Then the loop of `getResponse` that reads a response, after the request has been sent.
What `mbedtls_ssl_read` returns is a finite number of blocks and of results that ask for
another try, and then the end of the file, or an error. After the end of the file each
further read returns it again, and the loop goes on with nothing to parse unless no length
has been announced: it spins where the rest of a header or of a body is missing.
-/
namespace TownCrier.Https
open BigEndian Automaton Cpp TinyHttp

structure HttpRequest where
  host : Bytes
  url : Bytes
  headers : List Bytes := []
  isHttp11 : Bool := false
  deriving DecidableEq

structure HttpResponse where
  statusCode : Int32
  content : Bytes
  deriving DecidableEq

/-- What the client throws. -/
inductive ClientError where
  | runtimeError | badAlloc
  deriving DecidableEq

def ClientError.exn : ClientError → Exn
  | .runtimeError => .runtimeError
  | .badAlloc => .badAlloc

/-- How a request goes. -/
inductive Fetch where
  | noClient (e : ClientError)
  | noResponse (e : ClientError)
  | response (r : HttpResponse)
  deriving DecidableEq

abbrev Web := HttpRequest → Fetch

namespace Fetch

/-- The constructor of the client. -/
def client : Fetch → Exec Unit
  | .noClient e => raise e.exn
  | _ => pure ()

def getResponse : Fetch → Exec HttpResponse
  | .response r => pure r
  | .noResponse e | .noClient e => raise e.exn

end Fetch

/-! ## The loop of `getResponse` -/

/-- What one read puts into the buffer. -/
structure Block where
  bytes : Bytes
  nonempty : bytes ≠ []
  fits : bytes.length ≤ 4096

inductive Arrival where
  | data (block : Block)
  | wantRead
  | wantWrite

inductive ReadError where
  | peerCloseNotify
  | connReset
  | other (n : ℤ)

inductive Ending where
  | eof
  | failed (e : ReadError)

structure Connection where
  arrivals : List Arrival
  ending : Ending

def sslRead (c : Connection) : (Arrival ⊕ Ending) × Connection :=
  match c.arrivals with
  | [] => (.inr c.ending,c)
  | a::arrivals => (.inl a,{c with arrivals})

def Arrival.bytes : Arrival → Bytes
  | .data block => block.bytes
  | .wantRead | .wantWrite => []

/-- What the site sent, however it was cut. -/
def Connection.stream (c : Connection) : Bytes := c.arrivals.flatMap Arrival.bytes

def ReadError.what : ReadError → String
  | .peerCloseNotify => "connection was closed gracefully"
  | .connReset => "connected reset"
  | .other _ => "mbedtls_ssl_read returned non-sense"

/-- `while (http_need_more && n_data)`; a call which needs more has read all. -/
def parseLoop : ℕ → Roundtripper → Bytes → Option (Roundtripper × Bool)
  | _, rt, [] => some (rt,true)
  | 0, _, _::_ => none
  | n+1, rt, c::data => do
      let (rt,data,needMore) ← httpData rt (c::data)
      if needMore then parseLoop n rt data else some (rt,false)

/-- How the loop ends. -/
inductive Exit where
  | left (rt : Roundtripper)
  | threw (what : String)
  | undefined

/-- The loop, where it ends within `n` reads. -/
def readLoop : ℕ → Roundtripper → Connection → Option Exit
  | 0, _, _ => none
  | n+1, rt, c =>
      match sslRead c with
      | (.inl .wantRead,c) | (.inl .wantWrite,c) => readLoop n rt c
      | (.inl (.data block),c) =>
          match parseLoop block.bytes.length rt block.bytes with
          | none => some .undefined
          | some (rt,needMore) => if needMore then readLoop n rt c else some (.left rt)
      | (.inr .eof,c) => if rt.contentlength = -1 then some (.left rt) else readLoop n rt c
      | (.inr (.failed e),_) => some (.threw e.what)

inductive Reply where
  | returned (r : HttpResponse)
  | threw (what : String)
  | undefined

def afterLoop : Exit → Reply
  | .left rt =>
      if httpIserror rt then .threw s!"http roundtrip error code={rt.code}"
      else .returned ⟨Int32.ofInt rt.response.code,rt.response.body⟩
  | .threw what => .threw what
  | .undefined => .undefined

/-- The outcome, where there is one within `n` reads. -/
def getResponse (n : ℕ) (c : Connection) : Option Reply := (readLoop n httpInit c).map afterLoop

/-- How the loop ends, from what the parser makes of the whole stream. -/
inductive Ends : Option Roundtripper → Ending → Exit → Prop
  | undefined {e} : Ends none e .undefined
  | finished {rt e} (h : finished rt = true) : Ends (some rt) e (.left rt)
  | failed {rt e} (h : TinyHttp.finished rt = false) : Ends (some rt) (.failed e) (.threw e.what)
  | eof {rt} (h : TinyHttp.finished rt = false) (hlength : rt.contentlength = -1) :
      Ends (some rt) .eof (.left rt)

section Loop
variable {rt : Roundtripper} {c : Connection}

theorem parseLoop_eq {data : Bytes} (hsane : Sane rt) (hfinal : finished rt = false) :
    parseLoop data.length rt data = (parser.feed rt data).map fun rt' => (rt',!finished rt') := by
  cases data with
  | nil =>
      rw [Machine.feed_nil,Option.map_some,hfinal]
      rfl
  | cons a data =>
      obtain ⟨rest,hrest,hdata⟩ := @httpData_eq rt (a::data) hsane hfinal
      rw [List.length_cons,parseLoop,hdata]
      cases hfeed : parser.feed rt (a::data) with
      | none => rfl
      | some rt' =>
          rw [Option.map_some,Option.bind_eq_bind,Option.bind_some]
          dsimp only
          cases hfinished : finished rt' with
          | true => simp [hfinished]
          | false =>
              rw [hrest rt' hfeed hfinished]
              cases hlen : data.length <;> simp [parseLoop,hfinished]

/-- At the end of the file, with a length announced, the loop goes on for ever. -/
theorem readLoop_spins (h : rt.contentlength ≠ -1) (n : ℕ) : readLoop n rt ⟨[],.eof⟩ = none := by
  induction n with
  | zero => rfl
  | succ n ih =>
      rw [readLoop,sslRead]
      dsimp only
      rw [if_neg h]
      exact ih

theorem exists_succ {A : Type} {f : ℕ → Option A} {a : A} (h : f 0 = none) :
    (∃ n, f n = some a) ↔ ∃ n, f (n+1) = some a := by
  refine ⟨fun ⟨n,hn⟩ => ?_,fun ⟨n,hn⟩ => ⟨n+1,hn⟩⟩
  cases n with
  | zero => cases h.symm.trans hn
  | succ n => exact ⟨n,hn⟩

theorem readLoop_iff {arrivals : List Arrival} {e : Ending} {out : Exit} (hsane : Sane rt)
    (hfinal : finished rt = false) : (∃ n, readLoop n rt ⟨arrivals,e⟩ = some out) ↔
      Ends (parser.feed rt (Connection.stream ⟨arrivals,e⟩)) e out := by
  induction arrivals generalizing rt with
  | nil =>
      change _ ↔ Ends (some rt) e out
      cases e with
      | failed e =>
          rw [exists_succ rfl]
          constructor
          · rintro ⟨n,hn⟩
            cases hn
            exact .failed hfinal
          · intro h
            cases h with
            | finished h => cases hfinal.symm.trans h
            | failed => exact ⟨0,rfl⟩
      | eof =>
          by_cases hlength : rt.contentlength = -1
          · rw [exists_succ rfl]
            have hloop : ∀ n, readLoop (n+1) rt ⟨[],.eof⟩ = some (.left rt) := fun n => if_pos hlength
            constructor
            · rintro ⟨n,hn⟩
              cases (hloop n).symm.trans hn
              exact .eof hfinal hlength
            · intro h
              cases h with
              | finished h => cases hfinal.symm.trans h
              | eof => exact ⟨0,hloop 0⟩
          · constructor
            · rintro ⟨n,hn⟩
              cases (readLoop_spins hlength n).symm.trans hn
            · intro h
              cases h with
              | finished h => cases hfinal.symm.trans h
              | eof _ h => exact absurd h hlength
  | cons a arrivals ih =>
      rw [exists_succ rfl]
      cases a with
      | wantRead | wantWrite => exact ih hsane hfinal
      | data block =>
          have hstream : Connection.stream ⟨.data block::arrivals,e⟩ =
            block.bytes++Connection.stream ⟨arrivals,e⟩ := rfl
          have hloop : ∀ n, readLoop (n+1) rt ⟨.data block::arrivals,e⟩ =
              match (parser.feed rt block.bytes).map fun rt' => (rt',!finished rt') with
              | none => some .undefined
              | some (rt,needMore) =>
                  if needMore then readLoop n rt ⟨arrivals,e⟩ else some (.left rt) := by
            intro n
            rw [← parseLoop_eq hsane hfinal]
            rfl
          rw [hstream,Machine.feed_append]
          simp only [hloop]
          cases hfeed : parser.feed rt block.bytes with
          | none =>
              constructor
              · rintro ⟨n,hn⟩
                cases hn
                exact .undefined
              · intro h
                cases h
                exact ⟨0,rfl⟩
          | some rt' =>
              simp only [Option.map_some,Option.bind_some]
              cases hfinished : finished rt' with
              | false =>
                  exact ih (hsane.feed hfeed) hfinished
              | true =>
                  rw [Machine.feed_final hfinished]
                  constructor
                  · rintro ⟨n,hn⟩
                    cases hn
                    exact .finished hfinished
                  · intro h
                    cases h with
                    | finished => exact ⟨0,rfl⟩
                    | failed h => cases hfinished.symm.trans h
                    | eof h => cases hfinished.symm.trans h

/-- The loop ends, and in one way only. -/
theorem readLoop_init_iff {out : Exit} : (∃ n, readLoop n httpInit c = some out) ↔
    Ends (parser.feed httpInit c.stream) c.ending out :=
  readLoop_iff .init rfl

end Loop

/-- The loop is left after finitely many reads, and without undefined behaviour. -/
def Stops (c : Connection) : Prop :=
  ∃ n out, readLoop n httpInit c = some out ∧ out ≠ .undefined

/-- The loop stops where the parser has come to the end of the response, where the
connection fails, and where no length has been announced at the end of the file. -/
theorem response_loop_stops_iff (c : Connection) : Stops c ↔
    ∃ rt, parser.feed httpInit c.stream = some rt ∧
      (finished rt = true ∨ c.ending ≠ .eof ∨ rt.contentlength = -1) := by
  constructor
  · rintro ⟨n,out,hloop,hout⟩
    have hends := readLoop_init_iff.mp ⟨n,hloop⟩
    generalize parser.feed httpInit c.stream = o at hends
    generalize c.ending = e at hends ⊢
    cases hends with
    | undefined => exact absurd rfl hout
    | finished h => exact ⟨_,rfl,.inl h⟩
    | failed => exact ⟨_,rfl,.inr (.inl nofun)⟩
    | eof _ hlength => exact ⟨_,rfl,.inr (.inr hlength)⟩
  · rintro ⟨rt,hfeed,hcond⟩
    have hstops : ∀ out, Ends (some rt) c.ending out → out ≠ .undefined → Stops c := by
      intro out hends hout
      rw [← hfeed] at hends
      obtain ⟨n,hn⟩ := readLoop_init_iff.mpr hends
      exact ⟨n,out,hn,hout⟩
    cases hfinal : finished rt with
    | true => exact hstops (.left rt) (.finished hfinal) nofun
    | false =>
        cases hending : c.ending with
        | failed e => exact hstops (.threw e.what) (hending ▸ .failed hfinal) nofun
        | eof =>
            have hlength := (hcond.resolve_left (Bool.eq_false_iff.mp hfinal)).resolve_left
              (not_not.mpr hending)
            exact hstops (.left rt) (hending ▸ .eof hfinal hlength) nofun

/-- Two of five bytes that were announced. -/
def truncated : Connection where
  arrivals := [.data ⟨Cpp.ascii "HTTP/1.1 200 OK\r\nContent-Length: 5\r\n\r\nab",by decide,by decide⟩]
  ending := .eof

theorem truncated_body_spins : ¬Stops truncated := by
  rintro ⟨n,out,hloop,hout⟩
  have hends := readLoop_init_iff.mp ⟨n,hloop⟩
  have hfeed : (parser.feed httpInit truncated.stream).map (fun rt => (finished rt,rt.contentlength)) =
      some (false,3) := by decide
  obtain ⟨rt,hrt,hfacts⟩ := Option.map_eq_some_iff.mp hfeed
  obtain ⟨hfinal,hlength⟩ := Prod.mk.inj hfacts
  rw [hrt] at hends
  generalize hending : truncated.ending = e at hends
  cases hends with
  | finished h => cases hfinal.symm.trans h
  | failed => cases hending
  | eof _ h => cases hlength.symm.trans h

end TownCrier.Https
