import TownCrier.FlightScraper
import TownCrier.HttpMessage

/-!
# The request for a flight

`buildRequestMessage` in `tls_client_tiny.cpp` puts the text of a request
together. The identifier of a flight goes into it as the requester wrote it,
through a buffer of 256 bytes.
-/
namespace TownCrier
namespace Https
open BigEndian Cpp

def GET_END : Bytes := ascii "\r\n"

/-- `find` does not return `npos`. -/
def found (s pattern : Bytes) : Prop := pattern <:+: s

instance (s pattern : Bytes) : Decidable (found s pattern) := inferInstanceAs (Decidable (_ <:+: _))

def buildRequestMessage (httpRequest : HttpRequest) : Bytes :=
  let requestMessage := ascii "GET "++httpRequest.url
  let requestMessage :=
    if httpRequest.isHttp11 ∧ ¬found requestMessage (ascii "HTTP/1.1") then
      requestMessage++ascii " HTTP/1.1"
    else requestMessage
  let requestMessage := requestMessage++ascii "\r\n"
  let requestMessage := requestMessage++httpRequest.headers.flatMap (·++ascii "\r\n")
  let requestMessage := requestMessage++ascii "Accept: text/html\r\n"
  let requestMessage :=
    if httpRequest.isHttp11 ∧ ¬found requestMessage (ascii "Host:") then
      requestMessage++ascii "Host: "++httpRequest.host++ascii "\r\n"
    else requestMessage
  requestMessage++GET_END

/-- Of all answers of the web only the one to this request matters. -/
def Consults {A : Type} (f : Web → A) (r : HttpRequest) : Prop :=
  ∀ web web', web r = web' r → f web = f web'

end Https

namespace FlightScraper
open BigEndian Cpp Encoding Https HybridCipher PicoJson HttpMessage

/-- The request which the code means to send. -/
def flightRequest (epoch : UInt64) (flight : Bytes) : Request where
  method := ascii "GET"
  path := ascii "/json/FlightXML2/FlightInfoEx"
  params := [(ascii "ident",flight++ascii "@"++decimal epoch.toNat),(ascii "howMany",ascii "5"),
    (ascii "offset",ascii "0")]
  version := ascii "HTTP/1.1"
  headers := [AUTH_CODE,HOST,ascii "Accept: text/html"]

/-- What is sent reads as this request and nothing else. -/
def Intact (epoch : UInt64) (flight : Bytes) : Prop :=
  HttpMessage.parse (buildRequestMessage (httpRequest epoch flight)) = some (flightRequest epoch flight)

/-- None of CR, LF, space, `#` and `&`. -/
def Unreserved (flight : Bytes) : Prop := Free [13,10,32,35,38] flight

/-- The text before it is cut off. -/
def flightUrl (epoch : UInt64) (flight : Bytes) : Bytes :=
  ascii "/json/FlightXML2/FlightInfoEx?ident="++flight++ascii "@"++decimal epoch.toNat++
    ascii "&howMany=5&offset=0 HTTP/1.1"

theorem flightUrl_length (epoch : UInt64) (flight : Bytes) :
    (flightUrl epoch flight).length = flight.length+(decimal epoch.toNat).length+65 := by
  have hstart : (ascii "/json/FlightXML2/FlightInfoEx?ident=").length = 36 := rfl
  have hat : (ascii "@").length = 1 := rfl
  have hend : (ascii "&howMany=5&offset=0 HTTP/1.1").length = 28 := rfl
  simp only [flightUrl,List.length_append,hstart,hat,hend]
  omega

theorem message_eq (epoch : UInt64) (flight : Bytes) :
    buildRequestMessage (httpRequest epoch flight) =
      printLines ((ascii "GET "++(flightUrl epoch flight).take 255)::
        (flightRequest epoch flight).headers++[[]]) := by
  have hcrlf : ascii "\r\n" = CRLF := rfl
  have haccept : ascii "Accept: text/html\r\n" = ascii "Accept: text/html"++CRLF := rfl
  simp [buildRequestMessage,httpRequest,snprintf,flightUrl,printLines,flightRequest,GET_END,hcrlf,
    haccept]

theorem requestLine_eq (epoch : UInt64) (flight : Bytes) :
    requestLine (flightRequest epoch flight) = ascii "GET "++flightUrl epoch flight := by
  have hquery : printQuery (flightRequest epoch flight).params =
      ascii "ident="++(flight++(ascii "@"++(decimal epoch.toNat++
        ascii "&howMany=5&offset=0"))) := by
    simp only [printQuery,flightRequest,List.map_cons,List.map_nil,List.intercalate_cons_cons,
      List.intercalate_singleton,printParam,List.append_assoc,List.cons_append]
    rfl
  rw [requestLine,hquery,flightUrl]
  simp only [List.append_assoc,List.cons_append]
  rfl

theorem decimal_digits (n : ℕ) : ∀ c ∈ decimal n, 48 ≤ c.toNat ∧ c.toNat ≤ 57 := by
  intro c hc
  obtain ⟨d,hd,rfl⟩ := List.mem_map.mp hc
  have hdigit := Nat.isDigit_of_mem_toDigits (by decide) (by decide) hd
  simp only [Char.isDigit,Bool.and_eq_true,decide_eq_true_eq,ge_iff_le,UInt32.le_iff_toNat_le] at hdigit
  obtain ⟨hlow,hhigh⟩ := hdigit
  change 48 ≤ d.toNat at hlow
  change d.toNat ≤ 57 at hhigh
  rw [UInt8.toNat_ofNat',Nat.mod_eq_of_lt (by omega)]
  exact ⟨hlow,hhigh⟩

theorem decimal_length (epoch : UInt64) : (decimal epoch.toNat).length ≤ 20 := by
  have hlt := epoch.toNat_lt
  rw [decimal,List.length_map,Nat.length_toDigits_le_iff (by decide) (by decide)]
  omega

theorem wellFormed_iff_unreserved (epoch : UInt64) (flight : Bytes) :
    WellFormed (flightRequest epoch flight) ↔ Unreserved flight := by
  have hdigits : Free [13,10,32,35,38] (decimal epoch.toNat) := by
    intro c hc hmem
    have hc := decimal_digits _ c hc
    simp only [List.mem_cons,List.not_mem_nil,or_false] at hmem
    rcases hmem with rfl | rfl | rfl | rfl | rfl <;> exact absurd hc (by decide)
  constructor
  · intro h
    have hvalue := h.values _ List.mem_cons_self
    exact fun c hc => hvalue c (List.mem_append_left _ (List.mem_append_left _ hc))
  · intro h
    have hat : Free [13,10,32,35,38] (ascii "@") := by decide
    refine ⟨⟨show Free _ (ascii "GET") by decide,
      show Free _ (ascii "/json/FlightXML2/FlightInfoEx") by decide,?_,?_,
      show Free _ (ascii "HTTP/1.1") by decide,
      show ∀ h ∈ [AUTH_CODE,HOST,ascii "Accept: text/html"],h ≠ [] ∧ Free [13,10] h by decide⟩,
      List.cons_ne_nil _ _⟩
    · simp only [flightRequest,List.forall_mem_cons]
      exact ⟨by decide,by decide,by decide,by simp⟩
    · simp only [flightRequest,List.forall_mem_cons]
      refine ⟨?_,by decide,by decide,by simp⟩
      rintro c hc
      rcases List.mem_append.mp hc with hc | hc
      · rcases List.mem_append.mp hc with hc | hc
        · exact h c hc
        · exact hat c hc
      · exact hdigits c hc

theorem intact_iff (epoch : UInt64) (flight : Bytes) :
    Intact epoch flight ↔
      Unreserved flight ∧ flight.length+(decimal epoch.toNat).length ≤ 190 := by
  rw [Intact,parse_eq_some,wellFormed_iff_unreserved,message_eq,print,requestLine_eq]
  refine and_congr_right fun _ => ?_
  have hlen := flightUrl_length epoch flight
  constructor
  · intro h
    have h := congrArg List.length h
    simp [printLines] at h
    omega
  · intro h
    rw [List.take_of_length_le (by omega)]

theorem getFlightDelay_congr {web web' : Web} {epoch : UInt64} {flight : Bytes}
    (h : web (httpRequest epoch flight) = web' (httpRequest epoch flight)) (resp : Int32) :
    getFlightDelay web epoch flight resp = getFlightDelay web' epoch flight resp := by
  simp only [getFlightDelay,h]

/-- On both ways into the enclave a query that is not rejected as invalid leads to
one request. It is intact just when the identifier has none of the separators,
and for an encrypted query, which may be of any length, when it fits the buffer. -/
theorem flight_request_intact_iff (req data : Bytes) (key : HybridKey) :
    ((req.length ≠ 64 → ∀ web delay respData,
        handle web delay req respData = pure (.invalidParams,respData)) ∧
      (req.length = 64 →
        (∀ delay respData, Consults (fun web => handle web delay req respData)
          (httpRequest (unixEpoch req) (flightNumber req))) ∧
        (Intact (unixEpoch req) (flightNumber req) ↔ Unreserved (flightNumber req)))) ∧
    ∀ json v, decryptQuery key data = .ok json → PicoJson.parse json = .ok (.parsed v) →
      (query v = none → ∀ web respData,
        handleEncryptedQuery web key data respData = pure (.invalidParams,respData)) ∧
      ∀ flight time, query v = some (flight,time) →
        let epoch := (toInt64 time).toUInt64
        (∀ respData, Consults (fun web => handleEncryptedQuery web key data respData)
          (httpRequest epoch (cstr flight))) ∧
        (Intact epoch (cstr flight) ↔ Unreserved (cstr flight) ∧
          (cstr flight).length+(decimal epoch.toNat).length ≤ 190) := by
  refine ⟨⟨fun hlen web delay respData => ?_,fun hlen => ⟨?_,?_⟩⟩,?_⟩
  · rw [handle,if_pos hlen]
  · intro delay respData web web' h
    dsimp only
    rw [handle_eq hlen,handle_eq hlen,getFlightDelay_congr h]
  · rw [intact_iff]
    refine and_iff_left ?_
    have hdecimal := decimal_length (unixEpoch req)
    have hflight : (flightNumber req).length ≤ 32 :=
      ((List.takeWhile_prefix _).length_le).trans (List.length_take_le _ _)
    omega
  · intro json v hdecrypt hparse
    refine ⟨fun hquery web respData => ?_,fun flight time hquery => ⟨?_,intact_iff _ _⟩⟩
    · simp [handleEncryptedQuery,hdecrypt,hparse,hquery,pure_eq_ok]
    · intro respData web web' h
      simp [handleEncryptedQuery,hdecrypt,hparse,hquery,getFlightDelay_congr h]

/-- Flight FJM273 at time 0. -/
def plainFlight : Bytes := ascii "FJM273"++List.replicate 58 0

theorem flight_request_intact_iff_plain :
    Intact (unixEpoch plainFlight) (flightNumber plainFlight) :=
  ((flight_request_intact_iff plainFlight [] ⟨true,true,fun _ => none⟩).1.2 rfl).2.mpr
    (show Free [13,10,32,35,38] (flightNumber plainFlight) by decide)

/-- The identifier ends the request line and goes on with a header. -/
def injectingFlight : Bytes := ascii "A HTTP/1.1\r\nX-Injected: y"++List.replicate 39 0

theorem header_injected :
    injectingFlight.length = 64 ∧
    HttpMessage.parse (buildRequestMessage
        (httpRequest (unixEpoch injectingFlight) (flightNumber injectingFlight))) =
      some
        { method := ascii "GET"
          path := ascii "/json/FlightXML2/FlightInfoEx"
          params := [(ascii "ident",ascii "A")]
          version := ascii "HTTP/1.1"
          headers := [ascii "X-Injected: y@0&howMany=5&offset=0 HTTP/1.1",AUTH_CODE,HOST,
            ascii "Accept: text/html"] } ∧
    ¬Intact (unixEpoch injectingFlight) (flightNumber injectingFlight) := by
  refine ⟨rfl,by decide +kernel,?_⟩
  rw [intact_iff]
  exact fun h => absurd h.1 (show ¬Free [13,10,32,35,38] (flightNumber injectingFlight) by decide)

end FlightScraper
end TownCrier
