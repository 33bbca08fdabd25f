import TownCrier.Outgoing
import TownCrier.ResponseRoundTrip

/-!
# A client and a site

`HttpsClient` with all it asks of the TLS library: the constructor, the connection,
the handshake, `sendRequest` and the loop that reads. The library may take a request
in pieces and ask for another try at any time; the network may fail at any time. A
site gets the start of the request, and all of it before the client reads anything.
What the client returns from a site that reads requests and writes responses is the
response to the request that the code means to send.
-/
namespace TownCrier.Https
open BigEndian Cpp TinyHttp HttpHead ResponseText EventHandler Failures HybridCipher

/-- What a call of the library gives: it asks for another try, or returns a number. -/
inductive Attempt where
  | wantRead | wantWrite
  | value (n : ℤ)

/-- What the calls of one client give, in the order in which they are made. -/
structure Session where
  ctrDrbgSeed : ℤ
  x509CrtParse : ℤ
  netConnect : ℤ
  netSetBlock : ℤ
  sslConfigDefaults : ℤ
  sslConfMaxFragLen : ℤ
  sslSetup : ℤ
  sslSetHostname : ℤ
  handshake : List Attempt
  writes : List Attempt
  reads : Connection

namespace Session

/-- The constructor. Certificates that cannot be parsed are counted, and left out. -/
def httpsClient (s : Session) : Except String Unit :=
  if s.ctrDrbgSeed ≠ 0 then throw "mbedtls_ctr_drbg_seed failed"
  else if s.x509CrtParse < 0 then throw "mbedtls_x509_crt_parse failed"
  else pure ()

/-- `getResponse` up to the handshake. -/
def connect (s : Session) : Except String Unit :=
  if s.netConnect ≠ 0 then throw "mbedtls_net_connect returned"
  else if s.netSetBlock ≠ 0 then throw "net_set_(non)block()"
  else if s.sslConfigDefaults ≠ 0 then throw "mbedtls_ssl_config_defaults"
  else if s.sslConfMaxFragLen ≠ 0 then throw "mbedtls_ssl_conf_max_frag_len"
  else if s.sslSetup ≠ 0 then throw "mbedtls_ssl_setup"
  else if s.sslSetHostname ≠ 0 then throw "mbedtls_ssl_set_hostname"
  else pure ()

end Session

/-- The loop of the handshake, where it ends. -/
def handshakeLoop : List Attempt → Option (Except String Unit)
  | [] => none
  | .wantRead::attempts | .wantWrite::attempts => handshakeLoop attempts
  | .value n::_ => some (if n ≠ 0 then throw "mbedtls_ssl_handshake failed." else pure ())

/-- The loops of `sendRequest`: what the library takes of the rest of the message, and
how they end. The message is shorter than `2^32` bytes. -/
def sendLoop : Bytes → List Attempt → Bytes × Option (Except String Unit)
  | [], _ => ([],some (pure ()))
  | _::_, [] => ([],none)
  | c::data, .wantRead::attempts | c::data, .wantWrite::attempts => sendLoop (c::data) attempts
  | c::data, .value n::attempts =>
      if n ≤ 0 then ([],some (throw "mbedtls_ssl_write"))
      else
        let rest := sendLoop ((c::data).drop n.toNat) attempts
        ((c::data).take n.toNat++rest.1,rest.2)

/-- How a client ends. -/
inductive Outcome where
  | noClient (what : String)
  | threw (what : String)
  | returned (r : HttpResponse)
  | undefined

def Reply.outcome : Reply → Outcome
  | .returned r => .returned r
  | .threw what => .threw what
  | .undefined => .undefined

/-- What a scraper sees of it, while there is memory: each exception is a
`std::runtime_error`. -/
def Outcome.fetch : Outcome → Option Fetch
  | .noClient _ => some (.noClient .runtimeError)
  | .threw _ => some (.noResponse .runtimeError)
  | .returned r => some (.response r)
  | .undefined => none

namespace Session

/-- The handshake of a client that is there and has connected. -/
def opened (s : Session) : Option (Except Outcome Unit) :=
  match s.httpsClient,s.connect with
  | .error what,_ => some (throw (.noClient what))
  | .ok _,.error what => some (throw (.threw what))
  | .ok _,.ok _ => (handshakeLoop s.handshake).map (·.mapError .threw)

/-- What gets to the site. -/
def received (s : Session) (r : HttpRequest) : Bytes :=
  match s.opened with
  | some (.ok _) => (sendLoop (buildRequestMessage r) s.writes).1
  | _ => []

/-- How the client ends, where it does within `n` reads. -/
def run (s : Session) (n : ℕ) (r : HttpRequest) : Option Outcome :=
  match s.opened with
  | none => none
  | some (.error out) => some out
  | some (.ok _) =>
      match (sendLoop (buildRequestMessage r) s.writes).2 with
      | none => none
      | some (.error what) => some (.threw what)
      | some (.ok _) => (getResponse n s.reads).map Reply.outcome

end Session

/-- What a site writes for a request, with what it has to keep to. -/
structure Sent where
  head : ResponseHead
  rest : Bytes
  body : Bytes
  ending : Ending
  proper : head.Proper
  closed : ∀ f ∈ head.fields, ¬f.Trailing
  numbered : Numbered head
  small : head.print.length ≤ 2^29
  sends : Sends head ending rest body

def Sent.stream (w : Sent) : Bytes := w.head.print++w.rest

/-- What it is for the client. -/
def Sent.response (w : Sent) : HttpResponse := ⟨Int32.ofInt (decimalValue w.head.status),w.body⟩

/-- A site reads requests and says something to each. -/
abbrev Site := HttpMessage.Request → Sent

/-- The library and the network do their part, and the site answers what it reads. -/
structure Serves (site : Site) (s : Session) (r : HttpRequest) : Prop where
  opened : s.opened = some (.ok ())
  taken : (sendLoop (buildRequestMessage r) s.writes).2 = some (.ok ())
  answers : ∀ request, RequestText.parse (s.received r) = some request →
    Carries s.reads (site request).stream (site request).ending

/-- The web, where the client ends on this connection. -/
def Meets (s : Session) (r : HttpRequest) (web : Web) : Prop :=
  ∃ n out, s.run n r = some out ∧ out.fetch = some (web r)

section
variable {data : Bytes} {attempts : List Attempt} {s : Session} {r : HttpRequest} {n : ℕ}

/-- The library takes the bytes in their order. -/
theorem sendLoop_start : (sendLoop data attempts).1 <+: data := by
  induction attempts generalizing data with
  | nil => cases data <;> exact List.nil_prefix
  | cons a attempts ih =>
      cases data with
      | nil => exact List.nil_prefix
      | cons c data =>
          cases a with
          | wantRead | wantWrite => exact ih
          | value n =>
              rw [sendLoop]
              split_ifs with hn
              · exact List.nil_prefix
              · have hrest := @ih ((c::data).drop n.toNat)
                have hboth := (List.prefix_append_right_inj ((c::data).take n.toNat)).mpr hrest
                rwa [List.take_append_drop] at hboth

/-- The loop ends without an exception when all is taken. -/
theorem sendLoop_all (h : (sendLoop data attempts).2 = some (.ok ())) :
    (sendLoop data attempts).1 = data := by
  induction attempts generalizing data with
  | nil =>
      cases data with
      | nil => rfl
      | cons c data => cases h
  | cons a attempts ih =>
      cases data with
      | nil => rfl
      | cons c data =>
          cases a with
          | wantRead | wantWrite => exact ih h
          | value n =>
              rw [sendLoop] at h ⊢
              split_ifs at h ⊢ with hn
              · cases h
              · dsimp only at h ⊢
                rw [ih h,List.take_append_drop]

theorem received_start (s : Session) (r : HttpRequest) : s.received r <+: buildRequestMessage r := by
  unfold Session.received
  split
  · exact sendLoop_start
  · exact List.nil_prefix

theorem opened_error {out : Outcome} (h : s.opened = some (.error out)) :
    ∃ what, out = .noClient what ∨ out = .threw what := by
  unfold Session.opened at h
  split at h
  · cases h
    exact ⟨_,.inl rfl⟩
  · cases h
    exact ⟨_,.inr rfl⟩
  · obtain ⟨result,-,hout⟩ := Option.map_eq_some_iff.mp h
    cases result with
    | error what =>
        cases hout
        exact ⟨what,.inr rfl⟩
    | ok => cases hout

/-- A response comes from a site that has got the whole request. -/
theorem received_all {resp : HttpResponse} (h : s.run n r = some (.returned resp)) :
    s.received r = buildRequestMessage r := by
  unfold Session.run at h
  unfold Session.received
  rcases hopened : s.opened with _ | out | _
  · rw [hopened] at h
    cases h
  · rw [hopened] at h
    cases h
    obtain ⟨what,h | h⟩ := opened_error hopened <;> cases h
  · rw [hopened] at h
    dsimp only at h ⊢
    rcases hsent : (sendLoop (buildRequestMessage r) s.writes).2 with _ | what | _
    · rw [hsent] at h
      cases h
    · rw [hsent] at h
      cases h
    · exact sendLoop_all hsent

theorem run_served {site : Site} {request : HttpMessage.Request} (hserves : Serves site s r)
    (hread : RequestText.parse (buildRequestMessage r) = some request) (out : Outcome) :
    (∃ n, s.run n r = some out) ↔ out = .returned (site request).response := by
  have hreceived : s.received r = buildRequestMessage r := by
    rw [Session.received,hserves.opened]
    exact sendLoop_all hserves.taken
  have hcarries := hserves.answers request (hreceived ▸ hread)
  obtain ⟨rt,hfeed⟩ := feed_sent_defined (site request).proper (site request).closed
    (site request).numbered (site request).small (site request).sends
  have hcomplete := complete_sent (site request).proper (site request).closed
    (site request).numbered (site request).sends
  have hreply := reply_complete_iff hfeed hcomplete hcarries
  have hrun : ∀ n, s.run n r = (getResponse n s.reads).map Reply.outcome := by
    intro n
    rw [Session.run,hserves.opened]
    dsimp only
    rw [hserves.taken]
  simp only [hrun,Option.map_eq_some_iff]
  constructor
  · rintro ⟨n,reply,hn,rfl⟩
    rw [(hreply reply).mp ⟨n,hn⟩]
    rfl
  · rintro rfl
    obtain ⟨n,hn⟩ := (hreply _).mpr rfl
    exact ⟨n,_,hn,rfl⟩

end

/-- Whatever the network does, the site gets nothing but the start of the request, and all
of it before a response is returned. If the texts of the requester are harmless, what is
returned is the answer of the site to the request that is meant, and the enclave answers
the contract from it. -/
theorem answer_of_site {key : HybridKey} {type : UInt64} {data : Bytes} {q : Query}
    (hasks : Asks key type data q) :
    (∀ s : Session, s.received q.httpRequest <+: buildRequestMessage q.httpRequest ∧
      ∀ n resp, s.run n q.httpRequest = some (.returned resp) →
        s.received q.httpRequest = buildRequestMessage q.httpRequest) ∧
    (q.Harmless → ∀ (site : Site) (s : Session), Serves site s q.httpRequest →
      (∃ n, s.run n q.httpRequest = some (.returned (site q.meant).response)) ∧
      ∀ web mem, Meets s q.httpRequest web → answer ⟨web,key⟩ mem type data =
        answer ⟨fun _ => .response (site q.meant).response,key⟩ mem type data) := by
  refine ⟨fun s => ⟨received_start s _,fun _ _ h => received_all h⟩,?_⟩
  intro hharmless site s hserves
  have hrun := run_served hserves (q.intact_iff.mpr hharmless)
  refine ⟨(hrun _).mpr rfl,?_⟩
  rintro web mem ⟨n,out,hn,hfetch⟩
  rw [(hrun out).mp ⟨n,hn⟩] at hfetch
  refine answer_congr (fun q' hasks' => ?_) mem
  rw [hasks.unique hasks']
  exact (Option.some.inj hfetch).symm

/-- The site has the same greeting for everyone. -/
def welcome : Sent where
  head := greeting
  rest := greetingBody
  body := ascii "hello"
  ending := .eof
  proper := greeting_proper
  closed := greeting_closed
  numbered := greeting_numbered
  small := by decide
  sends := greeting_sends

/-- The request is taken in two pieces, and not at once. -/
def patient : Session where
  ctrDrbgSeed := 0
  x509CrtParse := 1
  netConnect := 0
  netSetBlock := 0
  sslConfigDefaults := 0
  sslConfMaxFragLen := 0
  sslSetup := 0
  sslSetHostname := 0
  handshake := [.wantRead,.value 0]
  writes := [.value 10,.wantWrite,.value 4096]
  reads := bytewise welcome.stream .eof

theorem answer_of_site_fees :
    ∃ n, patient.run n BitcoinFees.httpRequest = some (.returned welcome.response) := by
  have hmessage : buildRequestMessage BitcoinFees.httpRequest =
      RequestText.print (Query.bitcoinFee).meant :=
    (RequestText.parse_eq_some.mp (Query.bitcoinFee.intact_iff.mpr trivial)).2
  have hserves : Serves (fun _ => welcome) patient BitcoinFees.httpRequest := by
    refine ⟨rfl,?_,fun _ _ => carries_bytewise _ _⟩
    rw [hmessage]
    decide
  have hasks : Asks noKey TYPE_BITCOIN_FEE [] .bitcoinFee := .bitcoinFee []
  exact ((answer_of_site hasks).2 trivial _ _ hserves).1

end TownCrier.Https
