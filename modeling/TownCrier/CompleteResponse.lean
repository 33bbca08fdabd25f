import TownCrier.HttpChunks
import TownCrier.HttpHead
import TownCrier.ResponseLoop

/-!
# Responses that end early

`getResponse` takes the end of the file for the end of the response wherever the
announced length is -1. That is so without a length, where the body goes on up to
the end of the stream, but also in a header that has not come to its length yet.
-/
namespace TownCrier.Https
open BigEndian Automaton TinyHttp HttpHead HttpChunks

/-- The body at the start of what comes after the header. -/
inductive Framed (e : Ending) : Framing → Bytes → Bytes → Prop
  | chunked {text rest body} (h : Chunks text body) : Framed e .chunked (text++rest) body
  | length {n rest} (h : n ≤ rest.length) : Framed e (.length n) rest (rest.take n)
  | untilEnd {rest} (h : e = .eof) : Framed e .untilEnd rest rest

/-- The stream has a header, and all of the body which the header announces. -/
def Complete (stream : Bytes) (e : Ending) (r : HttpResponse) : Prop :=
  ∃ h rest, scan 0 .empty stream = some (h,rest) ∧ r.statusCode.toInt = h.code ∧
    Framed e h.framing rest r.content

/-- The parser has read a response that may end here. -/
def Ended (rt : Roundtripper) (e : Ending) : Prop :=
  rt.state = .close ∨ rt.state = .unknownData ∧ e = .eof

section Body
variable {rt rt' : Roundtripper} {h : Head} {e : Ending} {s body : Bytes} {c : UInt8}

theorem code_step (hstate : rt.state ≠ .header) (hstep : readByte rt c = some rt') :
    rt'.state ≠ .header ∧ rt'.response.code = rt.response.code := by
  unfold readByte at hstep
  cases hcase : rt.state with
  | header => exact absurd hcase hstate
  | chunkHeader =>
      rw [hcase] at hstep
      obtain ⟨more,hparsed⟩ := parsed_of hcase hstep
      refine ⟨fun hheader => ?_,congrArg _ hparsed.response⟩
      have hchunks := hparsed.inChunks
      rw [hheader] at hchunks
      cases hchunks
  | chunkData =>
      rw [hcase] at hstep
      cases hstep
      unfold chunkData dataBlock
      dsimp only
      split_ifs
      · exact ⟨nofun,rfl⟩
      · exact ⟨hstate,rfl⟩
  | rawData =>
      rw [hcase] at hstep
      cases hstep
      unfold rawData dataBlock
      dsimp only
      split_ifs
      · exact ⟨nofun,rfl⟩
      · exact ⟨hstate,rfl⟩
  | unknownData | close | error =>
      rw [hcase] at hstep
      cases hstep
      exact ⟨hstate,rfl⟩

/-- The body does not change the status code. -/
theorem code_feed (hstate : rt.state ≠ .header) (hfeed : parser.feed rt s = some rt') :
    rt'.response.code = rt.response.code := by
  have hkept : rt'.state ≠ .header ∧ rt'.response.code = rt.response.code :=
    Machine.feed_keeps (P := fun x => x.state ≠ .header ∧ x.response.code = rt.response.code)
      (fun x a y hx _ hstep => ⟨(code_step hx.1 hstep).1,(code_step hx.1 hstep).2.trans hx.2⟩)
      ⟨hstate,rfl⟩ hfeed
  exact hkept.2

theorem inChunks_feed (hsane : Sane rt) (hchunks : InChunks rt.state)
    (hfeed : parser.feed rt s = some rt') : InChunks rt'.state := by
  have hkept : Sane rt' ∧ InChunks rt'.state := by
    refine Machine.feed_keeps (P := fun x => Sane x ∧ InChunks x.state) ?_ ⟨hsane,hchunks⟩ hfeed
    intro x a y hx hfinal hstep
    have hread : parser.read x a = some y := (Machine.read_step hfinal).trans hstep
    exact ⟨hx.1.step hstep,(remains_step hx.1 hx.2 hfinal hread).1⟩
  exact hkept.2

/-- A body of an announced length. -/
theorem feed_length (hstate : rt.state = .rawData) (hpos : 0 < rt.contentlength)
    (hfeed : parser.feed rt s = some rt') :
    if rt.contentlength ≤ s.length then rt'.state = .close ∧
      rt'.response.body = rt.response.body++s.take rt.contentlength.toNat
    else rt'.state = .rawData := by
  split_ifs with hle
  · have htake : ((s.take rt.contentlength.toNat).length : ℤ) = rt.contentlength := by
      rw [List.length_take]
      omega
    have hne : s.take rt.contentlength.toNat ≠ [] := by
      intro hnil
      rw [hnil,List.length_nil] at htake
      omega
    have hclose : (rawData rt (s.take rt.contentlength.toNat)).state = .close ∧
        (rawData rt (s.take rt.contentlength.toNat)).response.body =
          rt.response.body++s.take rt.contentlength.toNat := by
      unfold rawData dataBlock
      dsimp only
      rw [if_pos (sub_eq_zero.mpr htake.symm)]
      exact ⟨rfl,rfl⟩
    rw [← List.take_append_drop rt.contentlength.toNat s,Machine.feed_append,
      feed_rawData hstate hne htake.le,Option.bind_some] at hfeed
    rw [Machine.feed_final (finished_iff.mpr (.inr hclose.1))] at hfeed
    cases hfeed
    exact hclose
  · rcases eq_or_ne s [] with rfl | hne
    · cases hfeed
      exact hstate
    · have hraw : rawData rt s =
          {appendBody rt s with contentlength := rt.contentlength-s.length} :=
        if_neg fun hzero => hle (sub_eq_zero.mp hzero).le
      rw [feed_rawData hstate hne (not_le.mp hle).le,hraw] at hfeed
      cases hfeed
      exact hstate

/-- Where the parser has come to an end, it has read the body that the header announces. -/
theorem framed_iff (hbody : AtBody h rt) (hfeed : parser.feed rt s = some rt') :
    Framed e h.framing s body ↔ Ended rt' e ∧ rt'.response.body = body := by
  have hempty : rt.response.body = [] := congrArg HttpResponseTiny.body hbody.response.1
  have hstart := hbody.start
  generalize h.framing = framing at hstart
  cases hstart with
  | chunked hstate hrow =>
      have hremains : ∀ text body, Remains rt text body ↔ Chunks text body := by
        intro text body
        unfold Remains
        rw [hstate,hrow]
        exact Iff.rfl
      have hchunks : InChunks rt.state := hstate ▸ .header
      constructor
      · intro hframed
        cases hframed with
        | chunked h =>
            obtain ⟨hclose,hread⟩ := chunks_close hbody.sane hchunks ((hremains _ _).mpr h) hfeed
            rw [hempty] at hread
            exact ⟨.inl hclose,hread⟩
      · rintro ⟨hclose | ⟨hunknown,-⟩,rfl⟩
        · obtain ⟨text,rest,body,rfl,h⟩ := chunks_of_close hbody.sane hchunks hfeed hclose
          rw [(chunks_close hbody.sane hchunks h hfeed).2,hempty]
          exact .chunked ((hremains _ _).mp h)
        · have hkept := inChunks_feed hbody.sane hchunks hfeed
          rw [hunknown] at hkept
          cases hkept
  | empty hstate =>
      rw [Machine.feed_final (finished_iff.mpr (.inr hstate))] at hfeed
      cases hfeed
      rw [hempty]
      constructor
      · intro hframed
        cases hframed
        exact ⟨.inl hstate,rfl⟩
      · rintro ⟨-,rfl⟩
        exact .length (Nat.zero_le _)
  | length hstate hpos hlength =>
      have hread := feed_length hstate hpos hfeed
      subst hlength
      split_ifs at hread with hle
      · rw [hempty,List.nil_append] at hread
        constructor
        · intro hframed
          cases hframed
          exact ⟨.inl hread.1,hread.2⟩
        · rintro ⟨-,rfl⟩
          rw [hread.2]
          exact .length (by omega)
      · constructor
        · intro hframed
          cases hframed with
          | length h => omega
        · rintro ⟨hclose | ⟨hunknown,-⟩,-⟩
          · cases hread.symm.trans hclose
          · cases hread.symm.trans hunknown
  | untilEnd hstate hlength =>
      rw [feed_unknownData hstate] at hfeed
      cases hfeed
      have hread : (appendBody rt s).response.body = s := by
        change rt.response.body++s = s
        rw [hempty,List.nil_append]
      rw [hread]
      constructor
      · intro hframed
        cases hframed with
        | untilEnd h => exact ⟨.inr ⟨hstate,h⟩,rfl⟩
      · rintro ⟨hclose | ⟨-,hend⟩,rfl⟩
        · cases hstate.symm.trans hclose
        · exact .untilEnd hend
  | invalid hstate =>
      rw [Machine.feed_final (finished_iff.mpr (.inl hstate))] at hfeed
      cases hfeed
      constructor
      · intro hframed
        cases hframed
      · rintro ⟨hclose | ⟨hunknown,-⟩,-⟩
        · cases hstate.symm.trans hclose
        · cases hstate.symm.trans hunknown

end Body

section Response
variable {rt : Roundtripper} {stream : Bytes} {e : Ending} {r : HttpResponse}

/-- Where the parser does not get stuck, the response it has read is the one in the stream. -/
theorem complete_iff (hfeed : parser.feed httpInit stream = some rt) : Complete stream e r ↔
    Ended rt e ∧ r = ⟨Int32.ofInt rt.response.code,rt.response.body⟩ := by
  have hheader := feed_header .init hfeed
  have hstart : (httpInit).parsestate = 0 := rfl
  rw [hstart] at hheader
  cases hscan : scan 0 .empty stream with
  | none =>
      rw [hscan] at hheader
      constructor
      · rintro ⟨h,rest,h',-⟩
        cases hscan.symm.trans h'
      · rintro ⟨hclose | ⟨hunknown,-⟩,-⟩
        · rcases hheader with h | h <;> cases h.symm.trans hclose
        · rcases hheader with h | h <;> cases h.symm.trans hunknown
  | some p =>
      obtain ⟨h,rest⟩ := p
      rw [hscan] at hheader
      obtain ⟨rt₁,hbody,hrest⟩ := hheader
      obtain ⟨hresponse,hlow,hhigh,hstate⟩ := hbody.response
      have hcode : rt.response.code = h.code := by
        rw [code_feed hstate hrest,hresponse]
      have hint : (Int32.ofInt h.code).toInt = h.code :=
        Int32.toInt_ofInt_of_le hlow hhigh
      rw [hcode]
      constructor
      · rintro ⟨h',rest',heq,hr,hframed⟩
        cases hscan.symm.trans heq
        obtain ⟨hended,hread⟩ := (framed_iff hbody hrest).mp hframed
        refine ⟨hended,?_⟩
        obtain ⟨statusCode,content⟩ := r
        have hstatus : statusCode = Int32.ofInt h.code := Int32.toInt_inj.mp (hr.trans hint.symm)
        rw [hstatus,hread]
      · rintro ⟨hended,rfl⟩
        exact ⟨h,rest,hscan,hint,(framed_iff hbody hrest).mpr ⟨hended,rfl⟩⟩

end Response

section Outcome
variable {c : Connection} {stream : Bytes} {e : Ending} {r : HttpResponse} {rt : Roundtripper}

def Returns (c : Connection) (r : HttpResponse) : Prop := ∃ n, getResponse n c = some (.returned r)

def Throws (c : Connection) : Prop := ∃ n what, getResponse n c = some (.threw what)

def Undefined (c : Connection) : Prop := ∃ n, getResponse n c = some .undefined

structure Carries (c : Connection) (stream : Bytes) (e : Ending) : Prop where
  stream : c.stream = stream
  ending : c.ending = e

/-- Whatever the stream is cut into: what is returned is the response in the stream,
the same for each way to cut it, and where there is none, `getResponse` throws. -/
structure Faithful (stream : Bytes) (e : Ending) : Prop where
  complete : ∀ c r, Carries c stream e → Returns c r → Complete stream e r
  unsplit : ∀ c c' r, Carries c stream e → Carries c' stream e → Returns c r → Returns c' r
  truncated : (¬∃ r, Complete stream e r) → ∀ c, Carries c stream e → Throws c
  defined : ∀ c, Carries c stream e → ¬Undefined c

theorem reply_iff (hc : Carries c stream e) {reply : Reply} :
    (∃ n, getResponse n c = some reply) ↔
      ∃ out, Ends (parser.feed httpInit stream) e out ∧ afterLoop out = reply := by
  rw [← hc.stream,← hc.ending]
  constructor
  · rintro ⟨n,hn⟩
    obtain ⟨out,hout,hreply⟩ := Option.map_eq_some_iff.mp hn
    exact ⟨out,readLoop_init_iff.mp ⟨n,hout⟩,hreply⟩
  · rintro ⟨out,hends,hreply⟩
    obtain ⟨n,hn⟩ := readLoop_init_iff.mpr hends
    exact ⟨n,Option.map_eq_some_iff.mpr ⟨out,hn,hreply⟩⟩

/-- Each byte arrives on its own. -/
def bytewise (stream : Bytes) (e : Ending) : Connection where
  arrivals := stream.map fun b => .data ⟨[b],List.cons_ne_nil b [],by simp⟩
  ending := e

theorem carries_bytewise (stream : Bytes) (e : Ending) :
    Carries (bytewise stream e) stream e := by
  refine ⟨?_,rfl⟩
  rw [Connection.stream,bytewise,List.flatMap_map]
  exact List.flatMap_singleton' stream

theorem afterLoop_left (h : rt.state ≠ .error) :
    afterLoop (.left rt) = .returned ⟨Int32.ofInt rt.response.code,rt.response.body⟩ :=
  if_neg fun herror => h (of_decide_eq_true herror)

theorem afterLoop_error (h : rt.state = .error) : ∃ what, afterLoop (.left rt) = .threw what :=
  ⟨_,if_pos (decide_eq_true h)⟩

/-- Where the loop is left at the end of a response, what is returned is in the stream. -/
theorem faithful_of_left (hfeed : parser.feed httpInit stream = some rt) (hended : Ended rt e)
    (hends : ∀ out, Ends (some rt) e out ↔ out = .left rt) : Faithful stream e := by
  have hstate : rt.state ≠ .error := by
    intro herror
    rcases hended with h | ⟨h,-⟩ <;> cases herror.symm.trans h
  have hreply : ∀ c reply, Carries c stream e → ((∃ n, getResponse n c = some reply) ↔
      reply = .returned ⟨Int32.ofInt rt.response.code,rt.response.body⟩) := by
    intro c reply hc
    rw [reply_iff hc,hfeed]
    simp only [hends,exists_eq_left,afterLoop_left hstate,eq_comm]
  refine ⟨fun c r hc hr => ?_,fun c c' r hc hc' hr => ?_,fun hnone => ?_,fun c hc hundefined => ?_⟩
  · cases (hreply c _ hc).mp hr
    exact (complete_iff hfeed).mpr ⟨hended,rfl⟩
  · exact (hreply c' _ hc').mpr ((hreply c _ hc).mp hr)
  · exact absurd ⟨_,(complete_iff hfeed).mpr ⟨hended,rfl⟩⟩ hnone
  · cases (hreply c _ hc).mp hundefined

/-- A connection on which `getResponse` does nothing but throw. -/
theorem faithful_of_throw (hreply : ∀ c reply, Carries c stream e →
    (∃ n, getResponse n c = some reply) → ∃ what, reply = .threw what)
    (hthrows : ∀ c, Carries c stream e → Throws c) : Faithful stream e := by
  refine ⟨fun c r hc hr => ?_,fun c c' r hc hc' hr => ?_,fun _ => hthrows,
    fun c hc hundefined => ?_⟩
  · obtain ⟨what,h⟩ := hreply c _ hc hr
    cases h
  · obtain ⟨what,h⟩ := hreply c _ hc hr
    cases h
  · obtain ⟨what,h⟩ := hreply c _ hc hundefined
    cases h

theorem faithful_of_failed (hfeed : parser.feed httpInit stream = some rt)
    (hfinal : finished rt = false) (x : ReadError) : Faithful stream (.failed x) := by
  refine faithful_of_throw (fun c reply hc hn => ?_) (fun c hc => ?_)
  · obtain ⟨out,hends,rfl⟩ := (reply_iff hc).mp hn
    rw [hfeed] at hends
    cases hends with
    | finished h => cases hfinal.symm.trans h
    | failed => exact ⟨x.what,rfl⟩
  · obtain ⟨n,hn⟩ := (reply_iff hc).mpr ⟨.threw x.what,hfeed ▸ .failed hfinal,rfl⟩
    exact ⟨n,x.what,hn⟩

theorem faithful_of_error (hfeed : parser.feed httpInit stream = some rt)
    (herror : rt.state = .error) : Faithful stream e := by
  have hfinal := finished_iff.mpr (.inl herror)
  obtain ⟨what,hwhat⟩ := afterLoop_error herror
  refine faithful_of_throw (fun c reply hc hn => ?_) (fun c hc => ?_)
  · obtain ⟨out,hends,rfl⟩ := (reply_iff hc).mp hn
    rw [hfeed] at hends
    cases hends with
    | finished => exact ⟨what,hwhat⟩
    | failed h => cases h.symm.trans hfinal
    | eof h => cases h.symm.trans hfinal
  · obtain ⟨n,hn⟩ := (reply_iff hc).mpr ⟨.left rt,hfeed ▸ .finished hfinal,hwhat⟩
    exact ⟨n,what,hn⟩

/-- Whatever is returned is a complete response, and a truncated one is reported,
unless the end of the file comes where the parser waits for the rest of a header or
of an announced body. -/
theorem truncation_reported_iff (stream : Bytes) (e : Ending) : Faithful stream e ↔
    ∃ rt, parser.feed httpInit stream = some rt ∧
      (finished rt = true ∨ e ≠ .eof ∨ rt.state = .unknownData) := by
  constructor
  · intro hfaithful
    have hc := carries_bytewise stream e
    cases hfeed : parser.feed httpInit stream with
    | none =>
        exact absurd ((reply_iff hc).mpr ⟨.undefined,hfeed ▸ .undefined,rfl⟩)
          (hfaithful.defined _ hc)
    | some rt =>
        refine ⟨rt,rfl,?_⟩
        by_contra hcond
        obtain ⟨hfinal,hcond⟩ := not_or.mp hcond
        obtain ⟨heof,hunknown⟩ := not_or.mp hcond
        rw [not_not] at heof
        have hnone : ¬∃ r, Complete stream e r := by
          rintro ⟨r,hr⟩
          rcases ((complete_iff hfeed).mp hr).1 with hclose | ⟨h,-⟩
          · exact hfinal (finished_iff.mpr (.inr hclose))
          · exact hunknown h
        obtain ⟨n,what,hn⟩ := hfaithful.truncated hnone _ hc
        obtain ⟨out,hends,hthrew⟩ := (reply_iff hc).mp ⟨n,hn⟩
        rw [hfeed,heof] at hends
        cases hends with
        | finished h => exact hfinal h
        | eof =>
            have hstate : rt.state ≠ .error := fun h => hfinal (finished_iff.mpr (.inl h))
            rw [afterLoop_left hstate] at hthrew
            cases hthrew
  · rintro ⟨rt,hfeed,hcond⟩
    cases hfinal : finished rt with
    | true =>
        rcases finished_iff.mp hfinal with herror | hclose
        · exact faithful_of_error hfeed herror
        · refine faithful_of_left hfeed (.inl hclose) fun out => ⟨fun hends => ?_,fun hout => ?_⟩
          · cases hends with
            | finished => rfl
            | failed h => cases h.symm.trans hfinal
            | eof h => cases h.symm.trans hfinal
          · exact hout ▸ .finished hfinal
    | false =>
        cases e with
        | failed x => exact faithful_of_failed hfeed hfinal x
        | eof =>
            have hunknown := (hcond.resolve_left (Bool.eq_false_iff.mp hfinal)).resolve_left
              (not_not.mpr rfl)
            have hlength := (Sane.init.feed hfeed).none hunknown
            refine faithful_of_left hfeed (.inr ⟨hunknown,rfl⟩) fun out =>
              ⟨fun hends => ?_,fun hout => ?_⟩
            · cases hends with
              | finished h => cases hfinal.symm.trans h
              | eof => rfl
            · exact hout ▸ .eof hfinal hlength

end Outcome

/-- The file ends in the header. -/
def headless : Connection where
  arrivals := [.data ⟨Cpp.ascii "HTTP/1.1 200 OK\r\nServer: x\r\n",by decide,by decide⟩]
  ending := .eof

theorem header_cut_returned : Returns headless ⟨0,[]⟩ ∧
    (¬∃ r, Complete headless.stream headless.ending r) ∧
      ¬Faithful headless.stream headless.ending := by
  have hfeed : (parser.feed httpInit headless.stream).map (fun rt =>
      (rt.state,rt.contentlength,rt.response)) = some (.header,-1,⟨[],0⟩) := by decide
  obtain ⟨rt,hrt,hfacts⟩ := Option.map_eq_some_iff.mp hfeed
  obtain ⟨hstate,hlength,hresponse⟩ : rt.state = .header ∧ rt.contentlength = -1 ∧
      rt.response = ⟨[],0⟩ := by simpa only [Prod.mk.injEq] using hfacts
  have hreturns : Returns headless ⟨0,[]⟩ := by
    refine (reply_iff ⟨rfl,rfl⟩).mpr ⟨.left rt,?_,?_⟩
    · rw [hrt]
      exact .eof (by rw [finished,hstate]; rfl) hlength
    · rw [afterLoop_left (by rw [hstate]; intro h; cases h),hresponse]
      rfl
  have hnone : ¬∃ r, Complete headless.stream headless.ending r := by
    rintro ⟨r,hr⟩
    rcases ((complete_iff hrt).mp hr).1 with hclose | ⟨hunknown,-⟩
    · cases hstate.symm.trans hclose
    · cases hstate.symm.trans hunknown
  exact ⟨hreturns,hnone,fun h => hnone ⟨_,h.complete headless _ ⟨rfl,rfl⟩ hreturns⟩⟩

end TownCrier.Https
