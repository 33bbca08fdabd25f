import TownCrier.Linked
import TownCrier.SteamTrade

/-!
# What becomes of a Steam purchase

TownCrier calls back with the selector that `purchase` has given to it. No public
function has this selector, so the fallback runs, and it does nothing. The refund
of an error runs the fallback as well, which takes no ether.
-/
namespace TownCrier.SteamTrade
open BigEndian CallMachine Evm Keccak Linked

/-- The outcome without the word that is returned. -/
def silent : Result → Outcome Unit World Kont
  | .done _ w => .done () w
  | .revert => .revert
  | .call saved handover k => .call saved handover k

def client (self : Address) : Client Storage Event Purpose Kont Function where
  start m f w := silent (start m f w)
  resume k answer w := silent (resume k answer w)
  fallback := .fallback
  dispatch fid d f := f = dispatch fid d
  asks
    | a, .tcRequest ID_B T_B => .request 2 self TC_CALLBACK_FID 0 (format a.storage ID_B T_B)
    | _, _ => .fallback

abbrev Joint := Linked.World Storage Event Purpose
abbrev JointCall := Contract.Call ⊕ Linked.Call Function

/-- TownCrier and the trade. -/
def market (A : Addresses) : System JointCall (Option ℤ) Joint (Contract.Kont ⊕ Kont) :=
  system keccak256 A (client A.client)

/-- The record asks TownCrier for the callback which `purchase` names. -/
structure Purchased (A : Addresses) (w : Contract.World) (requestId : UInt64) : Prop where
  callbackAddr : (w.storage.requests requestId).callbackAddr = A.client
  callbackFID : (w.storage.requests requestId).callbackFID = TC_CALLBACK_FID

/-- A handover that can only run the fallback. -/
structure Quiet (A : Addresses) (h : Joint) : Prop where
  quiet : ∃ t, h.1.sent.getLast? = some t ∧ t.recipient = A.client ∧
    ∀ f, (client A.client).Receives t.purpose f → f = .fallback

/-- Code of TownCrier which leaves the trade in `a`: all its handovers can only
run the fallback. -/
inductive Confined (A : Addresses) (a : World) :
    Outcome (Option ℤ) Joint (Contract.Kont ⊕ Kont) → Prop
  | done {r w} (h : w.2 = a) : Confined A a (.done r w)
  | revert : Confined A a .revert
  | call {s h k} (hh : Quiet A h)
      (hrest : ∀ answer w, w = s ∨ w = h → Confined A a ((market A).resume (.inl k) answer w)) :
      Confined A a (.call s h (.inl k))

section Market
variable {A : Addresses} {ok : JointCall → Joint → Prop} {w w' s h : Joint}
variable {k : Contract.Kont} {answer : Option (Option ℤ)}

theorem market_start (c : Contract.Call) (w : Joint) : (market A).start (.inl c) w =
    ofTownCrier w.2 (Contract.start keccak256 c w.1) := rfl

theorem fallback_exec {m : Msg} (hexec : (market A).Exec ok
    (.code w ((market A).start (.inr (.message m .fallback)) w)) answer w') :
    w' = w ∧ (m.value ≠ 0 → answer = none) := by
  have hstart : (market A).start (.inr (.message m .fallback)) w =
      ofClient w.1 (silent (nonPayable m (.done none w.2))) := rfl
  rw [hstart] at hexec
  unfold nonPayable at hexec
  split_ifs at hexec with hvalue
  · cases hexec
    exact ⟨rfl,fun h => absurd hvalue h⟩
  · cases hexec
    exact ⟨rfl,fun _ => rfl⟩

theorem Quiet.callee (hh : Quiet A h) {c : JointCall} (hc : (market A).callee (.inl k) h c) :
    ∃ m, c = .inr (.message m .fallback) := by
  obtain ⟨t,ht,hr,hf⟩ := hh.quiet
  rcases c with (⟨m,f⟩ | value) | (⟨m,f⟩ | value)
  · obtain ⟨t',ht',harrives,-⟩ := hc
    cases ht.symm.trans ht'
    exact absurd (harrives.recipient.symm.trans hr) A.distinct
  · cases hc
  · obtain ⟨t',ht',-,hreceives⟩ := hc
    cases ht.symm.trans ht'
    rw [hf f hreceives]
    exact ⟨m,rfl⟩
  · cases hc

theorem Quiet.not_outside (hh : Quiet A h) : ¬(market A).outside (.inl k) h := by
  rintro ⟨t',ht',-,hr'⟩
  obtain ⟨t,ht,hr,-⟩ := hh.quiet
  cases ht.symm.trans ht'
  exact hr' hr

theorem Quiet.exec (hh : Quiet A h)
    (hexec : (market A).Exec ok (.handover s h (.inl k)) answer w) : w = s ∨ w = h := by
  cases hexec with
  | starved => exact .inl rfl
  | inner hc _ hcall =>
      obtain ⟨m,rfl⟩ := hh.callee hc
      rw [(fallback_exec hcall).1]
      split_ifs
      · exact .inr rfl
      · exact .inl rfl
  | outer hout => exact absurd hout hh.not_outside

theorem Quiet.within (hh : Quiet A h) {m : Msg} {f : Function}
    (hx : (market A).Within ok (.handover s h (.inl k)) (.call (.inr (.message m f)) w)) :
    f = .fallback := by
  cases hx with
  | entered hc =>
      obtain ⟨m',heq⟩ := hh.callee hc
      cases heq
      rfl
  | inner hc _ hx =>
      obtain ⟨m',rfl⟩ := hh.callee hc
      have hstart : (market A).start (.inr (.message m' .fallback)) h =
          ofClient h.1 (silent (nonPayable m' (.done none h.2))) := rfl
      rw [hstart] at hx
      unfold nonPayable at hx
      split_ifs at hx <;> cases hx
  | outer hout => exact absurd hout hh.not_outside

theorem quiet_callback {x : Contract.World} {a : World} {d : Contract.Delivery}
    (hx : Purchased A x d.requestId) {y : Contract.World} :
    Quiet A (y.pay (x.storage.requests d.requestId).callbackAddr 0
      (.callback (x.storage.requests d.requestId).callbackFID d),a) := by
  refine ⟨⟨A.client,0,.callback TC_CALLBACK_FID d,true⟩,?_,rfl,fun f hf => ?_⟩
  · rw [Account.getLast?_sent_pay,hx.callbackAddr,hx.callbackFID]
  · change f = dispatch TC_CALLBACK_FID d at hf
    rw [hf,dispatch_callback]

theorem Confined.exec {a : World} {o : Outcome (Option ℤ) Joint (Contract.Kont ⊕ Kont)}
    (ho : Confined A a o) (hw : w.2 = a) (hexec : (market A).Exec ok (.code w o) answer w') :
    w'.2 = a := by
  induction ho generalizing answer w' with
  | done h =>
      cases hexec
      exact h
  | revert =>
      cases hexec
      exact hw
  | call hh _ ih =>
      cases hexec with
      | outOfGas => exact hw
      | resumed hcall hrest => exact ih _ _ (hh.exec hcall) hrest

theorem Confined.within {a : World} {o : Outcome (Option ℤ) Joint (Contract.Kont ⊕ Kont)}
    (ho : Confined A a o) {m : Msg} {f : Function}
    (hx : (market A).Within ok (.code w o) (.call (.inr (.message m f)) w')) : f = .fallback := by
  induction ho with
  | done | revert => cases hx
  | call hh _ ih =>
      cases hx with
      | called hx => exact hh.within hx
      | resumed hcall hx => exact ih _ _ (hh.exec hcall) hx

/-- A continuation returns, or it makes the callback for its delivery. -/
theorem confined_resume {d : Contract.Delivery} (hk : ∀ m d' fee, k = .deliverRefund m d' fee → d' = d)
    (hw : Purchased A w.1 d.requestId) (answer : Option (Option ℤ)) :
    Confined A w.2 ((market A).resume (.inl k) answer w) := by
  have hresume : ∀ (k : Contract.Kont) (answer : Option (Option ℤ)) (w : Joint),
      (market A).resume (.inl k) answer w =
        ofTownCrier w.2 (Contract.resume k (answer.map fun _ => ()) w.1) := fun _ _ _ => rfl
  rw [hresume]
  rcases Contract.resume_cases k (answer.map fun _ => ()) w.1 with
    heq | ⟨r,x,heq,-⟩ | ⟨m,d',fee,x,rfl,-,-,-,heq⟩
  · rw [heq]
    exact .revert
  · rw [heq]
    exact .done rfl
  · obtain rfl := hk m d' fee rfl
    rw [heq]
    refine .call (quiet_callback hw) fun answer w₁ hw₁ => ?_
    have hclient : w₁.2 = w.2 := by rcases hw₁ with rfl | rfl <;> rfl
    rw [hresume]
    rcases Contract.resume_cases .deliverCallback (answer.map fun _ => ()) w₁.1 with
      heq | ⟨r,x,heq,-⟩ | ⟨m',d'',fee',x,hk',-⟩
    · rw [heq]
      exact .revert
    · rw [heq]
      exact .done hclient
    · cases hk'

/-- Whatever the answer, a delivery for a purchase runs the fallback only. -/
theorem confined_deliver {m : Msg} {requestId : UInt64} {paramsHash : Bytes32} {error : UInt64}
    {respData : Bytes32} (hw : Purchased A w.1 requestId)
    (hrequester : (w.1.storage.requests requestId).requester = A.client) :
    Confined A w.2 ((market A).start
      (.inl (.message m (.deliver requestId paramsHash error respData))) w) := by
  rw [market_start]
  have hhands := Contract.hands_start keccak256
    (.message m (.deliver requestId paramsHash error respData)) w.1
  have heffect : (Contract.start keccak256
      (.message m (.deliver requestId paramsHash error respData)) w.1).All
        (Contract.Effect keccak256 w.1 (.message m (.deliver requestId paramsHash error respData)))
        fun _ => True := Contract.effect_start _
  generalize Contract.start keccak256 (.message m (.deliver requestId paramsHash error respData))
    w.1 = o at hhands heffect
  cases o with
  | done r x => exact .done rfl
  | revert => exact .revert
  | call s h k =>
      obtain ⟨x,r,v,p,rfl,rfl,-,-,hhanding⟩ := hhands
      have hkept : ∀ w₁ : Joint, w₁ = (x.keep r v p,w.2) ∨ w₁ = (x.pay r v p,w.2) →
          w₁.2 = w.2 ∧ Purchased A w₁.1 requestId := by
        have hcallback := heffect.1.callback requestId
        rintro w₁ (rfl | rfl)
        all_goals exact ⟨rfl,hcallback.1.trans hw.callbackAddr,hcallback.2.trans hw.callbackFID⟩
      cases hhanding with
      | @deliverRefund _ d =>
          refine .call ⟨_,Account.getLast?_sent_pay _ _ _ _,hrequester,fun f hf => hf⟩ fun answer w₁ hw₁ => ?_
          obtain ⟨hclient,hpurchased⟩ := hkept w₁ hw₁
          rw [← hclient]
          refine confined_resume (d := d) (fun m' d' fee hk => ?_) hpurchased answer
          cases hk
          rfl
      | @deliverCallback _ d =>
          refine .call (quiet_callback (d := d) hw) fun answer w₁ hw₁ => ?_
          obtain ⟨hclient,hpurchased⟩ := hkept w₁ hw₁
          rw [← hclient]
          exact confined_resume (d := d) (by simp) hpurchased answer

theorem purchased_record (m : Msg) (requestData : List Bytes32) (x : Contract.World) :
    Purchased A (Contract.record keccak256 m 2 A.client TC_CALLBACK_FID 0 requestData x).2
      x.storage.requestCnt ∧
    ((Contract.record keccak256 m 2 A.client TC_CALLBACK_FID 0 requestData x).2.storage.requests
      x.storage.requestCnt).requester = m.sender := by
  have hself : (Contract.record keccak256 m 2 A.client TC_CALLBACK_FID 0 requestData
      x).2.storage.requests x.storage.requestCnt = ⟨m.sender,m.value,A.client,TC_CALLBACK_FID,
        keccak256 (encodePacked 2 requestData)⟩ := Function.update_self _ _ _
  exact ⟨⟨by rw [hself],by rw [hself]⟩,by rw [hself]⟩

/-- TownCrier records the request of a purchase, or it refuses to take it. -/
theorem request_exec {m : Msg} {requestData : List Bytes32} {r : Option ℤ}
    (hsender : m.sender = A.client) (hvalue : m.value ≠ 0)
    (hexec : (market A).Exec ok (.code w ((market A).start (.inl (.message m
      (.request 2 A.client TC_CALLBACK_FID 0 requestData))) w)) (some r) w') :
    r = some (w.1.storage.requestCnt.toNat : ℤ) ∧ w'.2 = w.2 ∧
      Purchased A w'.1 w.1.storage.requestCnt ∧
      (w'.1.storage.requests w.1.storage.requestCnt).requester = A.client := by
  have hrefused : ∀ {x : Contract.World} {p : Contract.Purpose} {k : Contract.Kont}
      {o : Contract.Result}, (∀ x, Contract.resume k none x = .revert) →
      (∀ f, (client A.client).Receives p f → f = .fallback) →
      x.callOut m.sender m.value p k (Contract.resume k none) = o →
        ¬(market A).Exec ok (.code w (ofTownCrier w.2 o)) (some r) w' := by
    intro x p k o hk hf ho hexec
    unfold Account.callOut at ho
    split_ifs at ho
    · subst ho
      have hquiet : Quiet A (x.pay m.sender m.value p,w.2) :=
        ⟨_,Account.getLast?_sent_pay _ _ _ _,hsender,hf⟩
      cases hexec with
      | @resumed _ _ _ _ a _ _ _ hcall hrest =>
          have hnone : a = none := by
            cases hcall with
            | starved => rfl
            | inner hc _ hcall =>
                obtain ⟨m',rfl⟩ := hquiet.callee hc
                obtain ⟨t,ht,harrives,-⟩ := hc
                cases (Account.getLast?_sent_pay ..).symm.trans ht
                exact (fallback_exec hcall).2 (harrives.value ▸ hvalue)
            | outer hout => exact absurd hout hquiet.not_outside
          rw [hnone] at hrest
          change (market A).Exec ok (.code w (ofTownCrier _ (Contract.resume k none _))) _ _ at hrest
          rw [hk] at hrest
          cases hrest
    · rw [hk] at ho
      subst ho
      cases hexec
  have hstart : (market A).start (.inl (.message m
      (.request 2 A.client TC_CALLBACK_FID 0 requestData))) w = ofTownCrier w.2
        (Contract.request keccak256 m 2 A.client TC_CALLBACK_FID 0 requestData w.1) := rfl
  rw [hstart] at hexec
  unfold Contract.request at hexec
  dsimp only at hexec
  split_ifs at hexec
  · cases hexec
  · exact absurd hexec (hrefused (p := .killedRefund) (fun _ => rfl) (fun _ hf => hf) rfl)
  · exact absurd hexec (hrefused (p := .underpaidRefund) (fun _ => rfl) (fun _ hf => hf) rfl)
  · cases hexec
    obtain ⟨hpurchased,hrequester⟩ := purchased_record (A := A) m requestData (w.1.credit m.value)
    exact ⟨rfl,rfl,hpurchased,hrequester.trans hsender⟩

/-- A purchase that succeeds is recorded on both sides. -/
theorem purchase_exec {m : Msg} {ID_B : Bytes32} {T_B : UInt32} {r : Option ℤ}
    (htc : w.2.storage.tcContract = A.townCrier) (hpaid : m.value = w.2.storage.P+TC_FEE)
    (hexec : (market A).Exec ok (.code w ((market A).start (.inr (.message m
      (.purchase ID_B T_B))) w)) (some r) w') :
    Purchased A w'.1 w.1.storage.requestCnt ∧
      (w'.1.storage.requests w.1.storage.requestCnt).requester = A.client ∧
      w'.2.storage.buyers w.1.storage.requestCnt = m.sender := by
  obtain ⟨T,a⟩ := w
  set b := (a.credit m.value).emit (.Buy ID_B T_B a.storage.encAPI a.storage.ITEM 1)
  have hstart : (market A).start (.inr (.message m (.purchase ID_B T_B))) (T,a) =
      ofClient T (silent (b.callOut A.townCrier TC_FEE (.tcRequest ID_B T_B) (.tcRequest m)
        (afterTcRequest m none))) := by
    change ofClient T (silent (purchase m ID_B T_B a)) = _
    rw [← htc]
    have heq : m.value = (a.credit m.value).storage.P+TC_FEE := hpaid
    unfold purchase
    dsimp only
    rw [if_neg (not_not.mpr heq)]
    rfl
  rw [hstart] at hexec
  unfold Account.callOut at hexec
  split_ifs at hexec
  · cases hexec with
    | @resumed _ _ _ _ n w₁ _ _ hcall hrest =>
        have hrevert : n ≠ none := by
          rintro rfl
          cases hrest
        cases hcall with
        | starved => exact absurd rfl hrevert
        | @inner _ _ _ c _ w₁ hc _ hcall =>
            rcases c with (⟨m',f⟩ | value) | (⟨m',f⟩ | value)
            · obtain ⟨t,ht,harrives,hf⟩ := hc
              cases (Account.getLast?_sent_pay ..).symm.trans ht
              subst hf
              obtain ⟨r',rfl⟩ := Option.ne_none_iff_exists'.mp hrevert
              have hvalue : m'.value ≠ 0 := by
                rw [harrives.value]
                change TC_FEE ≠ 0
                decide
              obtain ⟨rfl,-,hpurchased,hrequester⟩ := request_exec harrives.sender hvalue hcall
              change (market A).Exec ok (.code (T,a) (ofClient w₁.1 (silent
                (afterTcRequest m (some (T.storage.requestCnt.toNat : ℤ)) w₁.2)))) _ _ at hrest
              cases hrest
              refine ⟨hpurchased,hrequester,?_⟩
              change Function.update w₁.2.storage.buyers (UInt64.ofInt
                (T.storage.requestCnt.toNat : ℤ)) m.sender T.storage.requestCnt = m.sender
              rw [ofInt_toNat,Function.update_self]
            · cases hc
            · obtain ⟨t,ht,harrives,-⟩ := hc
              cases (Account.getLast?_sent_pay ..).symm.trans ht
              exact absurd harrives.recipient A.distinct
            · cases hc
        | outer hout =>
            obtain ⟨t,ht,hr,-⟩ := hout
            cases (Account.getLast?_sent_pay ..).symm.trans ht
            exact absurd rfl hr
  · cases hexec

/-- No delivery for an accepted purchase runs `pay`, and none changes the trade. -/
theorem purchase_never_settled (A : Addresses) {w w₁ w₂ : Joint} {m : Msg} {ID_B : Bytes32}
    {T_B : UInt32} {r : Option ℤ} (htc : w.2.storage.tcContract = A.townCrier)
    (hpaid : m.value = w.2.storage.P+TC_FEE)
    (haccepted : (market A).Exec (fun _ _ => True) (.code w ((market A).start (.inr (.message m
      (.purchase ID_B T_B))) w)) (some r) w₁)
    (hkept : let requestId := w.1.storage.requestCnt
      let r₁ := w₁.1.storage.requests requestId
      let r₂ := w₂.1.storage.requests requestId
      r₂.requester = r₁.requester ∧ r₂.callbackAddr = r₁.callbackAddr ∧
        r₂.callbackFID = r₁.callbackFID)
    (m' : Msg) (paramsHash : Bytes32) (error : UInt64) (result : Bytes32) :
    let deliver := Contract.Call.message m'
      (.deliver w.1.storage.requestCnt paramsHash error result)
    (∀ answer w₃, (market A).Exec (fun _ _ => True)
        (.code w₂ ((market A).start (.inl deliver) w₂)) answer w₃ → w₃.2 = w₂.2) ∧
      ∀ m₀ f w₃, (market A).Within (fun _ _ => True)
        (.code w₂ ((market A).start (.inl deliver) w₂)) (.call (.inr (.message m₀ f)) w₃) →
          f = .fallback := by
  obtain ⟨hpurchased,hrequester,-⟩ := purchase_exec htc hpaid haccepted
  obtain ⟨hkept₁,hkept₂,hkept₃⟩ := hkept
  have hrecord : Purchased A w₂.1 w.1.storage.requestCnt :=
    ⟨hkept₂.trans hpurchased.callbackAddr,hkept₃.trans hpurchased.callbackFID⟩
  have hconfined : Confined A w₂.2 ((market A).start (.inl (.message m'
      (.deliver w.1.storage.requestCnt paramsHash error result))) w₂) :=
    confined_deliver hrecord (hkept₁.trans hrequester)
  exact ⟨fun answer w₃ hexec => hconfined.exec rfl hexec,fun m₀ f w₃ hx => hconfined.within hx⟩

end Market

section Sale

/-- TownCrier and a trade of an item for ten wei. -/
def shops : Addresses where
  townCrier := 3
  client := 8
  distinct := by decide
  townCrier_code := by decide
  client_code := by decide

def opened : Joint := (Contract.constructor 5 0,constructor 6 3 0 0 0 10 0)

def buyer : Msg := ⟨7,10+TC_FEE,1,0,0⟩

def asking : World :=
  ((opened.2.credit buyer.value).emit (.Buy 1 2 (0,0) 0 1)).pay 3 TC_FEE (.tcRequest 1 2)

def asked : Msg := ⟨8,TC_FEE,1,0,0⟩

def askedCall : Contract.Call :=
  .message asked (.request 2 8 TC_CALLBACK_FID 0 (format asking.storage 1 2))

def accepted : Contract.World :=
  (Contract.record keccak256 asked 2 8 TC_CALLBACK_FID 0 (format asking.storage 1 2)
    ((Contract.constructor 5 0).credit TC_FEE)).2

def bought : World :=
  (asking.set {asking.storage with
    buyers := Function.update asking.storage.buyers (UInt64.ofInt 1) 7}).emit (.UINT 6)

theorem start_asked : Contract.start keccak256 askedCall (Contract.constructor 5 0) =
    .done (some 1) accepted := by
  change Contract.request keccak256 asked 2 8 TC_CALLBACK_FID 0 (format asking.storage 1 2)
    (Contract.constructor 5 0) = _
  unfold Contract.request
  dsimp only
  rw [if_neg (by decide),if_neg (by decide),if_neg (by decide)]
  rfl

theorem exec_purchase : (market shops).Exec (fun _ _ => True) (.code opened ((market shops).start
    (.inr (.message buyer (.purchase 1 2))) opened)) (some none) (accepted,bought) := by
  have hpurchase : purchase buyer 1 2 opened.2 =
      .call (((opened.2.credit buyer.value).emit (.Buy 1 2 (0,0) 0 1)).keep 3 TC_FEE
        (.tcRequest 1 2)) asking (.tcRequest buyer) := by
    unfold purchase Account.callOut
    dsimp only
    rw [if_neg (by decide),if_pos (by decide)]
    rfl
  have hstart : (market shops).start (.inr (.message buyer (.purchase 1 2))) opened =
      ofClient opened.1 (silent (purchase buyer 1 2 opened.2)) := rfl
  have hcallee : (market shops).callee (.inr (.tcRequest buyer)) (opened.1,asking)
      (.inl askedCall) := ⟨_,rfl,⟨rfl,rfl,rfl⟩,rfl⟩
  have hasked : (market shops).start (.inl askedCall) (opened.1,asking) =
      .done (some 1) (accepted,asking) := congrArg (ofTownCrier _) start_asked
  have hresume : (market shops).resume (.inr (.tcRequest buyer)) (some (some 1))
      (accepted,asking) = .done none (accepted,bought) := rfl
  have hcall : (market shops).Exec (fun _ _ => True) (.code (opened.1,asking)
      ((market shops).start (.inl askedCall) (opened.1,asking))) (some (some 1))
        (accepted,asking) := by
    rw [hasked]
    exact .done
  have hrest : (market shops).Exec (fun _ _ => True) (.code opened ((market shops).resume
      (.inr (.tcRequest buyer)) (some (some 1)) (accepted,asking))) (some none)
        (accepted,bought) := by
    rw [hresume]
    exact .done
  rw [hstart,hpurchase]
  exact .resumed (.inner hcallee trivial hcall) hrest

def paramsHash : Bytes32 := keccak256 (encodePacked 2 (format asking.storage 1 2))

def enclave : Msg := ⟨Contract.SGX_ADDRESS,0,1,0,0⟩

def delivery : Contract.Delivery := ⟨Contract.SGX_ADDRESS,1,paramsHash,0,1⟩

def deliverCall : Contract.Call := .message enclave (.deliver 1 paramsHash 0 1)

def calling : Contract.World :=
  Contract.setFlag (((Contract.markDelivered accepted 1).pay Contract.SGX_ADDRESS TC_FEE
    (.deliveryFee delivery)).emit (.deliverInfo 1 TC_FEE 1 0 ((TC_FEE-accepted.storage.minFee)/1)
      paramsHash 0 1)) true

def called : Contract.World := calling.pay 8 0 (.callback TC_CALLBACK_FID delivery)

theorem start_deliver : Contract.start keccak256 deliverCall accepted =
    .call (calling.keep 8 0 (.callback TC_CALLBACK_FID delivery)) called .deliverCallback := by
  have hhash : ¬(accepted.storage.requests 1).paramsHash ≠ paramsHash := fun h => h rfl
  unfold deliverCall Contract.start nonPayable Contract.deliver Account.transfer Contract.callback
    Account.callOut
  dsimp only
  rw [if_pos (by decide),if_neg (by decide),if_neg hhash,if_neg (by decide),
    if_pos (by decide),if_pos (by decide)]
  dsimp only
  rw [if_neg (by decide),if_pos (by decide)]
  rfl

/-- The item is confirmed as sold, the request is closed, and the price stays. -/
theorem purchase_stuck : ∃ w₁ w₂,
    (market shops).Exec (fun _ _ => True) (.code opened ((market shops).start
      (.inr (.message buyer (.purchase 1 2))) opened)) (some none) w₁ ∧
    (market shops).Exec (fun _ _ => True) (.code w₁ ((market shops).start
      (.inl deliverCall) w₁)) (some none) w₂ ∧
    w₂.1.sent.getLast? = some ⟨8,0,.callback TC_CALLBACK_FID delivery,true⟩ ∧
    (w₂.1.storage.requests 1).fee = Contract.DELIVERED_FEE_FLAG ∧
    w₂.2 = w₁.2 ∧ w₂.2.balance = w₂.2.storage.P.toNat := by
  have hstart : (market shops).start (.inl deliverCall) (accepted,bought) = .call
      (calling.keep 8 0 (.callback TC_CALLBACK_FID delivery),bought) (called,bought)
        (.inl .deliverCallback) := by
    rw [market_start,start_deliver]
    rfl
  have hcallee : (market shops).callee (.inl .deliverCallback) (called,bought)
      (.inr (.message ⟨3,0,1,0,0⟩ .fallback)) :=
    ⟨_,rfl,⟨rfl,rfl,rfl⟩,(dispatch_callback delivery).symm⟩
  have hfallback : (market shops).start (.inr (.message ⟨3,0,1,0,0⟩ .fallback)) (called,bought) =
      .done none (called,bought) := rfl
  have hcall : (market shops).Exec (fun _ _ => True) (.code (called,bought) ((market shops).start
      (.inr (.message ⟨3,0,1,0,0⟩ .fallback)) (called,bought))) (some none) (called,bought) := by
    rw [hfallback]
    exact .done
  have hdeliver : (market shops).Exec (fun _ _ => True) (.code (accepted,bought)
      ((market shops).start (.inl deliverCall) (accepted,bought))) (some none)
        (Contract.setFlag called false,bought) := by
    rw [hstart]
    exact .resumed (.inner hcallee trivial hcall) .done
  exact ⟨_,_,exec_purchase,hdeliver,rfl,by decide,rfl,by decide⟩

/-- With the confirmation of the item, `pay` is not called either. -/
theorem purchase_never_settled_sold : ¬(market shops).Within (fun _ _ => True)
    (.code (accepted,bought) ((market shops).start (.inl deliverCall) (accepted,bought)))
      (.call (.inr (.message ⟨3,0,1,0,0⟩ (.pay 1 0 1))) (called,bought)) := by
  intro hx
  have hpaid : buyer.value = opened.2.storage.P+TC_FEE := by decide
  have hquiet : ∀ m f w, (market shops).Within (fun _ _ => True) (.code (accepted,bought)
      ((market shops).start (.inl deliverCall) (accepted,bought)))
        (.call (.inr (.message m f)) w) → f = .fallback :=
    (purchase_never_settled shops rfl hpaid exec_purchase ⟨rfl,rfl,rfl⟩ enclave paramsHash 0 1).2
  have heq := hquiet _ _ _ hx
  cases heq

end Sale
end TownCrier.SteamTrade
