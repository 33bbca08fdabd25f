import TownCrier.CallTree
import TownCrier.Guarantees

/-!
# The lock against re-entrance

`externalCallFlag` is up exactly while one of the calls of `request`, `cancel`
or `deliver` is open. Under a raised flag no piece of code reaches a record or a
counter, so the call finds them on its return as it left them, whatever tree of
calls was made in between. Nothing here depends on the fees or on who calls.
-/
namespace TownCrier.Contract
open BigEndian CallMachine Evm

/-- The functions which only set fees, switches or nothing at all. -/
def isSetting : Function → Bool
  | .fallback | .upgrade _ | .reset _ _ _ | .suspend | .restart => true
  | _ => false

/-- Fees, switches and the log apart, nothing has changed. -/
structure Governed (w w' : World) : Prop where
  flag : w'.storage.externalCallFlag = w.storage.externalCallFlag
  requests : w'.storage.requests = w.storage.requests
  requestCnt : w'.storage.requestCnt = w.storage.requestCnt
  unrespondedCnt : w'.storage.unrespondedCnt = w.storage.unrespondedCnt
  newVersion : w'.storage.newVersion = w.storage.newVersion ∨ w'.storage.newVersion ≤ 0
  infos : infos w' = infos w
  balance : w'.balance = w.balance
  sent : w'.sent = w.sent

theorem Governed.refl (w : World) : Governed w w :=
  ⟨rfl,rfl,rfl,rfl,.inl rfl,rfl,rfl,rfl⟩

theorem start_setting (keccak : Bytes → Bytes32) (w : World) (m : Msg) {f : Function}
    (hf : isSetting f = true) : ∃ w', Governed w w' ∧
      start keccak (.message m f) w = nonPayable m (.done none w') := by
  cases f with
  | fallback => exact ⟨w,.refl w,rfl⟩
  | upgrade newAddr =>
      rw [start,upgrade]
      split_ifs
      · refine ⟨_,?_,rfl⟩
        exact ⟨rfl,rfl,rfl,rfl,.inr (neg_nonpos.mpr (Int.natCast_nonneg _)),
          by simp [Event.info?],rfl,rfl⟩
      · exact ⟨w,.refl w,rfl⟩
  | reset price minGas cancellationGas =>
      rw [start,reset]
      split_ifs
      · refine ⟨_,?_,rfl⟩
        exact ⟨rfl,rfl,rfl,rfl,.inl rfl,by simp [Event.info?],rfl,rfl⟩
      · exact ⟨w,.refl w,rfl⟩
  | suspend =>
      rw [start,suspend]
      split_ifs
      · refine ⟨_,?_,rfl⟩
        exact ⟨rfl,rfl,rfl,rfl,.inl rfl,rfl,rfl,rfl⟩
      · exact ⟨w,.refl w,rfl⟩
  | restart =>
      rw [start,restart]
      split_ifs
      · refine ⟨_,?_,rfl⟩
        exact ⟨rfl,rfl,rfl,rfl,.inl rfl,rfl,rfl,rfl⟩
      · exact ⟨w,.refl w,rfl⟩
  | withdraw => cases hf
  | request => cases hf
  | deliver => cases hf
  | cancel => cases hf

/-- `withdraw` alone leaves the flag as it is when it calls out. -/
def locks : Kont → Bool
  | .withdraw => false
  | _ => true

/-- The flag goes up with the call that locks and is otherwise kept. -/
def flagAssertions : Assertions World Kont where
  inv := fun _ => True
  rel := fun e w => w.storage.externalCallFlag = e.storage.externalCallFlag
  held := fun k e h =>
    if locks k then e.storage.externalCallFlag = false ∧ h.storage.externalCallFlag = true
    else h.storage.externalCallFlag = e.storage.externalCallFlag
  failed := fun k e _ => locks k → e.storage.externalCallFlag = false

abbrev Flagged (e : World) (o : Result) : Prop := flagAssertions.Post (fun _ => True) e o

theorem flagged_done {e w : World} {result : Option ℤ}
    (h : w.storage.externalCallFlag = e.storage.externalCallFlag) : Flagged e (.done result w) :=
  fun _ => ⟨trivial,h⟩

theorem flagged_callOut {e w : World} {r : Address} {v : UInt256} {p : Purpose} {k : Kont}
    {onFailure : World → Result} (hk : locks k = true)
    (he : e.storage.externalCallFlag = false) (hw : w.storage.externalCallFlag = true)
    (hfail : Flagged e (onFailure (w.keep r v p))) : Flagged e (w.callOut r v p k onFailure) := by
  refine Account.post_callOut _ (fun _ _ => ⟨trivial,?_,fun _ => he⟩) (fun _ => hfail)
  simp only [flagAssertions,hk,if_true]
  exact ⟨he,hw⟩

variable {keccak : Bytes → Bytes32} {w e : World}

theorem flagged_callback {m : Msg} {d : Delivery} {fee : UInt256}
    (he : e.storage.externalCallFlag = false) : Flagged e (callback m d fee w) := by
  unfold callback
  split_ifs
  · trivial
  · exact flagged_callOut rfl he rfl (flagged_done he.symm)

theorem flagged_request {m : Msg} {requestType : UInt8} {callbackAddr : Address}
    {callbackFID : Bytes4} {timestamp : UInt256} {requestData : List Bytes32} :
    Flagged w (request keccak m requestType callbackAddr callbackFID timestamp requestData w) := by
  unfold request
  dsimp only
  split_ifs with hflag hkill hvalue
  · trivial
  · exact flagged_callOut rfl (by simpa using hflag) rfl trivial
  · exact flagged_callOut rfl (by simpa using hflag) rfl trivial
  · exact flagged_done rfl

theorem flagged_deliver {m : Msg} {requestId : UInt64} {paramsHash : Bytes32} {error : UInt64}
    {respData : Bytes32} (he : m.sender = SGX_ADDRESS → w.storage.externalCallFlag = false) :
    Flagged w (deliver m requestId paramsHash error respData w) := by
  unfold deliver
  dsimp only
  split_ifs with hguard hhash hcancelled herror
  · exact flagged_done rfl
  · exact flagged_done rfl
  all_goals
    simp only [not_or,not_not] at hguard
    replace he := he hguard.1
  · unfold Account.transfer
    split_ifs
    · exact flagged_done rfl
    · trivial
  · unfold Account.transfer
    split_ifs
    · exact flagged_callback he
    · trivial
  · exact flagged_callOut rfl he rfl (flagged_callback he)

theorem flagged_cancel {m : Msg} {requestId : UInt64} : Flagged w (cancel m requestId w) := by
  unfold cancel
  dsimp only
  split_ifs with hflag hkill hopen
  · trivial
  · exact flagged_done rfl
  · exact flagged_callOut rfl (by simpa using hflag) rfl trivial
  · exact flagged_done rfl

theorem flagged_withdraw {m : Msg} : Flagged w (withdraw m w) := by
  unfold withdraw
  split_ifs
  · exact Account.post_callOut _ (fun _ _ => ⟨trivial,rfl,nofun⟩) (fun _ => trivial)
  · exact flagged_done rfl

theorem flagged_start {c : Call}
    (h : (code keccak).reentrant c = true ∨ w.storage.externalCallFlag = false) :
    Flagged w (start keccak c w) := by
  cases c with
  | forced value => exact flagged_done rfl
  | message m f =>
      by_cases hf : isSetting f = true
      · obtain ⟨w',hw',heq⟩ := start_setting keccak w m hf
        rw [heq]
        exact post_nonPayable (flagged_done hw'.flag)
      cases f with
      | withdraw => exact post_nonPayable flagged_withdraw
      | request => exact flagged_request
      | deliver =>
          refine post_nonPayable (flagged_deliver fun hsender => h.resolve_left ?_)
          simp [code,hsender]
      | cancel => exact post_nonPayable flagged_cancel
      | fallback | upgrade | reset | suspend | restart => exact absurd rfl hf

theorem flagged_resume {k : Kont} {answer : Option Unit}
    (he : locks k = true → e.storage.externalCallFlag = false)
    (hw : locks k = false → answer.isSome → w.storage.externalCallFlag = e.storage.externalCallFlag) :
    Flagged e (resume k answer w) := by
  cases k with
  | deliverRefund => exact flagged_callback (he rfl)
  | deliverCallback => exact flagged_done (he rfl).symm
  | withdraw =>
      cases answer with
      | none => trivial
      | some _ => exact flagged_done (hw rfl rfl)
  | requestKilled | requestUnderpaid | cancelRefund =>
      cases answer with
      | none => trivial
      | some _ => exact flagged_done (he rfl).symm

theorem flag_sound {w₀ : World} (hw₀ : w₀.storage.externalCallFlag = false) :
    flagAssertions.Sound (code keccak) (fun _ => True) w₀ where
  refl := fun _ => rfl
  trans := fun h h' => h'.trans h
  initial := trivial
  start := fun _ _ _ h => flagged_start (h.imp id fun h => h.trans hw₀)
  resume := by
    intro k a e h w hheld hrel _
    simp only [flagAssertions] at hheld hrel
    refine flagged_resume (fun hk => ?_) (fun hk _ => ?_)
    · exact (if_pos hk ▸ hheld).1
    · rw [hk] at hheld
      exact hrel.trans hheld
  recover := by
    intro k e s hfailed
    refine flagged_resume hfailed nofun

/-- A call of `request`, `cancel` or `deliver` that waits for other code. -/
def Guarded (stack : List (Frame World Kont)) : Prop :=
  ∃ entry saved k, .code entry saved k ∈ stack ∧ locks k = true

theorem flag_iff {w₀ : World} {stack : List (Frame World Kont)}
    (hw₀ : w₀.storage.externalCallFlag = false) (h : flagAssertions.Stacked w₀ w stack) :
    w.storage.externalCallFlag = true ↔ Guarded stack := by
  induction stack generalizing w with
  | nil =>
      have hflag : w.storage.externalCallFlag = false := h.trans hw₀
      simp [hflag,Guarded]
  | cons f rest ih =>
      cases f with
      | other s =>
          obtain ⟨-,hrel,hrest⟩ := h
          have hflag : w.storage.externalCallFlag = s.storage.externalCallFlag := hrel
          rw [hflag,ih hrest]
          simp [Guarded]
      | code e s k =>
          obtain ⟨-,⟨x,hheld,hrel⟩,-,hrest⟩ := h
          simp only [flagAssertions] at hheld hrel
          cases hk : locks k with
          | true =>
              rw [if_pos hk] at hheld
              exact iff_of_true (hrel.trans hheld.2) ⟨e,s,k,List.mem_cons_self,hk⟩
          | false =>
              rw [hk] at hheld
              rw [hrel,hheld,ih hrest]
              constructor
              · rintro ⟨e',s',k',hmem,hk'⟩
                exact ⟨e',s',k',List.mem_cons_of_mem _ hmem,hk'⟩
              · rintro ⟨e',s',k',hmem,hk'⟩
                rcases List.mem_cons.mp hmem with heq | hmem
                · cases heq
                  rw [hk] at hk'
                  cases hk'
                · exact ⟨e',s',k',hmem,hk'⟩

/-- The flag is up, the records are those of `r`, and its transfers are still there. -/
structure Shut (r w : World) : Prop where
  flag : w.storage.externalCallFlag = true
  requests : w.storage.requests = r.storage.requests
  requestCnt : w.storage.requestCnt = r.storage.requestCnt
  unrespondedCnt : w.storage.unrespondedCnt = r.storage.unrespondedCnt
  sent : r.sent <+: w.sent

theorem shut_request (h : w.storage.externalCallFlag = true) (m : Msg) (requestType : UInt8)
    (callbackAddr : Address) (callbackFID : Bytes4) (timestamp : UInt256)
    (requestData : List Bytes32) :
    request keccak m requestType callbackAddr callbackFID timestamp requestData w = .revert :=
  if_pos h

theorem shut_cancel (h : w.storage.externalCallFlag = true) (m : Msg) (requestId : UInt64) :
    cancel m requestId w = .revert :=
  if_pos h

/-- Whatever is called while the flag is up, only `withdraw` can call out. -/
theorem kept_shut {r : World} {base : List (Frame World Kont)} (hbase : base ≠ []) :
    Kept (code keccak) (Shut r) (fun k => locks k = false) base where
  start := by
    intro c w hc h
    have hflag := h.flag
    have hsame : ∀ {w' : World}, w'.storage = w.storage → w.sent <+: w'.sent → Shut r w' := by
      intro w' hs hsent
      exact ⟨hs ▸ h.flag,hs ▸ h.requests,hs ▸ h.requestCnt,hs ▸ h.unrespondedCnt,
        h.sent.trans hsent⟩
    cases c with
    | forced value => exact hsame rfl List.prefix_rfl
    | message m f =>
        by_cases hf : isSetting f = true
        · obtain ⟨w',hw',heq⟩ := start_setting keccak w m hf
          change (start keccak (.message m f) w).All _ _
          rw [heq]
          exact all_nonPayable ⟨hw'.flag.trans hflag,hw'.requests.trans h.requests,
            hw'.requestCnt.trans h.requestCnt,hw'.unrespondedCnt.trans h.unrespondedCnt,
            hw'.sent ▸ h.sent⟩
        cases f with
        | fallback | upgrade | reset | suspend | restart => exact absurd rfl hf
        | withdraw =>
            refine all_nonPayable ?_
            unfold withdraw Account.callOut
            split_ifs
            · exact ⟨hsame rfl (List.prefix_append _ _),hsame rfl (List.prefix_append _ _),rfl⟩
            · trivial
            · exact h
        | request =>
            change (request keccak _ _ _ _ _ _ w).All _ _
            rw [shut_request hflag]
            trivial
        | cancel =>
            refine all_nonPayable ?_
            rw [shut_cancel hflag]
            trivial
        | deliver =>
            have hsender : m.sender ≠ SGX_ADDRESS := by
              simpa [code] using hc.resolve_left hbase
            refine all_nonPayable ?_
            unfold deliver
            rw [if_pos (.inl hsender)]
            exact h
  resume := by
    intro k a w hk h
    cases k with
    | withdraw =>
        cases a with
        | none => trivial
        | some _ => exact h
    | _ => cases hk

theorem outgoing_callback {m : Msg} {d : Delivery} {fee : UInt256} :
    Account.Outgoing (callback m d fee w) := by
  unfold callback
  split_ifs
  · trivial
  · exact Account.outgoing_callOut _ trivial

theorem outgoing_deliver {m : Msg} {requestId : UInt64} {paramsHash : Bytes32} {error : UInt64}
    {respData : Bytes32} : Account.Outgoing (deliver m requestId paramsHash error respData w) := by
  unfold deliver Account.transfer
  dsimp only
  split_ifs
  · trivial
  · trivial
  · trivial
  · trivial
  · exact outgoing_callback
  · trivial
  · exact Account.outgoing_callOut _ outgoing_callback

theorem outgoing_start (c : Call) : Account.Outgoing (start keccak c w) := by
  cases c with
  | forced value => trivial
  | message m f =>
      by_cases hf : isSetting f = true
      · obtain ⟨w',-,heq⟩ := start_setting keccak w m hf
        rw [heq]
        exact outgoing_nonPayable trivial
      cases f with
      | fallback | upgrade | reset | suspend | restart => exact absurd rfl hf
      | withdraw =>
          refine outgoing_nonPayable ?_
          unfold withdraw
          split_ifs
          · exact Account.outgoing_callOut _ trivial
          · trivial
      | request =>
          unfold start request
          dsimp only
          split_ifs
          · trivial
          · exact Account.outgoing_callOut _ trivial
          · exact Account.outgoing_callOut _ trivial
          · trivial
      | deliver => exact outgoing_nonPayable outgoing_deliver
      | cancel =>
          refine outgoing_nonPayable ?_
          unfold cancel
          dsimp only
          split_ifs
          · trivial
          · trivial
          · exact Account.outgoing_callOut _ trivial
          · trivial

theorem outgoing_resume (k : Kont) (answer : Option Unit) :
    Account.Outgoing (resume k answer w) := by
  cases k with
  | deliverRefund => exact outgoing_callback
  | deliverCallback => trivial
  | requestKilled | requestUnderpaid | withdraw | cancelRefund => cases answer <;> trivial

theorem outgoing_piece {s : Config World Kont} {a : Action Call Unit} {o : Result}
    (h : (code keccak).piece s a = some (w,o)) : Account.Outgoing o := by
  rcases Code.piece_cases h with ⟨c,-,-,-,rfl⟩ | ⟨-,-,k,-,answer,-,-,-,rfl⟩
  · exact outgoing_start c
  · exact outgoing_resume k answer

/-- A run without any restriction. -/
abbrev FreeRun (keccak : Bytes → Bytes32) (owner : Address) (balance : ℕ) :
    Config World Kont → Prop :=
  Reach (code keccak) (fun _ _ _ => True) (constructor owner balance)

variable {owner : Address} {balance : ℕ} {s : Config World Kont}

theorem free_flag (h : FreeRun keccak owner balance s) :
    s.world.storage.externalCallFlag = true ↔ Guarded s.stack :=
  flag_iff rfl ((flag_sound rfl).reach (fun _ _ _ _ => trivial) h).2

/-- The flag is up exactly while a call of `request`, `cancel` or `deliver` is
open. Until it returns, in whatever tree of calls, every nested `request` and
`cancel` reverts, and the records and counters stay those of the handover; they
are the same in the state to which a failure returns. -/
theorem reentrancy_locked (h : FreeRun keccak owner balance s) :
    (s.world.storage.externalCallFlag = true ↔ Guarded s.stack) ∧
    ∀ a s₁ w entry saved k rest, (code keccak).step s a = some s₁ →
      (code keccak).piece s a = some (w,.call saved s₁.world k) →
      s₁.stack = .code entry saved k::rest → locks k = true →
      saved.storage = s₁.world.storage ∧
      ∀ s₂, During (code keccak) (fun _ _ _ => True) s₁ s₂ →
        Shut s₁.world s₂.world ∧
        (∀ m requestType callbackAddr callbackFID timestamp requestData,
          start keccak (.message m
            (.request requestType callbackAddr callbackFID timestamp requestData)) s₂.world =
              .revert) ∧
        ∀ m requestId, start keccak (.message m (.cancel requestId)) s₂.world = .revert := by
  refine ⟨free_flag h,?_⟩
  intro a s₁ w entry saved k rest hs hp hstack hk
  have hflag : s₁.world.storage.externalCallFlag = true :=
    (free_flag (h.step a hs trivial)).mpr ⟨entry,saved,k,hstack ▸ List.mem_cons_self,hk⟩
  refine ⟨(outgoing_piece hp).storage,fun s₂ hduring => ?_⟩
  have hbase : s₁.stack ≠ [] := by
    rw [hstack]
    exact List.cons_ne_nil _ _
  have hkept : Kept (code keccak) (Shut s₁.world) (fun k => locks k = false) s₁.stack :=
    kept_shut hbase
  have hshut := hkept.during ⟨hflag,rfl,rfl,rfl,List.prefix_rfl⟩ hduring
  refine ⟨hshut.1,fun m _ _ _ _ _ => shut_request hshut.1.flag m _ _ _ _ _,fun m requestId => ?_⟩
  rw [start,shut_cancel hshut.1.flag,nonPayable]
  split_ifs <;> rfl

theorem requested_free : FreeRun (fun _ => 3) 5 0 requested :=
  .step (.call requestCall) .start rfl trivial

def suspendCall : Call := .message ⟨5,0,1,0,0⟩ .suspend

/-- While the refund of `cancelCall` is open, the owner suspends the contract. -/
def suspending : Config World Kont :=
  settle cancelling.world cancelling.stack (start (fun _ => 3) suspendCall cancelling.world)

theorem reentrancy_locked_suspending :
    Shut cancelling.world suspending.world ∧
      start (fun _ => 3) (.message ⟨7,0,1,0,0⟩ (.cancel 1)) suspending.world = .revert := by
  obtain ⟨-,hduring⟩ := (reentrancy_locked requested_free).2 (.call cancelCall) cancelling _ _ _ _ _
    rfl rfl rfl rfl
  obtain ⟨hshut,-,hcancel⟩ := hduring suspending (.step (.call suspendCall) .start rfl trivial fun _ => rfl)
  exact ⟨hshut,hcancel _ _⟩

end TownCrier.Contract
