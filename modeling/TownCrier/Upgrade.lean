import TownCrier.Life

/-!
# After an upgrade

An upgrade turns the switch on and stores the negated address of the successor.
`restart` turns the switch off again only while no successor is stored, so the
contract stays retired until the owner names the address zero as a successor.
-/
namespace TownCrier.Contract
open BigEndian CallMachine Evm

def Event.successor? : Event → Option Address
  | .upgrade newAddr => some newAddr
  | _ => none

/-- The addresses of the upgrades that have taken effect, oldest first. -/
def successors (w : World) : List Address := w.logs.filterMap Event.successor?

/-- An upgrade to another contract has taken effect. -/
def Succeeded (w : World) : Prop := ∃ a ∈ successors w, a ≠ 0

/-- The switch is on, and the stored version is the latest successor. -/
structure Retired (w : World) (a : Address) : Prop where
  killswitch : w.storage.killswitch = true
  newVersion : w.storage.newVersion = -(a.toNat : ℤ)
  latest : (successors w).getLast? = some a
  nonzero : a ≠ 0

/-- The call does not replace a successor by the address zero. -/
def Loyal (w : World) : Call → Prop
  | .message m (.upgrade newAddr) =>
      m.value = 0 → isOwner m w → w.storage.unrespondedCnt = 0 → Succeeded w → newAddr ≠ 0
  | _ => True

/-- No upgrade took effect, and the switch stayed on if a successor is stored. -/
structure Steady (w w' : World) : Prop where
  named : successors w' = successors w
  newVersion : w'.storage.newVersion = w.storage.newVersion
  killswitch : w.storage.newVersion ≠ 0 → w.storage.killswitch = true →
    w'.storage.killswitch = true

/-- What a piece of code that starts with a call does to the successors. -/
inductive Succession (w : World) : Call → World → Prop
  | steady {c w'} (h : Steady w w') : Succession w c w'
  | upgraded {m newAddr w'} (hvalue : m.value = 0) (howner : isOwner m w)
      (hcnt : w.storage.unrespondedCnt = 0) (hkill : w'.storage.killswitch = true)
      (hversion : w'.storage.newVersion = -(newAddr.toNat : ℤ))
      (hsuccessors : successors w' = successors w++[newAddr]) (hinfos : infos w' = infos w) :
      Succession w (.message m (.upgrade newAddr)) w'

variable {keccak : Bytes → Bytes32} {w w' : World}

@[simp] theorem successors_set (s : Storage) : successors (w.set s) = successors w := rfl
@[simp] theorem successors_credit (v : UInt256) : successors (w.credit v) = successors w := rfl
@[simp] theorem successors_pay (r : Address) (v : UInt256) (p : Purpose) :
    successors (w.pay r v p) = successors w := rfl
@[simp] theorem successors_keep (r : Address) (v : UInt256) (p : Purpose) :
    successors (w.keep r v p) = successors w := rfl
@[simp] theorem successors_setFlag (b : Bool) : successors (setFlag w b) = successors w := rfl

@[simp] theorem successors_emit (e : Event) :
    successors (w.emit e) = successors w++(e.successor?).toList := by
  rw [successors,successors,Account.logs_emit,List.filterMap_append]
  cases h : e.successor? <;> simp [h]

theorem Steady.refl (w : World) : Steady w w := ⟨rfl,rfl,fun _ h => h⟩

theorem Steady.of_eq (hs : successors w' = successors w)
    (hv : w'.storage.newVersion = w.storage.newVersion)
    (hk : w'.storage.killswitch = w.storage.killswitch) : Steady w w' :=
  ⟨hs,hv,fun _ h => hk.trans h⟩

theorem steady_callback {a : World} (h : Steady w a) {m : Msg} {d : Delivery} {fee : UInt256} :
    (callback m d fee a).All (Steady w) fun _ => True := by
  have hsteady : ∀ {a' : World}, successors a' = successors a →
      a'.storage.newVersion = a.storage.newVersion →
      a'.storage.killswitch = a.storage.killswitch → Steady w a' := by
    intro a' hs hv hk
    exact ⟨hs.trans h.named,hv.trans h.newVersion,fun hne hkill => hk.trans (h.killswitch hne hkill)⟩
  unfold callback
  split_ifs
  · trivial
  · refine Account.all_callOut _ ?_ ?_ trivial ?_
    all_goals exact hsteady (by simp [Event.successor?]) rfl rfl

theorem steady_resume (k : Kont) (answer : Option Unit) :
    (resume k answer w).All (Steady w) fun _ => True := by
  cases k with
  | deliverRefund m d fee =>
      apply steady_callback
      exact .of_eq rfl rfl rfl
  | deliverCallback => exact .of_eq rfl rfl rfl
  | cancelRefund m requestId =>
      cases answer with
      | none => trivial
      | some _ => exact .of_eq (by simp [Event.successor?]) rfl rfl
  | requestKilled | requestUnderpaid | withdraw =>
      cases answer with
      | none => trivial
      | some _ => exact .of_eq rfl rfl rfl

theorem steady_deliver {m : Msg} {requestId : UInt64} {paramsHash : Bytes32} {error : UInt64}
    {respData : Bytes32} :
    (deliver m requestId paramsHash error respData w).All (Steady w) fun _ => True := by
  unfold deliver Account.transfer
  dsimp only
  split_ifs
  · exact .refl w
  · exact .refl w
  · exact .of_eq rfl rfl rfl
  · trivial
  · apply steady_callback
    exact .of_eq rfl rfl rfl
  · trivial
  · refine Account.all_callOut _ ?_ ?_ trivial ?_
    · exact .of_eq rfl rfl rfl
    · exact .of_eq rfl rfl rfl
    · apply steady_callback
      exact .of_eq rfl rfl rfl

theorem succession_setting {m : Msg} {f : Function} (hf : isSetting f = true) :
    (start keccak (.message m f) w).All (Succession w (.message m f)) fun _ => True := by
  cases f with
  | fallback => exact all_nonPayable (.steady (.refl w))
  | upgrade newAddr =>
      unfold start nonPayable upgrade
      dsimp only
      split_ifs with hvalue howner
      · exact .upgraded hvalue howner.1 howner.2 rfl rfl (by simp [Event.successor?])
          (by simp [Event.info?])
      · exact .steady (.refl w)
      · trivial
  | reset price minGas cancellationGas =>
      refine all_nonPayable ?_
      unfold reset
      split_ifs
      · exact .steady (.of_eq (by simp [Event.successor?]) rfl rfl)
      · exact .steady (.refl w)
  | suspend =>
      refine all_nonPayable ?_
      unfold suspend
      split_ifs
      · exact .steady ⟨rfl,rfl,fun _ _ => rfl⟩
      · exact .steady (.refl w)
  | restart =>
      refine all_nonPayable ?_
      unfold restart
      split_ifs with h
      · exact .steady ⟨rfl,rfl,fun hne => absurd h.2 hne⟩
      · exact .steady (.refl w)
  | withdraw => cases hf
  | request => cases hf
  | deliver => cases hf
  | cancel => cases hf

theorem succession_start (c : Call) :
    (start keccak c w).All (Succession w c) fun _ => True := by
  have hcall : ∀ {c : Call} {a : World} {r : Address} {v : UInt256} {p : Purpose} {k : Kont}
      {onFailure : World → Result}, Steady w a → (∀ w, onFailure w = .revert) →
      (a.callOut r v p k onFailure).All (Succession w c) fun _ => True := by
    intro c a r v p k onFailure h hrevert
    refine Account.all_callOut _ (.steady ?_) (.steady ?_) trivial ?_
    · exact ⟨h.named,h.newVersion,h.killswitch⟩
    · exact ⟨h.named,h.newVersion,h.killswitch⟩
    · rw [hrevert]
      trivial
  cases c with
  | forced value => exact .steady (.of_eq rfl rfl rfl)
  | message m f =>
      by_cases hf : isSetting f = true
      · exact succession_setting hf
      cases f with
      | fallback | upgrade | reset | suspend | restart => exact absurd rfl hf
      | withdraw =>
          refine all_nonPayable ?_
          unfold withdraw
          split_ifs
          · exact hcall (.refl w) fun _ => rfl
          · exact .steady (.refl w)
      | request =>
          unfold start request
          dsimp only
          split_ifs
          · trivial
          · exact hcall (.of_eq rfl rfl rfl) fun _ => rfl
          · exact hcall (.of_eq rfl rfl rfl) fun _ => rfl
          · exact .steady (.of_eq (by simp [record,Event.successor?]) rfl rfl)
      | deliver =>
          exact all_nonPayable (steady_deliver.mono (fun _ h => .steady h) fun _ h => h)
      | cancel =>
          refine all_nonPayable ?_
          unfold cancel
          dsimp only
          split_ifs
          · trivial
          · exact .steady (.refl w)
          · exact hcall (.of_eq rfl rfl rfl) fun _ => rfl
          · exact .steady (.of_eq (by simp [Event.successor?]) rfl rfl)

theorem Retired.succeeded {a : Address} (h : Retired w a) : Succeeded w :=
  ⟨a,List.mem_of_getLast? h.latest,h.nonzero⟩

theorem Retired.steady {a : Address} (hw : Retired w a) (h : Steady w w') : Retired w' a := by
  have hne : w.storage.newVersion ≠ 0 := by
    have hnat : a.toNat ≠ 0 := fun h0 => hw.nonzero (BitVec.eq_of_toNat_eq h0)
    rw [hw.newVersion]
    omega
  exact ⟨h.killswitch hne hw.killswitch,h.newVersion.trans hw.newVersion,
    (congrArg _ h.named).trans hw.latest,hw.nonzero⟩

/-- A successor that is not zero retires the contract. -/
def Sealed (w : World) : Prop := Succeeded w → ∃ a, Retired w a

theorem Sealed.steady (hw : Sealed w) (h : Steady w w') : Sealed w' := by
  rintro ⟨a,ha,hne⟩
  obtain ⟨b,hb⟩ := hw ⟨a,h.named ▸ ha,hne⟩
  exact ⟨b,hb.steady h⟩

theorem Sealed.succession {c : Call} (hw : Sealed w) (hc : Loyal w c) (h : Succession w c w') :
    Sealed w' := by
  cases h with
  | steady h => exact hw.steady h
  | @upgraded m newAddr _ hvalue howner hcnt hkill hversion hsuccessors _ =>
      intro hw'
      have hlast : (successors w').getLast? = some newAddr := by
        rw [hsuccessors,List.getLast?_concat]
      refine ⟨newAddr,hkill,hversion,hlast,?_⟩
      obtain ⟨a,ha,hne⟩ := hw'
      rw [hsuccessors,List.mem_append,List.mem_singleton] at ha
      rcases ha with ha | rfl
      · exact hc hvalue howner hcnt ⟨a,ha,hne⟩
      · exact hne

theorem Succession.succeeded {c : Call} (h : Succession w c w') (hw : Succeeded w) :
    Succeeded w' := by
  obtain ⟨a,ha,hne⟩ := hw
  refine ⟨a,?_,hne⟩
  cases h with
  | steady h => exact h.named ▸ ha
  | upgraded _ _ _ _ _ hsuccessors _ =>
      rw [hsuccessors]
      exact List.mem_append_left _ ha

/-- While the switch is on, no request is recorded. -/
theorem Effect.unrecorded {c : Call} (h : Effect keccak w c w')
    (hkill : w.storage.killswitch = true) : infos w' = infos w := by
  cases h with
  | same h => exact h.infos
  | recorded _ hk => cases hkill.symm.trans hk
  | cancelled _ _ _ _ _ h => exact h.infos
  | delivered _ h => exact h.infos

/-- A successor is named, and the accepted requests are those of `r`. -/
structure Ceased (r w : World) : Prop where
  succeeded : Succeeded w
  retired : ∃ a, Retired w a
  infos : infos w = infos r

theorem ceased_start {r : World} (hw : Ceased r w) {c : Call} (hc : Loyal w c) :
    (start keccak c w).All (Ceased r) fun _ => True := by
  have hsuccession : (start keccak c w).All (Succession w c) fun _ => True := succession_start c
  have heffect : (start keccak c w).All (Effect keccak w c) fun _ => True := effect_start c
  refine (hsuccession.and heffect).mono (fun w' h => ?_) fun _ h => h
  have hsucceeded := h.1.succeeded hw.succeeded
  obtain ⟨a,ha⟩ := hw.retired
  exact ⟨hsucceeded,Sealed.succession (fun _ => ⟨a,ha⟩) hc h.1 hsucceeded,
    (h.2.unrecorded ha.killswitch).trans hw.infos⟩

theorem ceased_resume {r : World} (hw : Ceased r w) (k : Kont) (answer : Option Unit) :
    (resume k answer w).All (Ceased r) fun _ => True := by
  refine ((steady_resume k answer).and (same_resume k answer)).mono (fun w' h => ?_) fun _ h => h
  obtain ⟨a,ha⟩ := hw.retired
  have hretired := ha.steady h.1
  exact ⟨hretired.succeeded,⟨a,hretired⟩,h.2.infos.trans hw.infos⟩

theorem kept_ceased {r : World} {base : List (Frame World Kont)} :
    Kept ((code keccak).restrict fun c w => Loyal w c) (Ceased r) (fun _ => True) base where
  start := by
    rintro c w - hw
    simp only [Code.restrict]
    split_ifs with hc
    · exact ceased_start hw hc
    · trivial
  resume := fun k a _ _ hw => ceased_resume hw k a

theorem kept_sealed {base : List (Frame World Kont)} :
    Kept ((code keccak).restrict fun c w => Loyal w c) Sealed (fun _ => True) base where
  start := by
    rintro c w - hw
    simp only [Code.restrict]
    split_ifs with hc
    · have hsuccession : (start keccak c w).All (Succession w c) fun _ => True :=
        succession_start c
      exact hsuccession.mono (fun w' h => hw.succession hc h) fun _ h => h
    · trivial
  resume := fun k a _ _ hw => (steady_resume k a).mono (fun _ h => hw.steady h) fun _ h => h

/-- Steps that leave a named successor in place or name another. -/
def Lasting (s : Config World Kont) (a : Action Call Unit) (_ : Config World Kont) : Prop :=
  ∀ c, a = .call c → Loyal s.world c

/-- What a request to a retired contract leads to. -/
structure Refused (keccak : Bytes → Bytes32) (s : Config World Kont) (m : Msg) (f : Function) :
    Prop where
  locked : s.world.storage.externalCallFlag = true →
    start keccak (.message m f) s.world = .revert
  handover : s.world.storage.externalCallFlag = false → ∃ saved,
    start keccak (.message m f) s.world = .call saved
      ((setFlag (s.world.credit m.value) true).pay m.sender m.value .killedRefund) .requestKilled
  returned : ∀ result w',
    Returns (code keccak) Lasting s.world s.stack (start keccak (.message m f) s.world) result w' →
      infos w' = infos s.world ∧
      s.world.sent++[⟨m.sender,m.value,.killedRefund,true⟩] <+: w'.sent ∧
      ∃ a, (successors w').getLast? = some a ∧ result = some (-(a.toNat : ℤ)) ∧
        -(a.toNat : ℤ) < 0

variable {owner : Address} {balance : ℕ} {s : Config World Kont}

theorem refused_request (hw : Ceased s.world s.world) (m : Msg) (requestType : UInt8)
    (callbackAddr : Address) (callbackFID : Bytes4) (timestamp : UInt256)
    (requestData : List Bytes32) :
    Refused keccak s m (.request requestType callbackAddr callbackFID timestamp requestData) := by
  obtain ⟨a,ha⟩ := hw.retired
  have hopen : s.world.storage.externalCallFlag = false →
      start keccak (.message m (.request requestType callbackAddr callbackFID timestamp
        requestData)) s.world = (setFlag (s.world.credit m.value) true).callOut m.sender m.value
          .killedRefund .requestKilled (afterKilled none) := by
    intro hflag
    unfold start request
    dsimp only
    rw [if_neg (by simp [hflag]),if_pos (by simp [ha.killswitch])]
  refine ⟨fun hflag => shut_request hflag _ _ _ _ _ _,fun hflag => ?_,fun result w' hret => ?_⟩
  · rw [hopen hflag]
    exact ⟨_,if_pos (Nat.le_add_left _ _)⟩
  cases hflag : s.world.storage.externalCallFlag with
  | true =>
      rw [start,shut_request hflag] at hret
      cases hret
  | false =>
      rw [hopen hflag] at hret
      obtain ⟨x,hduring,hret⟩ := returns_callOut hret (fun _ => rfl) fun _ => rfl
      cases hret
      have hshut : Shut ((setFlag (s.world.credit m.value) true).pay m.sender m.value
          .killedRefund) x :=
        ((kept_shut (List.cons_ne_nil _ _)).during ⟨rfl,rfl,rfl,rfl,List.prefix_rfl⟩ hduring).1
      have hpaid : Ceased s.world ((setFlag (s.world.credit m.value) true).pay m.sender m.value
          .killedRefund) :=
        ⟨hw.succeeded,⟨a,ha.steady (.of_eq rfl rfl rfl)⟩,rfl⟩
      have hloyal : During ((code keccak).restrict fun c w => Loyal w c) Lasting _ _ :=
        hduring.restrict fun _ c _ h => h c rfl
      have hceased := kept_ceased.during hpaid hloyal
      obtain ⟨b,hb⟩ := hceased.1.retired
      have hpos : b.toNat ≠ 0 := fun h0 => hb.nonzero (BitVec.eq_of_toNat_eq h0)
      refine ⟨hceased.1.infos,hshut.sent,b,hb.latest,?_,by omega⟩
      exact congrArg some hb.newVersion

/-- In a run in which no upgrade puts the address zero in place of a successor,
a named successor keeps the contract retired. No piece of code records a
request any more, nor does any later run, and a request gives the full value
back and returns the negated address of the latest upgrade. -/
theorem upgrade_irreversible (h : Reach (code keccak) Lasting (constructor owner balance) s) :
    (Succeeded s.world → s.world.storage.killswitch = true) ∧
    (∀ a w o, (code keccak).piece s a = some (w,o) → Lasting s a s → Succeeded w →
      o.All (fun w' => infos w' = infos w ∧ w'.storage.killswitch = true) fun _ => True) ∧
    (s.stack = [] → Succeeded s.world → ∀ s', Reach (code keccak) Lasting s.world s' →
      infos s'.world = infos s.world ∧ s'.world.storage.killswitch = true) ∧
    (Succeeded s.world → ∀ m requestType callbackAddr callbackFID timestamp requestData,
      Refused keccak s m
        (.request requestType callbackAddr callbackFID timestamp requestData)) := by
  have hsealed : Above Sealed (fun _ => True) [] s :=
    kept_sealed.reach (fun h => by
      obtain ⟨a,ha,-⟩ := h
      cases ha) (h.restrict fun _ _ _ h => h _ rfl)
  have hceased : Succeeded s.world → Ceased s.world s.world :=
    fun hs => ⟨hs,hsealed.1 hs,rfl⟩
  have hkill : ∀ {r w}, Ceased r w → infos w = infos r ∧ w.storage.killswitch = true := by
    intro r w hw
    obtain ⟨a,ha⟩ := hw.retired
    exact ⟨hw.infos,ha.killswitch⟩
  refine ⟨fun hs => (hkill (hceased hs)).2,?_,?_,fun hs => refused_request (hceased hs)⟩
  · intro a w o hp hlasting hs
    have hw : Ceased w w := ⟨hs,(hsealed.piece hp).1 hs,rfl⟩
    rcases Code.piece_cases hp with ⟨c,hc,-,rfl,rfl⟩ | ⟨-,-,k,-,answer,-,-,-,rfl⟩
    · exact (ceased_start hw (hlasting c hc)).mono (fun _ => hkill) fun _ h => h
    · exact (ceased_resume hw k answer).mono (fun _ => hkill) fun _ h => h
  · intro _ hs s' h'
    exact hkill (kept_ceased.reach (hceased hs) (h'.restrict fun _ _ _ h => h _ rfl)).1

/-- The owner upgrades to the contract nine, then to the address zero, and restarts. -/
def upgradeCall (newAddr : Address) : Call := .message ⟨5,0,1,0,0⟩ (.upgrade newAddr)

def restartCall : Call := .message ⟨5,0,1,0,0⟩ .restart

def upgraded : World := (constructor 5 0).set {(constructor 5 0).storage with
  newVersion := -9, killswitch := true} |>.emit (.upgrade 9)

def reopened : World := (upgraded.set {upgraded.storage with newVersion := 0}).emit (.upgrade 0)
  |>.set {upgraded.storage with newVersion := 0, killswitch := false}

theorem upgraded_reach : Reach (code fun _ => 3) Lasting (constructor 5 0) ⟨upgraded,[]⟩ := by
  refine .step (.call (upgradeCall 9)) .start rfl ?_
  rintro c ⟨⟩
  exact fun _ _ _ _ => by decide

theorem succeeded_upgraded : Succeeded upgraded := ⟨9,List.mem_singleton_self _,by decide⟩

theorem upgrade_irreversible_upgraded : upgraded.storage.killswitch = true :=
  (upgrade_irreversible upgraded_reach).1 succeeded_upgraded

theorem reopened_reach : Reach (code fun _ => 3) (fun _ _ _ => True) upgraded ⟨reopened,[]⟩ := by
  have h : Reach (code fun _ => 3) (fun _ _ _ => True) upgraded _ :=
    .step (.call (upgradeCall 0)) .start rfl trivial
  exact .step (.call restartCall) h rfl trivial

/-- The address zero as a successor lets the owner reopen the contract. -/
theorem upgrade_reversed : ∃ w s', FreeRun (fun _ => 3) 5 0 ⟨w,[]⟩ ∧ Succeeded w ∧
    Reach (code fun _ => 3) (fun _ _ _ => True) w s' ∧ s'.stack = [] ∧
    s'.world.storage.killswitch = false ∧ infos s'.world ≠ infos w := by
  refine ⟨upgraded,_,.step (.call (upgradeCall 9)) .start rfl trivial,succeeded_upgraded,
    .step (.call requestCall) reopened_reach rfl trivial,rfl,rfl,?_⟩
  exact List.cons_ne_nil _ _

end TownCrier.Contract
