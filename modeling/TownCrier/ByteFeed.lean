import TownCrier.TinyHttp
import Mathlib.Tactic.IntervalCases

/-!
# The parser, byte by byte

`http_data` reads as many bytes of the body at once as it can. It makes no
difference: what it does to a piece of data is what it does to the bytes of it,
one after the other, so that it does not matter where the response was cut.
-/
namespace TownCrier.TinyHttp
open BigEndian Automaton

def readByte (rt : Roundtripper) (ch : UInt8) : Option Roundtripper :=
  match rt.state with
  | .header => headerChar rt ch
  | .chunkHeader => chunkHeaderChar rt ch
  | .chunkData => some (chunkData rt [ch])
  | .rawData => some (rawData rt [ch])
  | .unknownData => some (appendBody rt [ch])
  | .close | .error => some rt

def parser : Machine Roundtripper UInt8 where
  step := readByte
  final := finished

/-- The lengths that are announced, also while they are read. -/
structure Sane (rt : Roundtripper) : Prop where
  row : rt.state = .chunkHeader → rt.parsestate ≤ 4
  data : rt.state = .chunkData → rt.parsestate = 3
  size : rt.state = .chunkHeader → 0 ≤ rt.contentlength
  left : rt.state = .chunkData ∨ rt.state = .rawData → 0 < rt.contentlength
  none : rt.state = .unknownData → rt.contentlength = -1

theorem int_eq_some {n m : ℤ} : int n = some m ↔ m = n ∧ -2^31 ≤ n ∧ n < 2^31 := by
  unfold int
  split_ifs with h
  · rw [Option.some_inj]
    exact ⟨fun heq => ⟨heq.symm,h⟩,fun heq => heq.1.symm⟩
  · exact ⟨nofun,fun heq => absurd heq.2 h⟩

theorem finished_iff {rt : Roundtripper} :
    finished rt = true ↔ rt.state = .error ∨ rt.state = .close := decide_eq_true_iff

theorem hexDigit_bounds (ch : UInt8) (h : isHex ch = true) : 0 ≤ hexDigit ch ∧ hexDigit ch < 16 := by
  have hall : ∀ n : Fin 256, isHex (UInt8.ofNat n) = true →
      0 ≤ hexDigit (UInt8.ofNat n) ∧ hexDigit (UInt8.ofNat n) < 16 := by decide +kernel
  have hch := hall ⟨ch.toNat,ch.toNat_lt⟩
  rw [UInt8.ofNat_toNat] at hch
  exact hch h

theorem pushHex_eq_some {size size' : ℤ} {ch : UInt8} (h : pushHex size ch = some size') :
    size' = size*16+hexDigit ch := by
  obtain ⟨n,hn,hsize⟩ := Option.bind_eq_some_iff.mp h
  rw [(int_eq_some.mp hsize).1,(int_eq_some.mp hn).1]

section Steps
variable {rt rt' : Roundtripper} {ch : UInt8} {data : Bytes}

theorem read_eq (h : finished rt = false) : parser.read rt ch = readByte rt ch :=
  Machine.read_step h

theorem Sane.of_state (hchunk : rt.state ≠ .chunkHeader) (hdata : rt.state ≠ .chunkData)
    (hraw : rt.state ≠ .rawData) (hunknown : rt.state ≠ .unknownData) : Sane rt :=
  ⟨fun h => absurd h hchunk,fun h => absurd h hdata,fun h => absurd h hchunk,
    fun h => (h.elim hdata hraw).elim,fun h => absurd h hunknown⟩

theorem Sane.init : Sane httpInit := .of_state nofun nofun nofun nofun

theorem sane_headerDone (rt : Roundtripper) : Sane (headerDone rt) := by
  unfold headerDone
  dsimp only
  split_ifs with hstate _ _ hpos hnone
  · exact .of_state nofun nofun nofun nofun
  · refine ⟨fun _ => ?_,nofun,fun _ => le_refl 0,fun h => ?_,nofun⟩
    · exact (not_not.mp hstate).trans_le (Nat.zero_le 4)
    · rcases h with h | h <;> cases h
  · exact .of_state nofun nofun nofun nofun
  · exact ⟨nofun,nofun,nofun,fun _ => hpos,nofun⟩
  · refine ⟨nofun,nofun,nofun,fun h => ?_,fun _ => hnone⟩
    rcases h with h | h <;> cases h
  · exact .of_state nofun nofun nofun nofun

theorem storeKeyvalue_frame (h : storeKeyvalue rt = some rt') :
    rt'.state = rt.state ∧ rt'.parsestate = rt.parsestate := by
  obtain ⟨rt₁,h₁,rfl⟩ := Option.map_eq_some_iff.mp h
  split_ifs at h₁
  · cases h₁
    exact ⟨rfl,rfl⟩
  · obtain ⟨n,_,rfl⟩ := Option.map_eq_some_iff.mp h₁
    exact ⟨rfl,rfl⟩
  · cases h₁
    exact ⟨rfl,rfl⟩

/-- A character of the header, unless it ends it, leaves the state. -/
theorem onHeaderStatus_frame {status : HeaderStatus} (hne : status ≠ .done)
    (h : onHeaderStatus rt ch status = some rt') :
    rt'.state = rt.state ∧ rt'.parsestate = rt.parsestate := by
  unfold onHeaderStatus at h
  cases status with
  | done => exact absurd rfl hne
  | goOn | versionCharacter | statusCharacter =>
      cases h
      exact ⟨rfl,rfl⟩
  | codeCharacter =>
      obtain ⟨n,_,rfl⟩ := Option.map_eq_some_iff.mp h
      exact ⟨rfl,rfl⟩
  | keyCharacter | valueCharacter =>
      obtain ⟨n,_,h⟩ := Option.bind_eq_some_iff.mp h
      obtain ⟨size,_,h⟩ := Option.bind_eq_some_iff.mp h
      cases h
      exact ⟨rfl,rfl⟩
  | storeKeyvalue => exact storeKeyvalue_frame h

theorem headerChar_cases (h : headerChar rt ch = some rt') :
    (∃ x, rt' = headerDone x) ∨ rt'.state = rt.state := by
  unfold headerChar at h
  generalize parseHeaderChar rt.parsestate ch = step at h
  obtain ⟨status,parsestate⟩ := step
  dsimp only at h
  by_cases hdone : status = .done
  · subst hdone
    cases h
    exact .inl ⟨_,rfl⟩
  · have hframe := onHeaderStatus_frame hdone h
    exact .inr hframe.1

/-- The columns of the table for sizes. -/
inductive Column (ch : UInt8) : ℕ → Prop
  | lf (h : ch = 10) (hex : isHex ch = false) : Column ch 1
  | cr (h : ch = 13) (hex : isHex ch = false) : Column ch 2
  | hex (h : isHex ch = true) (lf : ch ≠ 10) (cr : ch ≠ 13) : Column ch 3
  | other (h : isHex ch = false) (lf : ch ≠ 10) (cr : ch ≠ 13) : Column ch 0

theorem column_chunkCode (ch : UInt8) : Column ch (chunkCode ch) := by
  unfold chunkCode
  split_ifs with hlf hcr hhex
  · exact .lf hlf (hlf ▸ rfl)
  · exact .cr hcr (hcr ▸ rfl)
  · exact .hex hhex hlf hcr
  · exact .other (Bool.eq_false_iff.mpr hhex) hlf hcr

/-- A character which the table of sizes does not allow. -/
def malformed : Bool × ℕ × ℤ := (false,1,-1)

theorem parseChunked_first (size : ℤ) (ch : UInt8) : parseChunked 0 size ch =
    if isHex ch then (pushHex 0 ch).map (true,1,·) else some malformed := by
  unfold parseChunked
  have hcolumn := column_chunkCode ch
  generalize chunkCode ch = column at hcolumn ⊢
  cases hcolumn with
  | hex h => simp [h,httpChunkState]
  | lf _ h | cr _ h | other h => simp [h,httpChunkState,malformed]

theorem parseChunked_digit (size : ℤ) (ch : UInt8) : parseChunked 1 size ch =
    if isHex ch then (pushHex size ch).map (true,1,·)
    else some (if ch = 13 then (true,2,size) else malformed) := by
  unfold parseChunked
  have hcolumn := column_chunkCode ch
  generalize chunkCode ch = column at hcolumn ⊢
  cases hcolumn with
  | hex h => simp [h,httpChunkState]
  | lf h | cr h =>
      subst h
      rfl
  | other hex _ h => simp [h,hex,httpChunkState,malformed]

theorem parseChunked_sizeLf (size : ℤ) (ch : UInt8) : parseChunked 2 size ch =
    some (if ch = 10 then (decide (size = 0),3,size) else malformed) := by
  unfold parseChunked
  have hcolumn := column_chunkCode ch
  generalize chunkCode ch = column at hcolumn ⊢
  cases hcolumn with
  | hex _ h | lf h | cr h | other _ h => simp [h,httpChunkState,malformed]

theorem parseChunked_cr (size : ℤ) (ch : UInt8) : parseChunked 3 size ch =
    some (if ch = 13 then (true,4,size) else malformed) := by
  unfold parseChunked
  have hcolumn := column_chunkCode ch
  generalize chunkCode ch = column at hcolumn ⊢
  cases hcolumn with
  | hex _ _ h | lf h | cr h | other _ _ h => simp [h,httpChunkState,malformed]

theorem parseChunked_lf (size : ℤ) (ch : UInt8) : parseChunked 4 size ch =
    some (if ch = 10 then (decide (size ≠ 0),0,size) else malformed) := by
  unfold parseChunked
  have hcolumn := column_chunkCode ch
  generalize chunkCode ch = column at hcolumn ⊢
  cases hcolumn with
  | hex _ h | lf h | cr h | other _ h => simp [h,httpChunkState,malformed]

/-- What a character that is allowed does to a size, or to the line ends around it. -/
structure Sized (more : Bool) (state : ℕ) (size : ℤ) : Prop where
  row : state ≤ 4
  nonneg : 0 ≤ size
  complete : more = false → state = 3 ∨ size = 0

theorem parseChunked_sized {state state' : ℕ} {size size' : ℤ} {more : Bool} (hstate : state ≤ 4)
    (hsize : 0 ≤ size) (h : parseChunked state size ch = some (more,state',size')) :
    (more,state',size') = malformed ∨ Sized more state' size' := by
  have hpush : ∀ n, 0 ≤ n → isHex ch = true → (pushHex n ch).map (true,1,·) =
      some (more,state',size') → Sized more state' size' := by
    intro n hn hhex hn'
    obtain ⟨m,hm,heq⟩ := Option.map_eq_some_iff.mp hn'
    cases heq
    have hdigit := (hexDigit_bounds ch hhex).1
    refine ⟨by omega,?_,nofun⟩
    rw [pushHex_eq_some hm]
    omega
  interval_cases state
  · rw [parseChunked_first] at h
    split_ifs at h with hhex
    · exact .inr (hpush 0 le_rfl hhex h)
    · exact .inl (Option.some_inj.mp h).symm
  · rw [parseChunked_digit] at h
    split_ifs at h with hhex
    · exact .inr (hpush size hsize hhex h)
    · cases h
      exact .inr ⟨by omega,hsize,nofun⟩
    · exact .inl (Option.some_inj.mp h).symm
  · rw [parseChunked_sizeLf] at h
    split_ifs at h
    · cases h
      exact .inr ⟨by omega,hsize,fun _ => .inl rfl⟩
    · exact .inl (Option.some_inj.mp h).symm
  · rw [parseChunked_cr] at h
    split_ifs at h
    · cases h
      exact .inr ⟨by omega,hsize,nofun⟩
    · exact .inl (Option.some_inj.mp h).symm
  · rw [parseChunked_lf] at h
    split_ifs at h
    · cases h
      exact .inr ⟨by omega,hsize,fun h => .inr (not_not.mp (of_decide_eq_false h))⟩
    · exact .inl (Option.some_inj.mp h).symm

theorem sane_chunkHeaderChar (hsane : Sane rt) (hstate : rt.state = .chunkHeader)
    (h : chunkHeaderChar rt ch = some rt') : Sane rt' := by
  obtain ⟨⟨more,parsestate,size⟩,hparse,h⟩ := Option.bind_eq_some_iff.mp h
  have hsized := parseChunked_sized (hsane.row hstate) (hsane.size hstate) hparse
  rw [Option.some_inj] at h
  subst h
  split_ifs with hmore herror hzero
  · obtain hbad | hsized := hsized
    · subst hmore
      cases hbad
    · refine ⟨fun _ => hsized.row,fun h => ?_,fun _ => hsized.nonneg,fun h => ?_,fun h => ?_⟩
      · cases hstate.symm.trans h
      · rcases h with h | h <;> cases hstate.symm.trans h
      · cases hstate.symm.trans h
  · exact .of_state nofun nofun nofun nofun
  · exact .of_state nofun nofun nofun nofun
  · obtain hbad | hsized := hsized
    · cases hbad
      exact absurd rfl herror
    · have hrow := (hsized.complete (Bool.eq_false_iff.mpr hmore)).resolve_right hzero
      exact ⟨nofun,fun _ => hrow,nofun,fun _ => lt_of_le_of_ne hsized.nonneg (Ne.symm hzero),nofun⟩

theorem sane_chunkData {block : Bytes} (hsane : Sane rt) (hstate : rt.state = .chunkData)
    (hle : (block.length : ℤ) ≤ rt.contentlength) : Sane (chunkData rt block) := by
  unfold chunkData dataBlock
  dsimp only
  split_ifs with hzero
  · refine ⟨fun _ => ?_,nofun,fun _ => Int.one_nonneg,fun h => ?_,nofun⟩
    · exact (hsane.data hstate).trans_le (by omega)
    · rcases h with h | h <;> cases h
  · refine ⟨fun h => ?_,fun _ => hsane.data hstate,fun h => ?_,fun _ => ?_,fun h => ?_⟩
    · cases hstate.symm.trans h
    · cases hstate.symm.trans h
    · change 0 < rt.contentlength-block.length
      exact lt_of_le_of_ne (Int.sub_nonneg.mpr hle) (Ne.symm hzero)
    · cases hstate.symm.trans h

theorem sane_rawData {block : Bytes} (hstate : rt.state = .rawData)
    (hle : (block.length : ℤ) ≤ rt.contentlength) : Sane (rawData rt block) := by
  unfold rawData dataBlock
  dsimp only
  split_ifs with hzero
  · exact .of_state nofun nofun nofun nofun
  · refine ⟨fun h => ?_,fun h => ?_,fun h => ?_,fun _ => ?_,fun h => ?_⟩
    · cases hstate.symm.trans h
    · cases hstate.symm.trans h
    · cases hstate.symm.trans h
    · change 0 < rt.contentlength-block.length
      exact lt_of_le_of_ne (Int.sub_nonneg.mpr hle) (Ne.symm hzero)
    · cases hstate.symm.trans h

theorem Sane.step (hsane : Sane rt) (h : readByte rt ch = some rt') : Sane rt' := by
  unfold readByte at h
  cases hstate : rt.state with
  | header =>
      rw [hstate] at h
      obtain ⟨x,rfl⟩ | hkept := headerChar_cases h
      · exact sane_headerDone x
      · rw [hstate] at hkept
        refine .of_state ?_ ?_ ?_ ?_ <;> rw [hkept] <;> nofun
  | chunkHeader =>
      rw [hstate] at h
      exact sane_chunkHeaderChar hsane hstate h
  | chunkData =>
      rw [hstate] at h
      cases h
      exact sane_chunkData hsane hstate (hsane.left (.inl hstate))
  | rawData =>
      rw [hstate] at h
      cases h
      exact sane_rawData hstate (hsane.left (.inr hstate))
  | unknownData =>
      rw [hstate] at h
      cases h
      refine ⟨fun h => ?_,fun h => ?_,fun h => ?_,fun h => ?_,fun _ => hsane.none hstate⟩
      · cases hstate.symm.trans h
      · cases hstate.symm.trans h
      · cases hstate.symm.trans h
      · rcases h with h | h <;> cases hstate.symm.trans h
  | close | error =>
      rw [hstate] at h
      cases h
      exact hsane

theorem Sane.feed {x : Bytes} (hsane : Sane rt) (h : parser.feed rt x = some rt') : Sane rt' :=
  Machine.feed_keeps (fun _ _ _ hs _ hstep => hs.step hstep) hsane h

end Steps

section Blocks
variable {rt rt' : Roundtripper} {data : Bytes} {q : State}
  {atEnd : Roundtripper → Roundtripper}

theorem dataBlock_singleton {c : UInt8} (h : rt.contentlength ≠ 1) : dataBlock atEnd rt [c] =
    {appendBody rt [c] with contentlength := rt.contentlength-1} :=
  if_neg fun hzero => h (sub_eq_zero.mp hzero)

/-- Announced data is read byte by byte as it is in one block. -/
theorem feed_dataBlock (hfinal : ∀ rt, rt.state = q → finished rt = false)
    (hread : ∀ rt c, rt.state = q → readByte rt c = some (dataBlock atEnd rt [c]))
    (hstate : rt.state = q) (hne : data ≠ []) (hle : (data.length : ℤ) ≤ rt.contentlength) :
    parser.feed rt data = some (dataBlock atEnd rt data) := by
  induction data generalizing rt with
  | nil => exact absurd rfl hne
  | cons c data ih =>
      rw [Machine.feed_cons,read_eq (hfinal rt hstate),hread rt c hstate,Option.bind_some]
      cases data with
      | nil => rfl
      | cons d data =>
          simp only [List.length_cons,Nat.cast_add,Nat.cast_one] at hle
          rw [dataBlock_singleton (by omega)]
          refine (ih ?_ (List.cons_ne_nil d data) ?_).trans ?_
          · exact hstate
          · simp only [List.length_cons,Nat.cast_add,Nat.cast_one]
            omega
          · unfold dataBlock appendBody
            simp only [List.length_cons,Nat.cast_add,Nat.cast_one,List.append_assoc,
              List.singleton_append,Int.sub_sub,Int.add_comm 1]

theorem feed_chunkData (hstate : rt.state = .chunkData) (hne : data ≠ [])
    (hle : (data.length : ℤ) ≤ rt.contentlength) :
    parser.feed rt data = some (chunkData rt data) := by
  refine feed_dataBlock (q := .chunkData) ?_ ?_ hstate hne hle
  · intro rt h
    rw [finished,h]
    rfl
  · intro rt c h
    rw [readByte,h]
    rfl

theorem feed_rawData (hstate : rt.state = .rawData) (hne : data ≠ [])
    (hle : (data.length : ℤ) ≤ rt.contentlength) :
    parser.feed rt data = some (rawData rt data) := by
  refine feed_dataBlock (q := .rawData) ?_ ?_ hstate hne hle
  · intro rt h
    rw [finished,h]
    rfl
  · intro rt c h
    rw [readByte,h]
    rfl

theorem feed_unknownData (hstate : rt.state = .unknownData) :
    parser.feed rt data = some (appendBody rt data) := by
  induction data generalizing rt with
  | nil =>
      rw [Machine.feed_nil,appendBody,List.append_nil]
  | cons c data ih =>
      have hread : parser.read rt c = some (appendBody rt [c]) := by
        rw [read_eq (by rw [finished,hstate]; rfl),readByte,hstate]
      rw [Machine.feed_cons,hread,Option.bind_some]
      refine (ih ?_).trans ?_
      · exact hstate
      · simp only [appendBody,List.append_assoc,List.singleton_append]

/-- A pass of the loop reads some bytes, and does what they do one after the other. -/
inductive Passed (rt : Roundtripper) (data : Bytes) : Option (Roundtripper × Bytes) → Prop
  | stuck (h : parser.feed rt data = none) : Passed rt data none
  | read {rt' block rest} (hne : block ≠ []) (hdata : data = block++rest)
      (h : parser.feed rt block = some rt') : Passed rt data (some (rt',rest))

theorem passed_char {c : UInt8} {o : Option Roundtripper} (hread : parser.read rt c = o) :
    Passed rt (c::data) (o.map (·,data)) := by
  cases o with
  | none =>
      refine .stuck ?_
      rw [Machine.feed_cons,hread]
      rfl
  | some rt' =>
      refine .read (List.cons_ne_nil c []) rfl ?_
      rw [Machine.feed_cons,hread]
      rfl

theorem passed_pass (hsane : Sane rt) (hfinal : finished rt = false) (hne : data ≠ []) :
    Passed rt data (pass rt data) := by
  have hchunk : ∀ n : ℤ, 0 < n → data.take (min (data.length : ℤ) n).toNat ≠ [] ∧
      ((data.take (min (data.length : ℤ) n).toNat).length : ℤ) ≤ n := by
    intro n hn
    have hpos := List.length_pos_iff.mpr hne
    rw [List.length_take]
    refine ⟨fun h => ?_,by omega⟩
    rcases List.take_eq_nil_iff.mp h with h | h
    · omega
    · exact hne h
  obtain ⟨c,data',rfl⟩ := List.exists_cons_of_ne_nil hne
  unfold pass
  dsimp only
  cases hstate : rt.state with
  | header | chunkHeader =>
      refine passed_char ?_
      rw [read_eq hfinal,readByte,hstate]
  | chunkData =>
      obtain ⟨hne',hle⟩ := hchunk _ (hsane.left (.inl hstate))
      exact .read hne' (List.take_append_drop _ _).symm (feed_chunkData hstate hne' hle)
  | rawData =>
      obtain ⟨hne',hle⟩ := hchunk _ (hsane.left (.inr hstate))
      exact .read hne' (List.take_append_drop _ _).symm (feed_rawData hstate hne' hle)
  | unknownData =>
      exact .read hne (List.append_nil _).symm (feed_unknownData hstate)
  | close =>
      rw [finished,hstate] at hfinal
      cases hfinal
  | error =>
      rw [finished,hstate] at hfinal
      cases hfinal

/-- The passes over some data do what its bytes do, and leave none that is needed. -/
theorem passes_eq {n : ℕ} (hsane : Sane rt) (hfinal : finished rt = false)
    (hn : data.length ≤ n) : ∃ rest, (∀ rt', parser.feed rt data = some rt' →
        finished rt' = false → rest = []) ∧
      passes n rt data = (parser.feed rt data).map fun rt' => (rt',rest,!finished rt') := by
  induction n generalizing rt data with
  | zero =>
      obtain rfl := List.eq_nil_of_length_eq_zero (Nat.le_zero.mp hn)
      refine ⟨[],fun _ _ _ => rfl,?_⟩
      rw [passes,Machine.feed_nil,Option.map_some,hfinal]
      rfl
  | succ n ih =>
      cases data with
      | nil =>
          refine ⟨[],fun _ _ _ => rfl,?_⟩
          rw [passes,Machine.feed_nil,Option.map_some,hfinal]
          rfl
      | cons c data =>
          have hpassed := passed_pass hsane hfinal (List.cons_ne_nil c data)
          rw [passes]
          cases hpass : pass rt (c::data) with
          | none =>
              rw [hpass] at hpassed
              cases hpassed with
              | stuck h =>
                  rw [h]
                  exact ⟨[],nofun,rfl⟩
          | some r =>
              obtain ⟨rt₁,rest⟩ := r
              rw [hpass] at hpassed
              cases hpassed with
              | @read _ block _ hne hdata h =>
                  have hfeed : parser.feed rt (c::data) = parser.feed rt₁ rest := by
                    rw [hdata,Machine.feed_append,h,Option.bind_some]
                  rw [hfeed,Option.bind_eq_bind,Option.bind_some]
                  dsimp only
                  cases hfinished : finished rt₁ with
                  | true =>
                      rw [Machine.feed_final hfinished]
                      refine ⟨rest,fun rt' heq hmore => ?_,?_⟩
                      · cases heq
                        cases hfinished.symm.trans hmore
                      · rw [Option.map_some,hfinished]
                        rfl
                  | false =>
                      have hlength := congrArg List.length hdata
                      have hpos := List.length_pos_iff.mpr hne
                      rw [List.length_append] at hlength
                      exact ih (hsane.feed h) hfinished (by omega)

/-- `http_data` reads a piece of the response as it reads its bytes. -/
theorem httpData_eq (hsane : Sane rt) (hfinal : finished rt = false) : ∃ rest,
    (∀ rt', parser.feed rt data = some rt' → finished rt' = false → rest = []) ∧
      httpData rt data = (parser.feed rt data).map fun rt' => (rt',rest,!finished rt') :=
  passes_eq hsane hfinal le_rfl

end Blocks
end TownCrier.TinyHttp
