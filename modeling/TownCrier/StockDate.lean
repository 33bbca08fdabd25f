import TownCrier.Gregorian
import TownCrier.YahooYql
import Mathlib.Data.List.GetD

/-!
# The day of a stock query

`gmtime_tc` takes off years and months while it can. For a time that fits it
gives the Gregorian date, and for a negative one the year overflows. The word of
a request is cut to eight bytes and compared as a signed number, so some words
that lie far in the future pass.
-/
namespace TownCrier.Gmtime
open Cpp Gregorian

theorem leapYear_iff (year : ℕ) : leapYear year = true ↔ IsLeap year := by
  rw [leapYear,decide_eq_true_iff,IsLeap]
  by_cases h : year%100 = 0 <;> simp [h]

theorem yearSize_eq (year : ℕ) : yearSize year = yearDays year := by
  by_cases h : IsLeap year
  · rw [yearSize,if_pos ((leapYear_iff year).mpr h),yearDays,if_pos h]
  · rw [yearSize,if_neg (mt (leapYear_iff year).mp h),yearDays,if_neg h]

theorem yearSize_mem (year : ℕ) : 365 ≤ yearSize year ∧ yearSize year ≤ 366 := by
  unfold yearSize
  split_ifs <;> decide

/-- The days that are left lie in the year, and the day is the same. -/
theorem yearLoop_ok {fuel dayno year : ℕ} (hfuel : dayno < fuel) (hyear : 1 ≤ year)
    (hmax : year+dayno < 2^31) : ∃ d y, yearLoop fuel dayno year = .ok (d,y) ∧ 1 ≤ y ∧
      d < yearDays y ∧ daysBeforeYear y+d = daysBeforeYear year+dayno := by
  induction fuel generalizing dayno year with
  | zero => omega
  | succ fuel ih =>
      have hsize := yearSize_mem year
      rw [yearLoop]
      by_cases hturn : dayno ≥ yearSize year
      · have hnext := daysBeforeYear_succ hyear
        rw [← yearSize_eq] at hnext
        rw [if_pos hturn,if_pos (by omega)]
        obtain ⟨d,y,hloop,hy,hd,hday⟩ := @ih (dayno-yearSize year) (year+1) (by omega)
          (Nat.le_add_left _ _) (by omega)
        refine ⟨d,y,hloop,hy,hd,?_⟩
        omega
      · rw [if_neg hturn]
        rw [yearSize_eq] at hturn
        exact ⟨dayno,year,rfl,hyear,Nat.lt_of_not_le hturn,rfl⟩

/-- More days than the years up to the largest `int` can hold. -/
theorem yearLoop_undefined {fuel dayno year : ℕ} (hyear : year < 2^31)
    (hfuel : 2^31 ≤ fuel+year) (hdays : 366*(2^31-year) ≤ dayno) :
    yearLoop fuel dayno year = undefined := by
  induction fuel generalizing dayno year with
  | zero => omega
  | succ fuel ih =>
      have hsize := yearSize_mem year
      rw [yearLoop,if_pos (show dayno ≥ yearSize year by omega)]
      by_cases hmax : year+1 < 2^31
      · rw [if_pos hmax]
        exact ih hmax (by omega) (by omega)
      · rw [if_neg hmax]

theorem monthLoop_ok {sizes : List ℕ} {dayno month : ℕ} (h : dayno < sizes.sum) :
    ∃ k d, monthLoop sizes dayno month = .ok (d,month+k) ∧ k < sizes.length ∧
      d < sizes.getD k 0 ∧ (sizes.take k).sum+d = dayno := by
  induction sizes generalizing dayno month with
  | nil => cases h
  | cons size rest ih =>
      rw [monthLoop]
      by_cases hturn : dayno ≥ size
      · rw [List.sum_cons] at h
        rw [if_pos hturn]
        obtain ⟨k,d,hloop,hk,hd,hday⟩ := @ih (dayno-size) (month+1) (by omega)
        refine ⟨k+1,d,?_,Nat.succ_lt_succ hk,hd,?_⟩
        · rw [hloop,Nat.add_assoc,Nat.add_comm 1 k]
        · rw [List.take_succ_cons,List.sum_cons]
          omega
      · rw [if_neg hturn]
        exact ⟨0,dayno,rfl,Nat.succ_pos _,Nat.lt_of_not_le hturn,Nat.zero_add _⟩

theorem ytab_eq (year : ℕ) : ytab year = (List.range 12).map fun i => monthDays year (i+1) := by
  by_cases h : IsLeap year
  · simp [ytab,(leapYear_iff year).mpr h,List.range_succ,monthDays,h]
  · simp [ytab,mt (leapYear_iff year).mp h,List.range_succ,monthDays,h]

/-- The date that the three numbers of the program name. -/
def Date.IsDay (date : Date) (day : ℕ) : Prop :=
  ∃ d : Gregorian.Date, d.year = date.year ∧ d.month = date.month ∧ d.day = date.day ∧
    d.dayNumber = day

theorem Date.IsDay.unique {date : Date} {day day' : ℕ} (h : date.IsDay day)
    (h' : date.IsDay day') : day = day' := by
  obtain ⟨⟨y,m,d,hy,hm,hd⟩,rfl,rfl,rfl,rfl⟩ := h
  obtain ⟨⟨y',m',d',hy',hm',hd'⟩,rfl,rfl,rfl,rfl⟩ := h'
  rfl

theorem gmtimeTc_ok {timer : Int64} (h : EPOCH_YR+timer.toUInt64.toNat/SECS_DAY < 2^31) :
    ∃ date, gmtimeTc timer = .ok date ∧ date.IsDay (EPOCH+timer.toUInt64.toNat/SECS_DAY) := by
  obtain ⟨d,y,hyear,hy,hd,hday⟩ := yearLoop_ok (Nat.lt_succ_self _) (by decide) h
  have hsum : d < (ytab y).sum := by
    rw [ytab_eq]
    exact hd.trans_eq (daysBeforeMonth_end y).symm
  obtain ⟨k,d',hmonth,hk,hd',hday'⟩ := @monthLoop_ok (ytab y) d 0 hsum
  have hk : k < 12 := hk
  have hsize : (ytab y).getD k 0 = monthDays y (k+1) := by
    rw [ytab_eq,List.getD_eq_getElem _ _ (by simpa using hk),List.getElem_map,List.getElem_range]
  have htake : ((ytab y).take k).sum = daysBeforeMonth y (k+1) := by
    rw [ytab_eq,← List.map_take,List.take_range,Nat.min_eq_left hk.le]
    rfl
  refine ⟨⟨y,k+1,d'+1⟩,?_,⟨y,k+1,d'+1,hy,⟨?_,?_⟩,⟨?_,?_⟩⟩,rfl,rfl,rfl,?_⟩
  · simp [gmtimeTc,hyear,hmonth,pure_eq_ok]
  · omega
  · omega
  · omega
  · rw [← hsize]
    exact hd'
  · have hepoch : daysBeforeYear EPOCH_YR = EPOCH := rfl
    change daysBeforeYear y+daysBeforeMonth y (k+1)+(d'+1-1) = _
    rw [← htake]
    omega

theorem gmtimeTc_undefined {timer : Int64} (h : 366*2^31 ≤ timer.toUInt64.toNat/SECS_DAY) :
    gmtimeTc timer = undefined := by
  have hepoch : EPOCH_YR = 1970 := rfl
  have hloop := @yearLoop_undefined (timer.toUInt64.toNat/SECS_DAY+1)
    (timer.toUInt64.toNat/SECS_DAY) EPOCH_YR (by decide) (by omega) (by omega)
  simp [gmtimeTc,hloop]

end TownCrier.Gmtime

namespace TownCrier.YahooYqlStock
open BigEndian Cpp Encoding YahooYql Gmtime

/-- 2100-01-01 -/
def LIMIT : ℕ := 0xF4865700

/-- 2018-01-01: `handle_one` takes no later year than 2017. -/
def YEAR_2018 : ℕ := 1514764800

/-- The second half of the request, as the number it stands for. -/
def word (req : Bytes) : ℕ := value (req.drop 0x20)

/-- The check that `handle` makes of the time. -/
def Rejected (req : Bytes) : Prop := unixEpoch req > 0xF4865700

/-- `INVALID_PARAMS` comes back, and nobody was asked. -/
def TurnedDown (req : Bytes) : Prop := ∀ web r, handle web req r = .ok (.invalidParams,r)

/-- What the query for a word is meant to be: its day up to the limit and wherever
`handle` does not reject it, and no query for a day after 2099. -/
def Dated (req : Bytes) : Prop :=
  (word req ≤ LIMIT ∨ ¬TurnedDown req → ∃ date, gmtimeTc (unixEpoch req) = .ok date ∧
    date.IsDay (Gregorian.EPOCH+word req/SECS_DAY) ∧
      ∀ web r, handle web req r = handleOne web (symbol req) date r) ∧
  (LIMIT < word req → TurnedDown req)

theorem unixEpoch_toNat {req : Bytes} (h : req.length = 64) :
    (unixEpoch req).toUInt64.toNat = word req%2^64 := by
  have hlen : (req.drop 0x20).length = 32 := by rw [List.length_drop,h]
  have hlow : ((req.drop 0x20).drop 24).length = 8 := by rw [List.length_drop,hlen]
  have hcut : (uintBytes (req.drop 0x20) 32).toNat = value ((req.drop 0x20).drop 24) := by
    rw [uintBytes_toNat (by decide) hlen.ge,List.take_of_length_le hlow.le]
  change (uintBytes (req.drop 0x20) 32).toNat = _
  rw [hcut,value_drop,hlen,word]
  norm_num

theorem toInt_eq (x : Int64) : x.toInt =
    if x.toUInt64.toNat < 2^63 then (x.toUInt64.toNat : ℤ) else x.toUInt64.toNat-2^64 := by
  have h := BitVec.toInt_eq_toNat_cond x.toBitVec
  change x.toBitVec.toInt = if x.toBitVec.toNat < 2^63 then (x.toBitVec.toNat : ℤ)
    else x.toBitVec.toNat-2^64
  rw [h]
  split_ifs <;> omega

theorem rejected_iff {req : Bytes} (h : req.length = 64) :
    Rejected req ↔ LIMIT < word req%2^64 ∧ word req%2^64 < 2^63 := by
  have hlimit : (0xF4865700 : Int64).toInt = LIMIT := rfl
  have hlow : (LIMIT : ℤ) = 0xF4865700 := rfl
  have hint := toInt_eq (unixEpoch req)
  rw [unixEpoch_toNat h] at hint
  change (0xF4865700 : Int64) < unixEpoch req ↔ _
  rw [Int64.lt_iff_toInt_lt,hlimit,hint]
  split_ifs with hsmall <;> omega

theorem handle_rejected {req : Bytes} (hlen : req.length = 64) (h : Rejected req) (web : Https.Web)
    (r : Int32) : handle web req r = .ok (.invalidParams,r) := by
  unfold handle
  rw [if_neg (by simpa using hlen)]
  exact if_pos h

theorem handle_bind {req : Bytes} (hlen : req.length = 64) (h : ¬Rejected req) (web : Https.Web)
    (r : Int32) : handle web req r = gmtimeTc (unixEpoch req) >>= fun date => handleOne web (symbol req) date r := by
  unfold handle
  rw [if_neg (by simpa using hlen)]
  exact if_neg h

theorem handle_dated {req : Bytes} (hlen : req.length = 64) (h : ¬Rejected req) {date : Date}
    (hdate : gmtimeTc (unixEpoch req) = .ok date) (web : Https.Web) (r : Int32) :
    handle web req r = handleOne web (symbol req) date r := by
  rw [handle_bind hlen h,hdate,bind_ok]

/-- With a date, a request is turned down exactly where `handle_one` refuses the date. -/
theorem turnedDown_iff_refused {req : Bytes} (hlen : req.length = 64) (h : ¬Rejected req)
    {date : Date} (hdate : gmtimeTc (unixEpoch req) = .ok date) :
    TurnedDown req ↔ refused (symbol req) date := by
  have hhandle := handle_dated hlen h hdate
  constructor
  · intro hdown
    by_contra hrefused
    -- With no connection the query fails by an exception.
    have hraise := hdown (fun _ => .noClient .runtimeError) 0
    rw [hhandle,handleOne,if_neg hrefused,execute_eq _ (yql_ne_nil _ _)] at hraise
    cases hraise
  · intro hrefused web r
    rw [hhandle,handleOne,if_pos hrefused]
    rfl

/-- The years of a date: days of them up to 2017, and after that. -/
theorem year_iff {date : Date} {day : ℕ} (h : date.IsDay day) :
    date.year > 2017 ↔ Gregorian.daysBeforeYear 2018 ≤ day := by
  obtain ⟨d,hyear,-,-,rfl⟩ := h
  rw [← hyear]
  constructor
  · intro hlate
    exact (Gregorian.daysBeforeYear_mono (by decide) hlate).trans d.daysBeforeYear_le
  · intro hday
    by_contra hearly
    have hnext := Gregorian.daysBeforeYear_mono (Nat.le_add_left 1 d.year)
      (Nat.succ_le_succ (Nat.le_of_not_lt hearly))
    exact absurd (d.before_next_year.trans_le hnext) (Nat.not_lt.mpr hday)

/-- Of a real date only a late year is refused. -/
theorem refused_iff {date : Date} {day : ℕ} (h : date.IsDay day) (symbol : Bytes) :
    refused symbol date ↔ symbol = [] ∨ Gregorian.daysBeforeYear 2018 ≤ day := by
  have hyear := year_iff h
  obtain ⟨d,-,hmonth,hday,-⟩ := h
  have hshort := Gregorian.monthDays_le d.year d.month
  have hin := d.day_mem.2
  have hlast := d.month_mem.2
  rw [refused,hyear]
  have hnever : ¬date.day > 31 ∧ ¬date.month > 12 := by omega
  simp [hnever.1,hnever.2]

theorem date_of_low {req : Bytes} (hlen : req.length = 64) (hlow : word req%2^64 ≤ LIMIT) :
    ¬Rejected req ∧ ∃ date, gmtimeTc (unixEpoch req) = .ok date ∧
      date.IsDay (Gregorian.EPOCH+word req%2^64/SECS_DAY) := by
  have hlimit : LIMIT = 0xF4865700 := rfl
  have hfit : EPOCH_YR+(unixEpoch req).toUInt64.toNat/SECS_DAY < 2^31 := by
    rw [unixEpoch_toNat hlen,show EPOCH_YR = 1970 from rfl,show SECS_DAY = 86400 from rfl]
    omega
  obtain ⟨date,hdate,hday⟩ := gmtimeTc_ok hfit
  rw [unixEpoch_toNat hlen] at hday
  exact ⟨fun h => absurd ((rejected_iff hlen).mp h).1 (Nat.not_lt.mpr hlow),date,hdate,hday⟩

/-- A negative time passes the check, and the year overflows. -/
theorem undefined_of_high {req : Bytes} (hlen : req.length = 64) (hhigh : 2^63 ≤ word req%2^64) :
    ¬TurnedDown req ∧ gmtimeTc (unixEpoch req) = undefined := by
  have hpass : ¬Rejected req := fun h =>
    absurd ((rejected_iff hlen).mp h).2 (Nat.not_lt.mpr hhigh)
  have hyears : 366*2^31 ≤ (unixEpoch req).toUInt64.toNat/SECS_DAY := by
    rw [unixEpoch_toNat hlen,show SECS_DAY = 86400 from rfl]
    omega
  have hundefined := gmtimeTc_undefined hyears
  refine ⟨fun hdown => ?_,hundefined⟩
  have hhandle := hdown (fun _ => .noClient .runtimeError) 0
  rw [handle_bind hlen hpass,hundefined] at hhandle
  cases hhandle

/-- What is turned down is told by the low eight bytes and the symbol. -/
theorem turnedDown_iff {req : Bytes} (hlen : req.length = 64) :
    TurnedDown req ↔ word req%2^64 < 2^63 ∧ (symbol req = [] ∨ YEAR_2018 ≤ word req%2^64) := by
  have hlimit : LIMIT = 0xF4865700 := rfl
  have hyear : YEAR_2018 = 1514764800 := rfl
  by_cases hhigh : 2^63 ≤ word req%2^64
  · exact iff_of_false (undefined_of_high hlen hhigh).1 fun h => absurd h.1 (Nat.not_lt.mpr hhigh)
  by_cases hlow : word req%2^64 ≤ LIMIT
  · obtain ⟨hpass,date,hdate,hday⟩ := date_of_low hlen hlow
    have hdays : Gregorian.daysBeforeYear 2018 ≤ Gregorian.EPOCH+word req%2^64/SECS_DAY ↔
        YEAR_2018 ≤ word req%2^64 := by
      have hbefore : Gregorian.daysBeforeYear 2018 = Gregorian.EPOCH+17532 := rfl
      rw [hbefore,show SECS_DAY = 86400 from rfl]
      omega
    rw [turnedDown_iff_refused hlen hpass hdate,refused_iff hday,hdays]
    exact (and_iff_right (Nat.lt_of_not_le hhigh)).symm
  · have hrejected : Rejected req := (rejected_iff hlen).mpr (by omega)
    exact iff_of_true (handle_rejected hlen hrejected)
      ⟨Nat.lt_of_not_le hhigh,.inr (by omega)⟩

/-- The date is right, and the far future rejected, for exactly the words up to
the limit and for the requests that are turned down. -/
theorem dated_iff {req : Bytes} (hlen : req.length = 64) :
    Dated req ↔ word req ≤ LIMIT ∨
      word req%2^64 < 2^63 ∧ (symbol req = [] ∨ YEAR_2018 ≤ word req%2^64) := by
  rw [← turnedDown_iff hlen]
  refine ⟨fun h => ?_,fun h => ⟨fun hasked => ?_,fun hword => ?_⟩⟩
  · by_contra hne
    obtain ⟨hword,hpass⟩ := not_or.mp hne
    exact hpass (h.2 (Nat.lt_of_not_le hword))
  · have hle : word req ≤ LIMIT := hasked.elim id h.resolve_right
    have hlow : word req%2^64 = word req :=
      Nat.mod_eq_of_lt (hle.trans_lt (by decide))
    obtain ⟨hpass,date,hdate,hday⟩ := date_of_low hlen (hlow.trans_le hle)
    rw [hlow] at hday
    exact ⟨date,hdate,hday,handle_dated hlen hpass hdate⟩
  · exact h.resolve_left (Nat.not_le_of_lt hword)

/-- A request for a name and a time. -/
def query (time : ℕ) : Bytes := List.replicate 32 65++fixed 32 time

theorem query_length (time : ℕ) : (query time).length = 64 := by
  simp [query]

/-- 2017-07-14 -/
theorem dated_query : Dated (query 1500000000) :=
  (dated_iff (query_length _)).mpr (.inl (by decide))

/-- The same time with a bit set among the high bytes asks for 2017, and a time with
the sign bit overflows the year. -/
theorem far_word_undated : ¬Dated (query (2^64+1500000000)) ∧ ¬Dated (query (2^63)) := by
  rw [dated_iff (query_length _),dated_iff (query_length _)]
  decide

end TownCrier.YahooYqlStock
