import TownCrier.Delivery
import TownCrier.EventHandler

/-!
# Signed answers

A scraper gives a signed number, of which four bytes are kept and padded with
zeros. The contract that reads the word back as a signed number gets what the
scraper gave if that was not negative.
-/
namespace TownCrier.SignedAnswers
open BigEndian Cpp Encoding EventHandler FormTransaction Delivery

/-- The scraper for a type of request has returned `NO_ERROR` and this number. -/
inductive Scraped (w : World) (mem : Memory) (data : Bytes) : UInt64 → Int32 → Prop
  | bitcoinFee {t} (h : BitcoinFees.handle w.web mem.fees mem.result = .ok (.noError,t)) :
      Scraped w mem data TYPE_BITCOIN_FEE t
  | flight {t} (h : FlightScraper.handle w.web mem.delay data 0 = .ok (.noError,t)) :
      Scraped w mem data TYPE_FLIGHT_INS t
  | steam {t} (h : SteamScraper.handle w.web w.key data mem.result = .ok (.noError,t)) :
      Scraped w mem data TYPE_STEAM_EX t
  | stock {t} (h : YahooYqlStock.handle w.web data 0 = .ok (.noError,t)) :
      Scraped w mem data TYPE_FINANCE_INFO t
  | coin {t} (h : CoinMarket.handle w.web data mem.result = .ok (.noError,t)) :
      Scraped w mem data TYPE_COINMARKET t
  | weather {t} (h : WeatherScraper.handle w.web data mem.result = .ok (.noError,t)) :
      Scraped w mem data TYPE_WEATHER t
  | encryptedFlight {t}
      (h : FlightScraper.handleEncryptedQuery w.web w.key data 0 = .ok (.noError,t)) :
      Scraped w mem data TYPE_FLIGHT_INS_ENC t

/-- The low four bytes of a number. -/
def lowWord (t : Int32) : Bytes := fixed 32 ((widen t).toNat%2^32)

theorem lowWord_length (t : Int32) : (lowWord t).length = 32 := fixed_length _ _

theorem answer_scraped {w : World} {mem : Memory} {type : UInt64} {data : Bytes} {t : Int32}
    (h : Scraped w mem data type t) : answer w mem type data = .ok (0,lowWord t) := by
  cases h with
  | bitcoinFee h => exact (congrArg (conclude <$> ·) h).trans (congrArg _ (conclude_noError t))
  | flight h => exact (congrArg (conclude <$> ·) h).trans (congrArg _ (conclude_noError t))
  | steam h => exact (congrArg (conclude <$> ·) h).trans (congrArg _ (conclude_noError t))
  | stock h =>
      exact (congrArg (concludeFinance <$> ·) h).trans (congrArg _ (concludeFinance_noError t))
  | coin h => exact (congrArg (conclude <$> ·) h).trans (congrArg _ (conclude_noError t))
  | weather h => exact (congrArg (conclude <$> ·) h).trans (congrArg _ (conclude_noError t))
  | encryptedFlight h =>
      exact (congrArg (conclude <$> ·) h).trans (congrArg _ (conclude_noError t))

/-- The word is read as an `int` of 256 bits. -/
theorem toInt_lowWord (t : Int32) :
    (BitVec.ofNat 256 (value (lowWord t))).toInt = t.toInt%2^32 := by
  have hwide : ((widen t).toNat%2^32 : ℕ) < 2^32 := Nat.mod_lt _ (by decide)
  have hvalue : value (lowWord t) = (widen t).toNat%2^32 :=
    value_fixed_of_lt (hwide.trans (by decide))
  have hnat : (BitVec.ofNat 256 (value (lowWord t))).toNat = (widen t).toNat%2^32 := by
    rw [BitVec.toNat_ofNat,hvalue]
    exact Nat.mod_eq_of_lt (hwide.trans (by decide))
  rw [BitVec.toInt_eq_toNat_cond,hnat,if_pos (by omega),widen_toNat]
  omega

theorem toInt_lowWord_iff (t : Int32) :
    (BitVec.ofNat 256 (value (lowWord t))).toInt = t.toInt ↔ 0 ≤ t.toInt := by
  have hlow := t.le_toInt
  have hhigh := t.toInt_lt
  rw [toInt_lowWord]
  omega

theorem respB32_lowWord (heap : ℕ → UInt8) (t : Int32) :
    respB32 heap 0 (lowWord t) = pure (lowWord t) := by
  rw [respB32_long _ _ (lowWord_length t).ge,if_pos rfl,List.take_of_length_le (lowWord_length t).le]

theorem doHandleRequest_scraped (e : Enclave) {w : World} {mem : Memory} (nonce : Int32)
    (id : UInt64) {type : UInt64} {data : Bytes} {t : Int32} (h : Scraped w mem data type t) :
    doHandleRequest e w mem nonce id type data =
      formTransaction e mem.heap nonce id type.toUInt8 data 0 (lowWord t) true := by
  rw [doHandleRequest,answer_scraped h,bind_ok]

/-- The transaction for a scraped number carries it to the contract if and only
if it is not negative. -/
theorem answer_kept_iff (e : Enclave) {w : World} {mem : Memory} (nonce : Int32)
    (id : UInt64) {type : UInt64} {data raw : Bytes} {t : Int32} (h : Scraped w mem data type t)
    (hraw : doHandleRequest e w mem nonce id type data = .ok (some raw)) :
    ∃ items call respData, Rlp.parse raw = some (.list items) ∧ items[5]? = some (.str call) ∧
      decodeDeliver e.keccak call =
        some (.deliver id (e.keccak (type.toUInt8::data)) 0 respData) ∧
      (respData.toInt = t.toInt ↔ 0 ≤ t.toInt) := by
  rw [doHandleRequest_scraped e nonce id h] at hraw
  obtain ⟨items,call,hitems,hcall,hdeliver⟩ := formTransaction_decodes e (respB32_lowWord _ t) hraw
  exact ⟨items,call,_,hitems,hcall,hdeliver,toInt_lowWord_iff t⟩

/-- A weather service with a text for the temperature. -/
def weather (temp : String) : World where
  web := fun _ => .response ⟨200,ascii ("\x7b\"query\":\x7b\"results\":\x7b\"channel\":\x7b\"item\":"++
    "\x7b\"condition\":\x7b\"temp\":\""++temp++"\"\x7d\x7d\x7d\x7d\x7d\x7d")⟩
  key := ⟨true,false,fun _ => none⟩

def blank : Memory := ⟨0,0,0,fun _ => 0⟩

def city : Bytes := List.replicate 32 97

theorem weather_signed {temp : String} {t : Int32}
    (h : Scraped (weather temp) blank city TYPE_WEATHER t) :
    ∃ raw, doHandleRequest sampleEnclave (weather temp) blank 4 1 TYPE_WEATHER city =
      .ok (some raw) := by
  have hto : ∃ mTo, bytes20 (cstr sampleEnclave.contractAddress) = pure mTo :=
    ⟨⟨_,by decide⟩,rfl⟩
  obtain ⟨raw,hraw⟩ := formTransaction_signs sampleEnclave 4 1 TYPE_WEATHER.toUInt8 city
    (respB32_lowWord blank.heap t) hto (fun (_ : true = true) _ => rfl)
  exact ⟨raw,(doHandleRequest_scraped sampleEnclave 4 1 h).trans hraw⟩

theorem answer_kept_iff_weather : ∃ call respData,
    decodeDeliver sampleEnclave.keccak call = some (.deliver 1 3 0 respData) ∧
      (respData.toInt = 21 ↔ 0 ≤ (21 : Int32).toInt) := by
  have hscraped : Scraped (weather "21") blank city TYPE_WEATHER 21 := .weather rfl
  obtain ⟨raw,hraw⟩ := weather_signed hscraped
  obtain ⟨-,call,respData,-,-,hdeliver,hiff⟩ := answer_kept_iff sampleEnclave 4 1 hscraped hraw
  exact ⟨call,respData,hdeliver,hiff⟩

/-- Five degrees below zero arrive as 2^32-5. -/
theorem frost_lost : Scraped (weather "-5") blank city TYPE_WEATHER (-5) ∧
    ∃ raw items call respData, doHandleRequest sampleEnclave (weather "-5") blank 4 1 TYPE_WEATHER
      city = .ok (some raw) ∧ Rlp.parse raw = some (.list items) ∧ items[5]? = some (.str call) ∧
        decodeDeliver sampleEnclave.keccak call = some (.deliver 1 3 0 respData) ∧
          respData.toInt = 2^32-5 := by
  have hscraped : Scraped (weather "-5") blank city TYPE_WEATHER (-5) := .weather rfl
  obtain ⟨raw,hraw⟩ := weather_signed hscraped
  have hform := (doHandleRequest_scraped sampleEnclave 4 1 hscraped).symm.trans hraw
  obtain ⟨items,call,hitems,hcall,hdeliver⟩ :=
    formTransaction_decodes sampleEnclave (respB32_lowWord _ (-5)) hform
  exact ⟨hscraped,raw,items,call,_,hraw,hitems,hcall,hdeliver,toInt_lowWord (-5)⟩

end TownCrier.SignedAnswers
