import TownCrier.FormTransaction
import TownCrier.WebScrapers
import TownCrier.YahooYql

/-!
# The event handler of the enclave

`do_handle_request`: the ladder over the request types gives the error flag and
the response data, from which `form_transaction` makes the transaction. Variables
without an initial value and the heap behind a buffer are in `Memory`; the outer
`handle_request` turns every exception that is left into an internal error.
-/
namespace TownCrier.EventHandler
open BigEndian Cpp Encoding Https HybridCipher FormTransaction

def TYPE_FLIGHT_INS : UInt64 := 0x1
def TYPE_BITCOIN_FEE : UInt64 := 0x2
def TYPE_FINANCE_INFO : UInt64 := 0x3
def TYPE_UPS_TRACKING : UInt64 := 0x4
def TYPE_COINMARKET : UInt64 := 0x5
def TYPE_WEATHER : UInt64 := 0x6
def TYPE_WOLFRAM : UInt64 := 0x9
def TYPE_FLIGHT_INS_ENC : UInt64 := 0x10
def TYPE_STEAM_EX : UInt64 := 0x11

def TC_INPUT_ERROR : UInt64 := 1
def TC_INTERNAL_ERROR : UInt64 := 3
def TC_ERR_FLAG_INVALID_INPUT : UInt64 := 1
def TC_ERR_FLAG_INTERNAL_ERR : UInt64 := 2

/-- Memory whose content the program has not set. -/
structure Memory where
  /-- `fastestFee` of the local variable in `BitcoinFees::handle`. -/
  fees : Int32
  /-- `delay` of `FlightScraper::handle`. -/
  delay : Int32
  /-- `fastestFee`, `found`, `coin_value` or `temperature` of the handler. -/
  result : Int32
  heap : ℕ → UInt8

/-- What the enclave meets while it handles a request. -/
structure World where
  web : Web
  key : HybridKey

/-- The inner ladder that most types share; four bytes of the result are kept. -/
def conclude : ErrCode × Int32 → UInt64 × Bytes
  | (.unknownError,_) | (.webError,_) => (TC_INTERNAL_ERROR,[])
  | (.invalidParams,_) => (TC_INPUT_ERROR,[])
  | (.noError,n) => (0,(appendAsUint256 [] (widen n) 4).getD [])

/-- The ladder of the finance type names its own flags. -/
def concludeFinance : ErrCode × Int32 → UInt64 × Bytes
  | (.invalidParams,_) => (TC_ERR_FLAG_INVALID_INPUT,[])
  | (.webError,_) => (TC_INTERNAL_ERROR,[])
  | (.noError,n) => (0,(appendAsUint256 [] (widen n) 4).getD [])
  | (.unknownError,_) => (TC_ERR_FLAG_INTERNAL_ERR,[])

/-- The text of the answer becomes the response data, whatever its length. -/
def concludeWolfram : ErrCode × Bytes → UInt64 × Bytes
  | (.unknownError,_) | (.webError,_) => (TC_INTERNAL_ERROR,[])
  | (.invalidParams,_) => (TC_INPUT_ERROR,[])
  | (.noError,status) => (0,status)

/-- The error flag and the response data. -/
def answer (w : World) (mem : Memory) (type : UInt64) (data : Bytes) : Exec (UInt64 × Bytes) :=
  if type = TYPE_BITCOIN_FEE then conclude <$> BitcoinFees.handle w.web mem.fees mem.result
  else if type = TYPE_FLIGHT_INS then conclude <$> FlightScraper.handle w.web mem.delay data 0
  else if type = TYPE_STEAM_EX then conclude <$> SteamScraper.handle w.web w.key data mem.result
  else if type = TYPE_FINANCE_INFO then concludeFinance <$> YahooYqlStock.handle w.web data 0
  else if type = TYPE_UPS_TRACKING then pure (TC_ERR_FLAG_INTERNAL_ERR,[])
  else if type = TYPE_COINMARKET then conclude <$> CoinMarket.handle w.web data mem.result
  else if type = TYPE_WEATHER then conclude <$> WeatherScraper.handle w.web data mem.result
  else if type = TYPE_WOLFRAM then concludeWolfram <$> WolframScraper.handle w.web data []
  else if type = TYPE_FLIGHT_INS_ENC then
    conclude <$> FlightScraper.handleEncryptedQuery w.web w.key data 0
  else pure (TC_ERR_FLAG_INVALID_INPUT,[])

/-- `none` stands for `TC_INTERNAL_ERROR`. -/
def doHandleRequest (e : Enclave) (w : World) (mem : Memory) (nonce : Int32) (id type : UInt64)
    (data : Bytes) : Exec (Option Bytes) := do
  let (errorFlag,respData) ← answer w mem type data
  formTransaction e mem.heap nonce id type.toUInt8 data errorFlag respData true

def handleRequest (e : Enclave) (w : World) (mem : Memory) (nonce : Int32) (id type : UInt64)
    (data : Bytes) : Exec (Option Bytes) :=
  catchExn (doHandleRequest e w mem nonce id type data) fun _ => pure none

theorem append_widen (n : Int32) :
    (appendAsUint256 [] (widen n) 4).getD [] = fixed 32 ((widen n).toNat%2^32) := by
  rw [appendAsUint256_eq (show 4 ≤ 8 by norm_num)]
  rfl

theorem conclude_noError (n : Int32) :
    conclude (.noError,n) = (0,fixed 32 ((widen n).toNat%2^32)) := by
  rw [conclude,append_widen]

theorem concludeFinance_noError (n : Int32) :
    concludeFinance (.noError,n) = (0,fixed 32 ((widen n).toNat%2^32)) := by
  rw [concludeFinance,append_widen]

end TownCrier.EventHandler
