import TownCrier.Automaton
import TownCrier.Cpp

/-!
# The parser of HTTP responses

`tinyhttp`, which the enclave compiles into its client: `header.c`, `chunk.c`
and `http.c`. Two tables tell what each character does, and `http_data` hands
the body over in blocks. The buffer for a header line is what has been written
into it; that more memory is always there is what `http.h` demands. An overflow
of an `int` is undefined behaviour, for which the functions have no result.
-/
namespace TownCrier.TinyHttp
open BigEndian Cpp Automaton

def int (n : ℤ) : Option ℤ := if -2^31 ≤ n ∧ n < 2^31 then some n else none

/-- A `char` is signed. -/
def char (c : UInt8) : ℤ := c.toInt8.toInt

/-- `n*10 + c - '0'` -/
def pushDecimal (n : ℤ) (c : UInt8) : Option ℤ := do
  let n ← int (n*10)
  let n ← int (n+char c)
  int (n-48)

def tolower (c : UInt8) : UInt8 := if 65 ≤ c ∧ c ≤ 90 then c+32 else c

inductive HeaderStatus where
  | done | goOn | versionCharacter | codeCharacter | statusCharacter | keyCharacter
  | valueCharacter | storeKeyvalue
  deriving DecidableEq

def httpHeaderState : List UInt8 :=
  [0x80, 1,    0xC1, 0xC1, 1,    0x80, 0x80, 0xC1,
   0x81, 2,    0xC1, 0xC1, 2,    1,    1,    0xC1,
   0x82, 0x82, 4,    3,    0x82, 0x82, 0x82, 0xC1,
   0xC1, 0xC1, 4,    0xC1, 0xC1, 0xC1, 0xC1, 0xC1,
   0x84, 0xC1, 0xC0, 5,    0xC1, 0xC1, 6,    0xC1,
   0xC1, 0xC1, 0xC0, 0xC1, 0xC1, 0xC1, 0xC1, 0xC1,
   0x87, 6,    0xC1, 0x87, 6,    0x87, 0x87, 0xC1,
   0x87, 0x87, 0xC4, 10,   0x87, 0x88, 0x87, 0xC1,
   0x87, 0x88, 6,    9,    0x88, 0x88, 0x87, 0xC1,
   0xC1, 0xC1, 6,    0xC1, 0xC1, 0xC1, 0xC1, 0xC1,
   0xC1, 0xC1, 0xC4, 0xC1, 0xC1, 0xC1, 0xC1, 0xC1]

def headerStatus (newstate : UInt8) : HeaderStatus :=
  if newstate = 0xC0 then .done
  else if newstate = 0xC1 then .done
  else if newstate = 0xC4 then .storeKeyvalue
  else if newstate = 0x80 then .versionCharacter
  else if newstate = 0x81 then .codeCharacter
  else if newstate = 0x82 then .statusCharacter
  else if newstate = 0x84 then .keyCharacter
  else if newstate = 0x87 then .valueCharacter
  else if newstate = 0x88 then .valueCharacter
  else .goOn

/-- The column of a character: tab, LF, CR, space, comma, colon and the others. -/
def headerCode (ch : UInt8) : ℕ :=
  if ch = 9 then 1 else if ch = 10 then 2 else if ch = 13 then 3 else if ch = 32 then 4
  else if ch = 44 then 5 else if ch = 58 then 6 else 0

/-- The table has a row for each state that is reached. -/
def parseHeaderChar (state : ℕ) (ch : UInt8) : HeaderStatus × ℕ :=
  let newstate := httpHeaderState.getD (state*8+headerCode ch) 0xC1
  (headerStatus newstate,(newstate &&& 0xF).toNat)

def isHex (ch : UInt8) : Bool :=
  48 ≤ ch ∧ ch ≤ 57 ∨ 97 ≤ ch ∧ ch ≤ 102 ∨ 65 ≤ ch ∧ ch ≤ 70

def httpChunkState : List UInt8 :=
  [0xC1, 0xC1, 0xC1, 1,
   0xC1, 0xC1, 2,    0x81,
   0xC1, 0x83, 0xC1, 0xC1,
   0xC1, 0xC1, 4,    0xC1,
   0xC1, 0xC0, 0xC1, 0xC1]

def chunkCode (ch : UInt8) : ℕ :=
  if ch = 10 then 1 else if ch = 13 then 2 else if isHex ch then 3 else 0

def hexDigit (ch : UInt8) : ℤ :=
  if 97 ≤ char ch then char ch-97+10 else if 65 ≤ char ch then char ch-65+10 else char ch-48

def pushHex (size : ℤ) (ch : UInt8) : Option ℤ := do
  let size ← int (size*16)
  int (size+hexDigit ch)

/-- Whether more data is needed, the new state and the size. -/
def parseChunked (state : ℕ) (size : ℤ) (ch : UInt8) : Option (Bool × ℕ × ℤ) :=
  let newstate := httpChunkState.getD (state*4+chunkCode ch) 0xC1
  let state := (newstate &&& 0xF).toNat
  if newstate = 0xC0 then some (decide (size ≠ 0),state,size)
  else if newstate = 0xC1 then some (false,state,-1)
  else if newstate = 0x01 then (pushHex 0 ch).map (true,state,·)
  else if newstate = 0x81 then (pushHex size ch).map (true,state,·)
  else if newstate = 0x83 then some (decide (size = 0),state,size)
  else some (true,state,size)

inductive State where
  | header | chunkHeader | chunkData | rawData | unknownData | close | error
  deriving DecidableEq

structure HttpResponseTiny where
  body : Bytes
  code : ℤ
  deriving DecidableEq

/-- `key` and `value` are the two parts of the buffer, `nscratch` is its size, and
`response` is what the callbacks write to. -/
structure Roundtripper where
  response : HttpResponseTiny
  code : ℤ
  parsestate : ℕ
  contentlength : ℤ
  state : State
  nscratch : ℤ
  key : Bytes
  value : Bytes
  chunked : Bool
  deriving DecidableEq

def httpInit : Roundtripper where
  response := ⟨[],0⟩
  code := 0
  parsestate := 0
  contentlength := -1
  state := .header
  nscratch := 0
  key := []
  value := []
  chunked := false

def growScratch (nscratch size : ℤ) : Option ℤ :=
  if nscratch ≥ size then some nscratch
  else do
    let size := if size < 64 then 64 else size
    let nsize := (← int (nscratch*3)).tdiv 2
    some (if nsize < size then size else nsize)

def responseCode (rt : Roundtripper) : Roundtripper :=
  {rt with response := {rt.response with code := rt.code}}

def appendBody (rt : Roundtripper) (data : Bytes) : Roundtripper :=
  {rt with response := {rt.response with body := rt.response.body++data}}

/-- The end of the header. -/
def headerDone (rt : Roundtripper) : Roundtripper :=
  let rt := responseCode rt
  if rt.parsestate ≠ 0 then {rt with state := .error}
  else if rt.chunked then {rt with contentlength := 0, state := .chunkHeader}
  else if rt.contentlength = 0 then {rt with state := .close}
  else if rt.contentlength > 0 then {rt with state := .rawData}
  else if rt.contentlength = -1 then {rt with state := .unknownData}
  else {rt with state := .error}

/-- The keys that count, in lower case. -/
def TRANSFER_ENCODING : Bytes := ascii "transfer-encoding"
def CONTENT_LENGTH : Bytes := ascii "content-length"
def CHUNKED : Bytes := ascii "chunked"

def storeKeyvalue (rt : Roundtripper) : Option Roundtripper :=
  let stored :=
    if rt.key = TRANSFER_ENCODING then some {rt with chunked := decide (rt.value = CHUNKED)}
    else if rt.key = CONTENT_LENGTH then
      (rt.value.foldlM pushDecimal 0).map fun n => {rt with contentlength := n}
    else some rt
  stored.map fun rt => {rt with key := [], value := []}

def onHeaderStatus (rt : Roundtripper) (ch : UInt8) : HeaderStatus → Option Roundtripper
  | .done => some (headerDone rt)
  | .codeCharacter => (pushDecimal rt.code ch).map fun code => {rt with code}
  | .keyCharacter => do
      let nscratch ← growScratch rt.nscratch (← int (rt.key.length+1))
      some {rt with nscratch, key := rt.key++[tolower ch]}
  | .valueCharacter => do
      let nscratch ← growScratch rt.nscratch (← int (rt.key.length+rt.value.length+1))
      some {rt with nscratch, value := rt.value++[ch]}
  | .storeKeyvalue => storeKeyvalue rt
  | .goOn | .versionCharacter | .statusCharacter => some rt

def headerChar (rt : Roundtripper) (ch : UInt8) : Option Roundtripper :=
  let (status,parsestate) := parseHeaderChar rt.parsestate ch
  onHeaderStatus {rt with parsestate} ch status

def chunkHeaderChar (rt : Roundtripper) (ch : UInt8) : Option Roundtripper := do
  let (more,parsestate,contentlength) ← parseChunked rt.parsestate rt.contentlength ch
  let rt := {rt with parsestate, contentlength}
  some <|
    if more then rt
    else if contentlength = -1 then {rt with state := .error}
    else if contentlength = 0 then {rt with state := .close}
    else {rt with state := .chunkData}

/-- A block of announced data, and what happens once all of it is there. -/
def dataBlock (atEnd : Roundtripper → Roundtripper) (rt : Roundtripper) (block : Bytes) :
    Roundtripper :=
  let rt := {appendBody rt block with contentlength := rt.contentlength-block.length}
  if rt.contentlength = 0 then atEnd rt else rt

def chunkData : Roundtripper → Bytes → Roundtripper :=
  dataBlock fun rt => {rt with contentlength := 1, state := .chunkHeader}

def rawData : Roundtripper → Bytes → Roundtripper :=
  dataBlock fun rt => {rt with state := .close}

/-- One pass of the loop: the new state, and the data that is left. -/
def pass (rt : Roundtripper) (data : Bytes) : Option (Roundtripper × Bytes) :=
  let chunksize := (min (data.length : ℤ) rt.contentlength).toNat
  match rt.state, data with
  | .header, ch::data => (headerChar rt ch).map (·,data)
  | .chunkHeader, ch::data => (chunkHeaderChar rt ch).map (·,data)
  | .chunkData, data => some (chunkData rt (data.take chunksize),data.drop chunksize)
  | .rawData, data => some (rawData rt (data.take chunksize),data.drop chunksize)
  | .unknownData, data => some (appendBody rt data,[])
  | _, data => some (rt,data)

def finished (rt : Roundtripper) : Bool := rt.state = .error ∨ rt.state = .close

/-- `while (size)`, with a bound for the passes. -/
def passes : ℕ → Roundtripper → Bytes → Option (Roundtripper × Bytes × Bool)
  | _, rt, [] => some (rt,[],true)
  | 0, _, _::_ => none
  | n+1, rt, ch::data => do
      let (rt,data) ← pass rt (ch::data)
      if finished rt then some (rt,data,false) else passes n rt data

/-- The new state, the data that was not read, and whether more is needed. As each
pass reads something, there are not more passes than bytes. -/
def httpData (rt : Roundtripper) (data : Bytes) : Option (Roundtripper × Bytes × Bool) :=
  passes data.length rt data

def httpIserror (rt : Roundtripper) : Bool := rt.state = .error

end TownCrier.TinyHttp
