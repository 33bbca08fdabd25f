import TownCrier.SteamSearch

/-!
# Trades in an answer of Steam

`parse_response` of `steam2.cpp` and the functions under it, with the search as it is
meant, `strstr`, and the second request for the name of an item as a parameter. A
pointer is what is left of the answer, so that the later of two pointers is the shorter.
-/
namespace TownCrier.SteamScraper
open BigEndian Cpp Substrings

def accountKey : Bytes := ascii "accountid_other\": "
def methodKey : Bytes := ascii "confirmation_method"
def stateKey : Bytes := ascii "trade_offer_state"
def giveKey : Bytes := ascii "items_to_give"
def appidKey : Bytes := ascii "appid\": \""
def classidKey : Bytes := ascii "classid\": \""

/-- `p += n`, which may lead to the terminator but not beyond. -/
def advance (p : Bytes) (n : ℕ) : Exec Bytes :=
  if n ≤ p.length then pure (p.drop n) else undefined

/-- The key and the account are put together in a buffer of 100 bytes. -/
def getNextTradeWithOther (index : Option Bytes) (other : Bytes) : Exec (Option Bytes) :=
  match index with
  | none => pure none
  | some index =>
      if 100 < accountKey.length+other.length+1 then undefined
      else do return strstr (accountKey++other) (← advance index 1)

/-- The name is compared over its own length. -/
def inList (list : List Bytes) (name : Bytes) : Bool := list.any fun l => name.isPrefixOf l

/-- An id up to `end2`, copied into 21 bytes with a terminator. -/
def copyId (temp end2 : Bytes) : Exec Bytes :=
  let id := temp.take (temp.length-end2.length)
  if id.length < 21 then pure id else undefined

/-- How the loop over the items of a trade ends: `return -1`, `flag = 1`, or with its counter. -/
inductive Items where
  | failed
  | unlisted
  | listed (counter : ℕ)
  deriving DecidableEq

section
variable (getItemName : Bytes → Bytes → Option Bytes) (other : Bytes) (listB : List Bytes)

/-- From the second round on `temp` is at the key of the item and not at its value. -/
def items (last : Bytes) : ℕ → Option Bytes → ℕ → Exec Items
  | _,none,counter => pure (.listed counter)
  | 0,some _,_ => undefined
  | fuel+1,some temp,counter =>
      if temp.length ≤ last.length then pure (.listed counter)
      else match strstr [34] temp with
        | none => pure .failed
        | some end2 => do
            let appId ← copyId temp end2
            match strstr classidKey temp with
            | none => pure .failed
            | some temp => do
                let temp ← advance temp 11
                match strstr [34] temp with
                | none => pure .failed
                | some end2 => do
                    let classId ← copyId temp end2
                    match getItemName appId classId with
                    | none => pure .failed
                    | some name =>
                        if inList listB name then
                          items last fuel (strstr appidKey temp) (counter+1)
                        else pure .unlisted

/-- `end` is the place of the next `confirmation_method`. -/
def trades : ℕ → Option Bytes → Exec Int32
  | _,none => pure (-1)
  | 0,some _ => undefined
  | fuel+1,some index =>
      match strstr methodKey index,strstr stateKey index with
      | some last,some temp => do
          let temp ← advance temp 20
          match strstr [44] temp with
          | none => pure (-1)
          | some end2 =>
              if end2.length < last.length then pure (-1)
              else if temp.head? ≠ some 51 then
                trades fuel (← getNextTradeWithOther (some index) other)
              else match strstr giveKey temp with
                | none => pure (-1)
                | some temp =>
                    if temp.length < last.length then
                      trades fuel (← getNextTradeWithOther (some index) other)
                    else match strstr appidKey temp with
                      | none => pure (-1)
                      | some temp => do
                          let temp ← advance temp 9
                          match ← items getItemName listB last (temp.length+1) (some temp) 0 with
                          | .failed => pure (-1)
                          | .unlisted => trades fuel (← getNextTradeWithOther (some index) other)
                          | .listed counter =>
                              if counter = listB.length then pure 0
                              else trades fuel (← getNextTradeWithOther (some index) other)
      | _,_ => pure (-1)

def parseResponse (resp : Bytes) : Exec Int32 := do
  trades getItemName other listB resp.length (← getNextTradeWithOther (some resp) other)

end
end TownCrier.SteamScraper
