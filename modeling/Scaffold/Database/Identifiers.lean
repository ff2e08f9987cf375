import Mathlib.Data.Char
import Scaffold.Positional

namespace Scaffold.Database

open Positional

def crockfordBase32 : String := "0123456789abcdefghjkmnpqrstvwxyz"

def ulidRandomBytes : Nat := 10

def ulidLength : Nat := 26

def maxUlidTimestamp : Nat := 2 ^ 48 - 1

def crockford (index : Nat) : Char := crockfordBase32.toList.getD index '0'

-- `int.from_bytes(_, "big")`
def fromBytes (bytes : List UInt8) : Nat := value 256 (bytes.map UInt8.toNat)

-- The loop of `new_ulid`, from the last place of `encoded` to the first.
def encodeLoop : Nat → Nat → List Char → List Char
  | 0, _, encoded => encoded
  | index + 1, value, encoded =>
      encodeLoop index (value >>> 5) (encoded.set index (crockford (value &&& 31)))

-- `new_ulid` with the answers of `time_ns` and `token_bytes`. It raises when the time is out of range.
def newUlid (timeNs : Int) (tokenBytes : List UInt8) : Option String :=
  let timestampMs := timeNs / 1000000
  if 0 ≤ timestampMs ∧ timestampMs ≤ maxUlidTimestamp then
    let value := timestampMs.toNat <<< 80 ||| fromBytes tokenBytes
    some (.ofList (encodeLoop ulidLength value (List.replicate ulidLength '0')))
  else none

-- The number that a text stands for in base 32.
def ulidValue (text : String) : Nat :=
  value 32 (text.toList.map crockfordBase32.toList.idxOf)

end Scaffold.Database
