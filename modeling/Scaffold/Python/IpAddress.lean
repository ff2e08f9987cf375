import Scaffold.Decimal
import Scaffold.Positional

namespace Scaffold.Python

open Decimal (decimal)
open Positional (digits value)

-- The module `ipaddress`.

def decimalOctet (text : List Char) : Option Nat :=
  if text = [] ∨ text.all Char.isDigit = false ∨ 3 < text.length then none
  else if text ≠ ['0'] ∧ text.head? = some '0' then none
  else if 255 < Nat.ofDigitChars 10 text 0 then none
  else some (Nat.ofDigitChars 10 text 0)

def ipv4Number (text : List Char) : Option Nat :=
  let octets := text.splitOn '.'
  if octets.length = 4 then (octets.mapM decimalOctet).map (value 256) else none

structure IPv4Address where
  ip : Nat
  bound : ip < 256 ^ 4
  deriving DecidableEq

-- `IPv4Address(text)`
def IPv4Address.ofText (text : List Char) : Option IPv4Address :=
  if '/' ∈ text then none
  else (ipv4Number text).bind fun ip => if h : ip < 256 ^ 4 then some ⟨ip, h⟩ else none

def IPv4Address.text (address : IPv4Address) : List Char :=
  ['.'].intercalate ((digits 256 4 address.ip).map decimal)

def hexOf (c : Char) : Option Nat :=
  if 48 ≤ c.toNat ∧ c.toNat < 58 then some (c.toNat - 48)
  else if 97 ≤ c.toNat ∧ c.toNat < 103 then some (c.toNat - 87)
  else if 65 ≤ c.toNat ∧ c.toNat < 71 then some (c.toNat - 55)
  else none

def parseHextet (text : List Char) : Option Nat :=
  if text = [] ∨ 4 < text.length then none else (text.mapM hexOf).map (value 16)

def hextet (n : Nat) : List Char := Nat.toDigits 16 n

-- A last part in the notation of IPv4 stands for two parts.
def withoutIPv4 (parts : List (List Char)) : Option (List (List Char)) :=
  match parts.getLast? with
  | none => some parts
  | some last =>
      if '.' ∈ last then
        (IPv4Address.ofText last).map fun address =>
          parts.dropLast ++ (digits 65536 2 address.ip).map hextet
      else some parts

-- The places, from the given one on, of the parts that are empty and not the last one.
def emptyFrom : Nat → List (List Char) → List Nat
  | _, [] => []
  | _, [_] => []
  | index, part :: next :: rest =>
      if part = [] then index :: emptyFrom (index + 1) (next :: rest)
      else emptyFrom (index + 1) (next :: rest)

-- How many parts stand before a run of zeros, how many zeros there are, and how many parts stand
-- behind them.
def partLayout (parts : List (List Char)) : Option (Nat × Nat × Nat) :=
  match emptyFrom 1 parts.tail with
  | [] => if parts.length = 8 then some (8, 0, 0) else none
  | [skip] =>
      let first := if parts.head? = some [] then skip - 1 else skip
      let last := if parts.getLast? = some [] then parts.length - skip - 2 else parts.length - skip - 1
      if parts.head? = some [] ∧ first ≠ 0 then none
      else if parts.getLast? = some [] ∧ last ≠ 0 then none
      else if 8 < first + last + 1 then none
      else some (first, 8 - (first + last), last)
  | _ => none

-- The split there stops after nine colons, and a text with more of them is refused either way.
def ipv6Number (text : List Char) : Option Nat :=
  let parts := text.splitOn ':'
  if 45 < text.length ∨ parts.length < 3 then none
  else do
    let parts ← withoutIPv4 parts
    if 9 < parts.length then none
    else
      let (first, skipped, last) ← partLayout parts
      let high ← (parts.take first).mapM parseHextet
      let low ← (parts.drop (parts.length - last)).mapM parseHextet
      some (value 65536 (high ++ List.replicate skipped 0 ++ low))

structure IPv6Address where
  ip : Nat
  scopeId : Option (List Char)
  bound : ip < 65536 ^ 8
  scope : ∀ id, scopeId = some id → id ≠ [] ∧ '%' ∉ id ∧ '/' ∉ id
  deriving DecidableEq

theorem unscoped (id : List Char) (h : none = some id) : id ≠ [] ∧ '%' ∉ id ∧ '/' ∉ id :=
  nomatch h

-- `IPv6Address(text)`
def IPv6Address.ofText (text : List Char) : Option IPv6Address :=
  if '/' ∈ text then none
  else
    match text.splitOn '%' with
    | [number] =>
        (ipv6Number number).bind fun ip =>
          if h : ip < 65536 ^ 8 then some ⟨ip, none, h, unscoped⟩ else none
    | [number, id] =>
        if hid : id ≠ [] ∧ '%' ∉ id ∧ '/' ∉ id then
          (ipv6Number number).bind fun ip =>
            if h : ip < 65536 ^ 8 then some ⟨ip, some id, h, fun _ heq => Option.some.inj heq ▸ hid⟩
            else none
        else none
    | _ => none

-- The longest run of zeros that `_compress_hextets` has found, and the run that it is in.
structure Runs where
  bestStart : Nat
  bestLength : Nat
  start : Option Nat
  length : Nat

def Runs.next (runs : Runs) (index : Nat) (part : List Char) : Runs :=
  if part = ['0'] then
    let start := runs.start.getD index
    if runs.bestLength < runs.length + 1 then
      { bestStart := start, bestLength := runs.length + 1, start := some start, length := runs.length + 1 }
    else { runs with start := some start, length := runs.length + 1 }
  else { runs with start := none, length := 0 }

def Runs.scan (runs : Runs) (index : Nat) : List (List Char) → Runs
  | [] => runs
  | part :: rest => (runs.next index part).scan (index + 1) rest

def compressHextets (parts : List (List Char)) : List (List Char) :=
  let runs := Runs.scan { bestStart := 0, bestLength := 0, start := none, length := 0 } 0 parts
  if 1 < runs.bestLength then
    let behind := runs.bestStart + runs.bestLength
    let parts' := if behind = parts.length then parts ++ [[]] else parts
    let compressed := parts'.take runs.bestStart ++ [[]] ++ parts'.drop behind
    if runs.bestStart = 0 then [] :: compressed else compressed
  else parts

def ipv6Text (ip : Nat) : List Char :=
  [':'].intercalate (compressHextets ((digits 65536 8 ip).map hextet))

-- Callers turn a mapped address into its IPv4 address first, so the notation of these is left out.
def IPv6Address.text (address : IPv6Address) : List Char :=
  match address.scopeId with
  | none => ipv6Text address.ip
  | some id => ipv6Text address.ip ++ '%' :: id

-- `ipv4_mapped`
def IPv6Address.ipv4Mapped (address : IPv6Address) : Option IPv4Address :=
  if address.ip / 4294967296 = 65535 then
    some ⟨address.ip % 4294967296, Nat.mod_lt _ (Nat.succ_pos _)⟩
  else none

inductive IpAddress where
  | v4 (address : IPv4Address)
  | v6 (address : IPv6Address)
  deriving DecidableEq

-- `ip_address(text)`, which raises `ValueError` when there is none.
def ipAddress (text : List Char) : Option IpAddress :=
  match IPv4Address.ofText text with
  | some address => some (.v4 address)
  | none => (IPv6Address.ofText text).map .v6

-- `compressed`
def IpAddress.compressed : IpAddress → List Char
  | .v4 address => address.text
  | .v6 address => address.text

end Scaffold.Python
