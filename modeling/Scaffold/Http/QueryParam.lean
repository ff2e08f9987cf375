import Scaffold.Python.Base64
import Scaffold.Python.JsonScalar
import Scaffold.Python.Url

namespace Scaffold.Http

open Python

-- The items of a dictionary in their order.
abbrev Payload := List (Text × JsonValue)

def compactJson (payload : Payload) : Text := dumps (textOf ",") (textOf ":") (.dict payload)

def rstripPadding (text : List Char) : List Char := (text.reverse.dropWhile (· = '=')).reverse

-- `encode_query_param`; `quote` raises for a payload with a lone surrogate.
def encodeQueryParam (payload : Payload) : Option (List Char) :=
  (quote (compactJson payload)).map fun urlEncoded => rstripPadding (b64encode urlEncoded)

-- How `json.loads` fails.
inductive JsonError where
  | value
  | recursion
  deriving DecidableEq, Repr

def restorePadding (encoded : Text) : Text :=
  if encoded.length % 4 ≠ 0 then encoded ++ List.replicate (4 - encoded.length % 4)
    (codePoint '=') else encoded

-- A text that is not ASCII is refused before it is decoded.
def decodeBase64 (text : Text) : Option (List UInt8) :=
  if text.all fun c => c.val < 128 then b64decode (charsOf text) else none

def decodeQueryParam (loads : Text → Except JsonError JsonValue) (value : Text) : Option Payload :=
  if value = [] then none
  else
    match (decodeBase64 (restorePadding (replacePoint ' ' '+' value))).bind decodeUtf8 with
    | none => none
    | some decoded =>
        match loads (unquote decoded) with
        | .ok (.dict items) => some items
        | _ => none

end Scaffold.Http
