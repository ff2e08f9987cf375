import Mathlib.Logic.Function.Basic
import Scaffold.Http.QueryParam
import Scaffold.Python.JsonRepr

namespace Scaffold.Http

open Python

-- What the middleware calls outside of the package.
structure Library where
  -- `QueryParams(query).get(name)`
  get : List UInt8 → Text → Option Text
  -- `json.loads`
  loads : Text → Except JsonError JsonValue
  -- `str.isprintable` on the characters after ASCII
  printable : Char → Bool
  -- how deep `repr` may go
  limit : Nat

inductive UrlError where
  | unicodeEncode
  | recursion
  deriving DecidableEq, Repr

section Urlencode

variable (library : Library)

def quoteText (text : Text) : Except UrlError (List UInt8) :=
  match quotePlus text with
  | some quoted => .ok quoted
  | none => .error .unicodeEncode

-- `str`
def strValue : JsonValue → Except UrlError Text
  | .str text => .ok text
  | value =>
      match reprValue library.printable library.limit value with
      | some text => .ok (pointsOf text)
      | none => .error .recursion

-- With `doseq=True` a value that has a length is gone through: a list by its items, a dictionary
-- by its keys.
def formValues : JsonValue → List JsonValue
  | .list items => items
  | .dict items => items.map fun item => .str item.1
  | value => [value]

def encodeField (name : List UInt8) (element : JsonValue) : Except UrlError (List UInt8) := do
  let text ← strValue library element
  let quoted ← quoteText text
  .ok (name ++ 61 :: quoted)

def encodeItem (item : Text × JsonValue) : Except UrlError (List (List UInt8)) := do
  let name ← quoteText item.1
  (formValues item.2).mapM (encodeField library name)

-- `urlencode` with `doseq=True`. The text is ASCII and is given by its bytes.
def urlencode (payload : Payload) : Except UrlError (List UInt8) := do
  let fields ← payload.mapM (encodeItem library)
  .ok ([38].intercalate fields.flatten)

end Urlencode

section Objects

variable (V E : Type)

inductive StateValue where
  | decoded (payload : Payload)
  | other (value : V)

abbrev State := String → Option (StateValue V)

-- A scope, with the address of its state mapping.
structure Scope where
  type : String
  queryString : Option (List UInt8)
  state : Option Nat
  others : String → Option V

-- The mappings that exist, each at its address.
structure Heap where
  scopes : List (Scope V)
  states : List (State V)

structure Middleware where
  app : Heap V → Nat → Except E Unit
  paramName : Text
  named : paramName ≠ []

inductive Raised where
  | own (error : UrlError)
  | downstream (error : E)

-- The calls of the downstream application, each with the objects it finds, and how the call ends.
structure Run where
  calls : List (Heap V × Nat)
  outcome : Except (Raised E) Unit

end Objects

section Call

variable {V E : Type} (library : Library) (middleware : Middleware V E)

def decodedStateKey : String := "decoded_f_params"

-- `scope.get("state", {})`
def Heap.stateOf (heap : Heap V) (scope : Scope V) : State V :=
  (scope.state.bind fun address => heap.states[address]?).getD fun _ => none

-- `await self.app(scope, receive, send)`
def forward (heap : Heap V) (address : Nat) : Run V E where
  calls := [(heap, address)]
  outcome := (middleware.app heap address).mapError .downstream

-- The copies of the scope and of its state, with the decoded parameters in them.
def Heap.expand (heap : Heap V) (scope : Scope V) (payload : Payload) (query : List UInt8) : Heap V where
  scopes := heap.scopes ++ [{ scope with queryString := some query, state := some heap.states.length }]
  states := heap.states ++ [Function.update (heap.stateOf scope) decodedStateKey (some (.decoded payload))]

-- `__call__`
def call (heap : Heap V) (address : Nat) : Run V E :=
  match heap.scopes[address]? with
  | none => { calls := [], outcome := .ok () }
  | some scope =>
      if scope.type ≠ "http" then forward middleware heap address
      else
        match library.get (scope.queryString.getD []) middleware.paramName with
        | none => forward middleware heap address
        | some encoded =>
            if encoded = [] then forward middleware heap address
            else
              match decodeQueryParam library.loads encoded with
              | none => forward middleware heap address
              | some payload =>
                  match urlencode library payload with
                  | .error error => { calls := [], outcome := .error (.own error) }
                  | .ok query => forward middleware (heap.expand scope payload query) heap.scopes.length

end Call

section Purpose

variable {V E : Type} (library : Library) (middleware : Middleware V E)

-- The text of an element in the new query.
def elementText : JsonValue → Text
  | .str text => text
  | value => pointsOf ((reprValue library.printable library.limit value).getD [])

def formPairs (payload : Payload) : List (Text × Text) :=
  payload.flatMap fun item => (formValues item.2).map fun element => (item.1, elementText library element)

-- The payload that the query of a request carries.
def carried (scope : Scope V) : Option Payload :=
  (library.get (scope.queryString.getD []) middleware.paramName).bind (decodeQueryParam library.loads)

-- A text with a lone surrogate that the new query would have to hold, or an element nested too deep.
def Unencodable (payload : Payload) : Prop :=
  ∃ item ∈ payload, plainText item.1 = false ∨
    ∃ element ∈ formValues item.2, (∃ text, element = .str text ∧ plainText text = false) ∨
      library.limit < element.depth

-- A copy of the scope with another query, and a copy of its state with the payload.
def Expanded (heap heap' : Heap V) (scope : Scope V) (payload : Payload) (target : Nat) : Prop :=
  ∃ query reference,
    heap.scopes.length ≤ target ∧ heap.states.length ≤ reference ∧
    heap'.scopes[target]? = some { scope with queryString := some query, state := some reference } ∧
    heap'.states[reference]? =
      some (Function.update (heap.stateOf scope) decodedStateKey (some (.decoded payload))) ∧
    parseQsl (query.map pointOf) = formPairs library payload

-- The downstream application is called once and nothing else is raised; the objects that were
-- there are as before.
def Delivered (heap : Heap V) (address : Nat) (scope : Scope V) (run : Run V E) : Prop :=
  ∃ heap' target, run.calls = [(heap', target)] ∧
    run.outcome = (middleware.app heap' target).mapError .downstream ∧
    heap.scopes <+: heap'.scopes ∧ heap.states <+: heap'.states ∧
    (carried library middleware scope = none → heap' = heap ∧ target = address) ∧
    ∀ payload, carried library middleware scope = some payload →
      Expanded library heap heap' scope payload target

end Purpose

end Scaffold.Http
