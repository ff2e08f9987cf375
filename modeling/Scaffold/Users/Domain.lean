import Scaffold.Python.Repr
import Scaffold.Raising

namespace Scaffold.Users

open Python (isSpace strip)
open Raising (bind_ok)

abbrev UserId := BitVec 128

-- `str.lower` on ASCII text.
def asciiLower (text : String) : String :=
  .ofList (text.toList.map Char.toLower)

def isUsernameChar (c : Char) : Bool :=
  ('a' ≤ c ∧ c ≤ 'z') ∨ ('0' ≤ c ∧ c ≤ '9') ∨ c = '_'

def usernameOk (text : String) : Bool :=
  3 ≤ text.length ∧ text.length ≤ 32 ∧ text.toList.all isUsernameChar

-- A local part, one @, and a domain with a dot inside, none of them with white space.
def emailOk (text : String) : Bool :=
  let name := text.toList.takeWhile (· ≠ '@')
  let domain := (text.toList.dropWhile (· ≠ '@')).drop 1
  text.length ≤ 254 ∧ name ≠ [] ∧ '@' ∈ text.toList ∧ '@' ∉ domain ∧
    (text.toList.all fun c => !isSpace c) ∧ '.' ∈ domain.tail.dropLast

structure Username where
  value : String
  ok : usernameOk value = true
  deriving DecidableEq, Repr

structure EmailAddress where
  value : String
  ok : emailOk value = true
  deriving DecidableEq, Repr

structure Password where
  value : String
  ok : 8 ≤ value.length ∧ value.length ≤ 128
  deriving DecidableEq, Repr

structure PasswordHash where
  value : String
  ok : 1 ≤ value.length ∧ value.length ≤ 255
  deriving DecidableEq, Repr

inductive UserStatus where
  | active
  | disabled
  deriving DecidableEq, Repr

inductive ConflictField where
  | username
  | email
  deriving DecidableEq, Repr

inductive UserError where
  | invalidUserData
  | notFound (id : UserId)
  | conflict (field : ConflictField)
  | concurrentUpdate (id : UserId)
  | invalidCredentials
  | temporarilyLocked
  | authenticationRequired
  | integrity
  | commitFailed
  | raised
  deriving DecidableEq, Repr

-- The aggregate. Times are local datetimes without an offset.
structure User where
  id : UserId
  username : Username
  email : EmailAddress
  passwordHash : PasswordHash
  status : UserStatus
  createdAt : Int
  updatedAt : Int
  version : Nat
  versioned : 1 ≤ version
  deriving DecidableEq, Repr

structure UserSession where
  tokenDigest : String
  userId : UserId
  issuedAt : Int
  expiresAt : Int
  ordered : issuedAt < expiresAt
  deriving DecidableEq, Repr

def UserSession.isValid (session : UserSession) (now : Int) : Bool :=
  session.issuedAt ≤ now ∧ now < session.expiresAt

section Values

-- `str.lower`, which is a parameter because its tables are not part of the source.
variable (lower : String → String)

def parseUsername (text : String) : Except UserError Username :=
  let normalized := lower (strip text)
  if h : usernameOk normalized = true then .ok ⟨normalized, h⟩ else .error .invalidUserData

def parseEmail (text : String) : Except UserError EmailAddress :=
  let normalized := lower (strip text)
  if h : emailOk normalized = true then .ok ⟨normalized, h⟩ else .error .invalidUserData

def parsePassword (text : String) : Except UserError Password :=
  if h : 8 ≤ text.length ∧ text.length ≤ 128 then .ok ⟨text, h⟩ else .error .invalidUserData

def User.create (id : UserId) (username : Username) (email : EmailAddress) (passwordHash : PasswordHash)
    (now : Int) : User where
  id := id
  username := username
  email := email
  passwordHash := passwordHash
  status := .active
  createdAt := now
  updatedAt := now
  version := 1
  versioned := Nat.one_pos

def User.advanceVersion (user : User) : User :=
  { user with version := user.version + 1, versioned := Nat.le_add_left 1 user.version }

def User.updateProfile (user : User) (username email : String) (now : Int) : Except UserError User := do
  let username ← parseUsername lower username
  let email ← parseEmail lower email
  return { user with username := username, email := email, updatedAt := now }

def User.changeStatus (user : User) (status : UserStatus) (now : Int) : User :=
  { user with status := status, updatedAt := now }

def User.resetPassword (user : User) (passwordHash : PasswordHash) (now : Int) : User :=
  { user with passwordHash := passwordHash, updatedAt := now }

end Values

theorem User.updateProfile_spec {lower : String → String} {user next : User} {username email : String}
    {now : Int} (h : user.updateProfile lower username email now = .ok next) :
    next.id = user.id ∧ next.passwordHash = user.passwordHash ∧ next.status = user.status ∧
      next.createdAt = user.createdAt ∧ next.version = user.version := by
  obtain ⟨name, -, h⟩ := bind_ok h
  obtain ⟨address, -, h⟩ := bind_ok h
  obtain rfl := Except.ok.inj h
  exact ⟨rfl, rfl, rfl, rfl, rfl⟩

end Scaffold.Users
