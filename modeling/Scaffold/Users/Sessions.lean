import Scaffold.Pool
import Scaffold.Users.Repository

namespace Scaffold.Users

-- `str.lower` and the lifetime of a session.
structure AuthConfig where
  lower : String → String
  sessionTtlSeconds : Nat
  positive : 0 < sessionTtlSeconds

-- The unit-of-work block that writes, for each call.
inductive Write where
  | create (user : User)
  | login (snapshot : User)
  | logout (digest : String)
  | update (id : UserId) (username email : String)
  | changeStatus (id : UserId) (status : UserStatus)
  | resetPassword (id : UserId) (passwordHash : PasswordHash)
  | delete (id : UserId)
  | cleanupExpiredSessions

-- The unit-of-work block that only reads, before the password is hashed or verified.
inductive Check where
  | unique (username : Username) (email : EmailAddress)
  | present (id : UserId)
  | snapshot (username : Username)

inductive Hashing where
  | create (username : Username) (email : EmailAddress)
  | resetPassword (id : UserId)

inductive AuthPhase where
  | idle
  | checking (check : Check)
  | hashing (hashing : Hashing)
  | verifying (snapshot : Option User)
  | ready (write : Write)
  | done (result : Except UserError Unit)

-- A call, with the password hash that it has verified.
structure AuthCall where
  phase : AuthPhase := .idle
  verified : Option PasswordHash := none

-- `fails` is an exception of the hasher, of the limiter or of an await of the block, and
-- `commit` the run of the writing block, which raises without effect unless `ok`.
inductive AuthAct where
  | create (username email password : String)
  | login (username : String) (locked : Bool)
  | logout (digest : String)
  | update (id : UserId) (username email : String)
  | changeStatus (id : UserId) (status : UserStatus)
  | resetPassword (id : UserId) (password : String)
  | delete (id : UserId)
  | cleanupExpiredSessions
  | check
  | hashed (passwordHash : PasswordHash) (newId : UserId) (now : Int)
  | verified (ok : Bool)
  | fails
  | commit (now : Int) (digest : String) (ok : Bool)

section Sessions

variable {T : Type} (config : AuthConfig)

def createTx (db : Database T) (user : User) : Except UserError (Database T) := do
  ensureUnique db user
  addUser db user

-- The second block of `login`: the account is checked again after the slow verification.
def loginTx (db : Database T) (t : T) (snapshot : User) (now : Int) (digest : String) :
    Except UserError (Database T) := do
  let some current ← find db snapshot.id | throw .invalidCredentials
  if current.status ≠ .active ∨ current.passwordHash ≠ snapshot.passwordHash ∨
      current.username ≠ snapshot.username then throw .invalidCredentials
  else
    addSession (removeExpired db now) {
      row := {
        tokenDigest := digest
        userId := current.id
        issuedAt := now
        expiresAt := now + config.sessionTtlSeconds
        ordered := by have := config.positive; omega }
      login := t }

def updateTx (db : Database T) (id : UserId) (username email : String) (now : Int) :
    Except UserError (Database T) := do
  let some user ← find db id | throw (.notFound id)
  let user ← user.updateProfile config.lower username email now
  ensureUnique db user
  ensureUpdated (updateUser db user).2.1 id
  return (updateUser db user).1

def changeStatusTx (db : Database T) (id : UserId) (status : UserStatus) (now : Int) :
    Except UserError (Database T) := do
  let some user ← find db id | throw (.notFound id)
  let user := user.changeStatus status now
  ensureUpdated (updateUser db user).2.1 id
  if user.status = .disabled then return removeForUser (updateUser db user).1 id
  else return (updateUser db user).1

def resetPasswordTx (db : Database T) (id : UserId) (passwordHash : PasswordHash) (now : Int) :
    Except UserError (Database T) := do
  let some user ← find db id | throw (.notFound id)
  let user := user.resetPassword passwordHash now
  ensureUpdated (updateUser db user).2.1 id
  return removeForUser (updateUser db user).1 id

def deleteTx (db : Database T) (id : UserId) : Except UserError (Database T) :=
  if (removeUser db id).2 then .ok (removeUser db id).1 else .error (.notFound id)

def runWrite (db : Database T) (t : T) (now : Int) (digest : String) : Write → Except UserError (Database T)
  | .create user => createTx db user
  | .login snapshot => loginTx config db t snapshot now digest
  | .logout digest => .ok (removeSession db digest)
  | .update id username email => updateTx config db id username email now
  | .changeStatus id status => changeStatusTx db id status now
  | .resetPassword id passwordHash => resetPasswordTx db id passwordHash now
  | .delete id => deleteTx db id
  | .cleanupExpiredSessions => .ok (removeExpired db now)

def currentUser (db : Database T) (digest : String) (now : Int) : Except UserError User :=
  match findSession db digest with
  | none => .error .authenticationRequired
  | some session =>
      if session.row.isValid now then do
        let some user ← find db session.row.userId | throw .authenticationRequired
        if user.status = .active then return user else throw .authenticationRequired
      else .error .authenticationRequired

def raiseCall (db : Database T) (l : AuthCall) (error : UserError) : Database T × AuthCall :=
  (db, { l with phase := .done (.error error) })

def readCheck (db : Database T) (l : AuthCall) : Check → Database T × AuthCall
  | .unique username email =>
      match ensureUniqueValues db username email none with
      | .error error => raiseCall db l error
      | .ok _ => (db, { l with phase := .hashing (.create username email) })
  | .present id =>
      match find db id with
      | .error error => raiseCall db l error
      | .ok none => raiseCall db l (.notFound id)
      | .ok (some _) => (db, { l with phase := .hashing (.resetPassword id) })
  | .snapshot username =>
      match findByUsername db username with
      | .error error => raiseCall db l error
      | .ok snapshot => (db, { l with phase := .verifying snapshot })

def authStep (t : T) (db : Database T) (l : AuthCall) : AuthAct → Option (Database T × AuthCall)
  | .create username email password =>
      match l.phase with
      | .idle =>
          match parseUsername config.lower username, parseEmail config.lower email,
              parsePassword password with
          | .ok username, .ok email, .ok _ =>
              some (db, { l with phase := .checking (.unique username email) })
          | _, _, _ => some (raiseCall db l .invalidUserData)
      | _ => none
  | .login username locked =>
      match l.phase with
      | .idle =>
          if locked then some (raiseCall db l .temporarilyLocked)
          else
            match parseUsername config.lower username with
            | .error _ => some (raiseCall db l .invalidCredentials)
            | .ok username => some (db, { l with phase := .checking (.snapshot username) })
      | _ => none
  | .logout digest =>
      match l.phase with
      | .idle => some (db, { l with phase := .ready (.logout digest) })
      | _ => none
  | .update id username email =>
      match l.phase with
      | .idle => some (db, { l with phase := .ready (.update id username email) })
      | _ => none
  | .changeStatus id status =>
      match l.phase with
      | .idle => some (db, { l with phase := .ready (.changeStatus id status) })
      | _ => none
  | .resetPassword id password =>
      match l.phase with
      | .idle =>
          match parsePassword password with
          | .error error => some (raiseCall db l error)
          | .ok _ => some (db, { l with phase := .checking (.present id) })
      | _ => none
  | .delete id =>
      match l.phase with
      | .idle => some (db, { l with phase := .ready (.delete id) })
      | _ => none
  | .cleanupExpiredSessions =>
      match l.phase with
      | .idle => some (db, { l with phase := .ready .cleanupExpiredSessions })
      | _ => none
  | .check =>
      match l.phase with
      | .checking check => some (readCheck db l check)
      | _ => none
  | .hashed passwordHash newId now =>
      match l.phase with
      | .hashing (.create username email) =>
          some (db, { l with phase := .ready (.create (.create newId username email passwordHash now)) })
      | .hashing (.resetPassword id) =>
          some (db, { l with phase := .ready (.resetPassword id passwordHash) })
      | _ => none
  | .verified ok =>
      match l.phase with
      | .verifying snapshot =>
          match snapshot with
          | none => some (raiseCall db l .invalidCredentials)
          | some snapshot =>
              if ok = true ∧ snapshot.status = .active then
                some (db, { phase := .ready (.login snapshot), verified := some snapshot.passwordHash })
              else some (raiseCall db l .invalidCredentials)
      | _ => none
  | .fails =>
      match l.phase with
      | .idle => none
      | .done _ => none
      | _ => some (raiseCall db l .raised)
  | .commit now digest ok =>
      match l.phase with
      | .ready write =>
          match runWrite config db t now digest write with
          | .error error => some (raiseCall db l error)
          | .ok next =>
              if ok then some (next, { l with phase := .done (.ok ()) })
              else some (raiseCall db l .commitFailed)
      | _ => none

abbrev AuthPool (T : Type) := Pool T (Database T) AuthCall

def noAuthEnv (_ : Database T) (event : Empty) : Option (Database T) := nomatch event

abbrev authPoolStep [DecidableEq T] : AuthPool T → (T × AuthAct) ⊕ Empty → Option (AuthPool T) :=
  Pool.step (authStep config) noAuthEnv

def AuthPool.init (T : Type) : AuthPool T where
  shared := {}
  loc _ := {}

end Sessions

end Scaffold.Users
