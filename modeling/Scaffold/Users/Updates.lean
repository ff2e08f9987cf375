import Scaffold.Pool
import Scaffold.Users.Repository

namespace Scaffold.Users

-- What a writing call does to the aggregate it has read.
inductive Edit where
  | profile (username email : String)
  | status (status : UserStatus)
  | password (passwordHash : PasswordHash)
  deriving DecidableEq, Repr

def Edit.apply (lower : String → String) (now : Int) (user : User) : Edit → Except UserError User
  | .profile username email => user.updateProfile lower username email now
  | .status next => .ok (user.changeStatus next now)
  | .password passwordHash => .ok (user.resetPassword passwordHash now)

-- The aggregate that a call makes of the row it has read.
def compute (lower : String → String) (edit : Edit) (now : Int) (base : UserModel) :
    Except UserError User := do
  let user ← userToDomain base
  edit.apply lower now user

-- The local variables of a writing block, from the change of the aggregate on.
structure Work (lower : String → String) where
  id : UserId
  edit : Edit
  now : Int
  base : UserModel
  user : User
  computed : compute lower edit now base = .ok user

-- The row that the UPDATE of the block writes.
def Work.row {lower : String → String} (w : Work lower) : UserModel :=
  userUpdateValues w.user w.base

-- The await at which a call is. `found` has read its row and `missed` has updated none; the
-- calls that hold a row are `revoking`, `committing` and `deleted`.
inductive UpdatePhase (lower : String → String) where
  | idle
  | presence (id : UserId)
  | hashing (id : UserId)
  | finding (id : UserId) (edit : Edit)
  | found (id : UserId) (edit : Edit) (row : Option UserModel)
  | checkUsername (w : Work lower)
  | checkEmail (w : Work lower)
  | updating (w : Work lower)
  | missed (w : Work lower)
  | revoking (w : Work lower) (user : User)
  | committing (w : Work lower) (user : User) (revoked : List String)
  | deleting (id : UserId)
  | deleted (id : UserId)
  | done (result : Except UserError (Option (Work lower × User)))

inductive UpdateAct where
  | update (id : UserId) (username email : String)
  | changeStatus (id : UserId) (status : UserStatus)
  | resetPassword (id : UserId) (password : String)
  | delete (id : UserId)
  | hashed (passwordHash : PasswordHash)
  | select
  | resume (now : Int)
  | execute (violation : Option ConflictField)
  | removeSessions
  | commit (ok : Bool)
  | fails

-- What other calls do: `create` with an id that was never used, `login`, `logout` and the cleanup.
inductive UpdateEvent (T : Type) where
  | create (id : UserId) (username : Username) (email : EmailAddress) (passwordHash : PasswordHash)
    (now : Int)
  | sessions (sessions : List (StoredSession T))

-- One committed state of a row, with the call and its local variables.
inductive Commit (lower : String → String) (T : Type) where
  | created (row : UserModel)
  | updated (call : T) (w : Work lower)
  | deleted (call : T)

-- The committed tables, the rows that are held and the commits of each row, newest first.
structure UpdateDb (lower : String → String) (T : Type) where
  db : Database T := {}
  locks : UserId → Option T := fun _ => none
  commits : UserId → List (Commit lower T) := fun _ => []

section Updates

variable {lower : String → String} {T : Type} [DecidableEq T]

abbrev UpdateNext (lower : String → String) (T : Type) := UpdateDb lower T × UpdatePhase lower

def raiseUpdate (s : UpdateDb lower T) (error : UserError) : UpdateNext lower T :=
  (s, .done (.error error))

def acquire (s : UpdateDb lower T) (t : T) (id : UserId) : UpdateDb lower T :=
  { s with locks := Function.update s.locks id (some t) }

def release (s : UpdateDb lower T) (t : T) : UpdateDb lower T :=
  { s with locks := fun id => if s.locks id = some t then none else s.locks id }

def record (s : UpdateDb lower T) (id : UserId) (entry : Commit lower T) : UpdateDb lower T :=
  { s with commits := Function.update s.commits id (entry :: s.commits id) }

-- A statement on a row waits while another transaction holds it.
def available (s : UpdateDb lower T) (t : T) (id : UserId) : Bool :=
  s.locks id = none ∨ s.locks id = some t

-- The single-row SELECT that the call waits for.
def select (s : UpdateDb lower T) : UpdatePhase lower → Option (UpdateNext lower T)
  | .presence id =>
      match find s.db id with
      | .error error => some (raiseUpdate s error)
      | .ok none => some (raiseUpdate s (.notFound id))
      | .ok (some _) => some (s, .hashing id)
  | .finding id edit => some (s, .found id edit (findModel s.db id))
  | .checkUsername w =>
      if existsByUsername s.db w.user.username (some w.user.id) then
        some (raiseUpdate s (.conflict .username))
      else some (s, .checkEmail w)
  | .checkEmail w =>
      if existsByEmail s.db w.user.email (some w.user.id) then some (raiseUpdate s (.conflict .email))
      else some (s, .updating w)
  | .missed w =>
      if (findModel s.db w.id).isSome then some (raiseUpdate s (.concurrentUpdate w.id))
      else some (raiseUpdate s (.notFound w.id))
  | _ => none

-- Only a change of the profile checks the uniqueness first.
def afterChange (w : Work lower) : UpdatePhase lower :=
  match w.edit with
  | .profile _ _ => .checkUsername w
  | _ => .updating w

-- The aggregate is restored and changed, without another await.
def resume (s : UpdateDb lower T) (now : Int) : UpdatePhase lower → Option (UpdateNext lower T)
  | .found id _ none => some (raiseUpdate s (.notFound id))
  | .found id edit (some base) =>
      match h : compute lower edit now base with
      | .error error => some (raiseUpdate s error)
      | .ok user => some (s, afterChange ⟨id, edit, now, base, user, h⟩)
  | _ => none

-- The await after an UPDATE that has matched its row.
def afterUpdate (w : Work lower) (user : User) : UpdatePhase lower :=
  match w.edit with
  | .profile _ _ => .committing w user []
  | .status _ => if user.status = .disabled then .revoking w user else .committing w user []
  | .password _ => .revoking w user

-- The UPDATE and the DELETE see the latest committed row. The database may refuse the new
-- values of a row that matches, when a unique constraint is violated.
def execute (s : UpdateDb lower T) (t : T) (violation : Option ConflictField) :
    UpdatePhase lower → Option (UpdateNext lower T)
  | .updating w =>
      if available s t w.id then
        match findModel s.db w.id with
        | none => some (s, .missed w)
        | some model =>
            if matchesVersion w.user model then
              match violation with
              | some field => some (raiseUpdate s (.conflict field))
              | none => some (acquire s t w.id, afterUpdate w w.user.advanceVersion)
            else some (s, .missed w)
      else none
  | .deleting id =>
      if available s t id then
        if (findModel s.db id).isSome then some (acquire s t id, .deleted id)
        else some (raiseUpdate s (.notFound id))
      else none
  | _ => none

def replaceRow (db : Database T) (id : UserId) (row : UserModel) : Database T :=
  { db with users := db.users.map fun model => if model.id = id then row else model }

-- A commit applies the statements of the block and gives its rows free.
def commit (s : UpdateDb lower T) (t : T) : UpdatePhase lower → Option (UpdateNext lower T)
  | .committing w user revoked =>
      let written := replaceRow s.db w.id w.row
      let next := { s with db := { written with
        sessions := written.sessions.filter fun x => x.row.tokenDigest ∉ revoked } }
      some (release (record next w.id (.updated t w)) t, .done (.ok (some (w, user))))
  | .deleted id =>
      let next := { s with db := (removeUser s.db id).1 }
      some (release (record next id (.deleted t)) t, .done (.ok none))
  | _ => none

def updateStep (lower : String → String) (t : T) (s : UpdateDb lower T) (l : UpdatePhase lower) :
    UpdateAct → Option (UpdateNext lower T)
  | .update id username email =>
      match l with
      | .idle => some (s, .finding id (.profile username email))
      | _ => none
  | .changeStatus id status =>
      match l with
      | .idle => some (s, .finding id (.status status))
      | _ => none
  | .resetPassword id password =>
      match l with
      | .idle =>
          match parsePassword password with
          | .error error => some (raiseUpdate s error)
          | .ok _ => some (s, .presence id)
      | _ => none
  | .delete id =>
      match l with
      | .idle => some (s, .deleting id)
      | _ => none
  | .hashed passwordHash =>
      match l with
      | .hashing id => some (s, .finding id (.password passwordHash))
      | _ => none
  | .select => select s l
  | .resume now => resume s now l
  | .execute violation => execute s t violation l
  | .removeSessions =>
      match l with
      | .revoking w user =>
          some (s, .committing w user
            ((s.db.sessions.filter (·.row.userId = w.id)).map (·.row.tokenDigest)))
      | _ => none
  | .commit ok =>
      match commit s t l with
      | none => none
      | some next => if ok then some next else some (raiseUpdate (release s t) .commitFailed)
  -- an exception at an await, or a cancellation, rolls the block back
  | .fails =>
      match l with
      | .idle => none
      | .done _ => none
      | _ => some (raiseUpdate (release s t) .raised)

def updateEnv (s : UpdateDb lower T) : UpdateEvent T → Option (UpdateDb lower T)
  | .create id username email passwordHash now =>
      let user := User.create id username email passwordHash now
      if (s.commits id).isEmpty then
        match addUser s.db user with
        | .error _ => none
        | .ok db => some (record { s with db := db } id (.created (userToModel user)))
      else none
  | .sessions sessions => some { s with db := { s.db with sessions := sessions } }

abbrev UpdatePool (lower : String → String) (T : Type) := Pool T (UpdateDb lower T) (UpdatePhase lower)

abbrev updatePoolStep (lower : String → String) :
    UpdatePool lower T → (T × UpdateAct) ⊕ UpdateEvent T → Option (UpdatePool lower T) :=
  Pool.step (updateStep lower) updateEnv

def UpdatePool.init (lower : String → String) (T : Type) : UpdatePool lower T where
  shared := {}
  loc _ := .idle

end Updates

end Scaffold.Users
