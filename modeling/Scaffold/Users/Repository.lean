import Scaffold.Users.Domain

namespace Scaffold.Users

-- A row of the table `users`.
structure UserModel where
  id : UserId
  username : Username
  email : EmailAddress
  password : PasswordHash
  status : UserStatus
  createdAt : Int
  updatedAt : Int
  version : Nat
  deriving DecidableEq, Repr

-- A row of the table `user_sessions`, with the call that stored it.
structure StoredSession (T : Type) where
  row : UserSession
  login : T
  deriving DecidableEq, Repr

structure Database (T : Type) where
  users : List UserModel := []
  sessions : List (StoredSession T) := []

inductive DatabaseDriver where
  | sqlite
  | postgresql
  | mysql
  deriving DecidableEq, Repr

-- The first number that a query cannot have as its offset. It is bound as a signed number of 64 bits;
-- MySQL reads an unsigned one.
def DatabaseDriver.offsetLimit : DatabaseDriver → Nat
  | .sqlite | .postgresql => 2 ^ 63
  | .mysql => 2 ^ 64

-- How a query for a page fails: the driver or the server refuses the offset, or a row is invalid.
inductive PageError where
  | offsetRange
  | user (error : UserError)
  deriving DecidableEq, Repr

inductive UserUpdateResult where
  | updated
  | conflict
  | notFound
  deriving DecidableEq, Repr

def userToModel (user : User) : UserModel where
  id := user.id
  username := user.username
  email := user.email
  password := user.passwordHash
  status := user.status
  createdAt := user.createdAt
  updatedAt := user.updatedAt
  version := user.version

-- The rehydration checks the version again.
def userToDomain (model : UserModel) : Except UserError User :=
  if h : 1 ≤ model.version then
    .ok {
      id := model.id
      username := model.username
      email := model.email
      passwordHash := model.password
      status := model.status
      createdAt := model.createdAt
      updatedAt := model.updatedAt
      version := model.version
      versioned := h }
  else .error .invalidUserData

-- The row that an update with the values of the whole aggregate leaves.
def userUpdateValues (user : User) (model : UserModel) : UserModel :=
  { model with
    username := user.username
    email := user.email
    password := user.passwordHash
    status := user.status
    updatedAt := user.updatedAt
    version := user.version + 1 }

section Repository

variable {T : Type} (db : Database T)

def findModel (id : UserId) : Option UserModel :=
  db.users.find? (·.id = id)

def rehydrate : Option UserModel → Except UserError (Option User)
  | none => .ok none
  | some model => (userToDomain model).map some

def find (id : UserId) : Except UserError (Option User) :=
  rehydrate (findModel db id)

def findByUsername (username : Username) : Except UserError (Option User) :=
  rehydrate (db.users.find? (·.username = username))

def existsByUsername (username : Username) (excluding : Option UserId) : Bool :=
  db.users.any fun model => model.username = username ∧ excluding ≠ some model.id

def existsByEmail (email : EmailAddress) (excluding : Option UserId) : Bool :=
  db.users.any fun model => model.email = email ∧ excluding ≠ some model.id

def ensureUniqueValues (username : Username) (email : EmailAddress) (excluding : Option UserId) :
    Except UserError Unit :=
  if existsByUsername db username excluding then .error (.conflict .username)
  else if existsByEmail db email excluding then .error (.conflict .email)
  else .ok ()

def ensureUnique (user : User) : Except UserError Unit :=
  ensureUniqueValues db user.username user.email (some user.id)

-- `ORDER BY created_at DESC, id DESC`: whether a row may stand before another one.
def pageOrder (a b : UserModel) : Bool :=
  b.createdAt < a.createdAt ∨ a.createdAt = b.createdAt ∧ b.id ≤ a.id

-- The rows of a query in an order that its ORDER BY allows.
structure Arranged (models rows : List UserModel) : Prop where
  perm : rows.Perm models
  sorted : rows.Pairwise fun a b => pageOrder a b

-- `rows` are the rows of the table as the database has ordered them for this query.
def findPage (driver : DatabaseDriver) (rows : List UserModel) (offset limit : Nat) :
    Except PageError (List User × Nat) :=
  if driver.offsetLimit ≤ offset then .error .offsetRange
  else do
    let items ← (((rows.drop offset).take limit).mapM userToDomain).mapError .user
    .ok (items, db.users.length)

-- The insert of a new row, which the primary key may refuse.
def addUser (user : User) : Except UserError (Database T) :=
  if (findModel db user.id).isSome then .error .integrity
  else .ok { db with users := db.users ++ [userToModel user] }

def matchesVersion (user : User) (model : UserModel) : Bool :=
  model.id = user.id ∧ model.version = user.version

-- The conditional update, with the aggregate after it.
def updateUser (user : User) : Database T × UserUpdateResult × User :=
  if db.users.any (matchesVersion user) then
    ({ db with users := db.users.map fun model =>
        if matchesVersion user model then userUpdateValues user model else model },
      .updated, user.advanceVersion)
  else (db, if (findModel db user.id).isSome then .conflict else .notFound, user)

def ensureUpdated (result : UserUpdateResult) (id : UserId) : Except UserError Unit :=
  match result with
  | .updated => .ok ()
  | .notFound => .error (.notFound id)
  | .conflict => .error (.concurrentUpdate id)

-- The foreign key of the sessions cascades.
def removeUser (id : UserId) : Database T × Bool :=
  ({ users := db.users.filter (·.id ≠ id), sessions := db.sessions.filter (·.row.userId ≠ id) },
    (findModel db id).isSome)

def findSession (digest : String) : Option (StoredSession T) :=
  db.sessions.find? (·.row.tokenDigest = digest)

-- The insert of a session, which the primary key or the foreign key may refuse.
def addSession (session : StoredSession T) : Except UserError (Database T) :=
  if (findSession db session.row.tokenDigest).isSome ∨ (findModel db session.row.userId).isNone then
    .error .integrity
  else .ok { db with sessions := db.sessions ++ [session] }

def removeSession (digest : String) : Database T :=
  { db with sessions := db.sessions.filter (·.row.tokenDigest ≠ digest) }

def removeForUser (id : UserId) : Database T :=
  { db with sessions := db.sessions.filter (·.row.userId ≠ id) }

def removeExpired (now : Int) : Database T :=
  { db with sessions := db.sessions.filter fun session => now < session.row.expiresAt }

end Repository

section Lemmas

variable {T : Type} {db : Database T}

theorem userToDomain_spec {model : UserModel} {user : User} (h : userToDomain model = .ok user) :
    user.id = model.id ∧ user.username = model.username ∧ user.email = model.email ∧
      user.passwordHash = model.password ∧ user.status = model.status ∧
      user.createdAt = model.createdAt ∧ user.updatedAt = model.updatedAt ∧
        user.version = model.version := by
  unfold userToDomain at h
  split_ifs at h
  obtain rfl := Except.ok.inj h
  exact ⟨rfl, rfl, rfl, rfl, rfl, rfl, rfl, rfl⟩

theorem findModel_id {id : UserId} {model : UserModel} (h : findModel db id = some model) :
    model.id = id := by
  simpa using List.find?_some h

theorem find_spec {id : UserId} {user : User} (h : find db id = .ok (some user)) :
    ∃ model, findModel db id = some model ∧ userToDomain model = .ok user := by
  unfold find rehydrate at h
  split at h
  · cases h
  · rename_i model hmodel
    cases hd : userToDomain model with
    | error error => simp [hd, Except.map] at h
    | ok user' =>
        simp only [hd, Except.map, Except.ok.injEq, Option.some.injEq] at h
        exact ⟨model, hmodel, h ▸ hd⟩

theorem addUser_spec {user : User} {next : Database T} (h : addUser db user = .ok next) :
    findModel db user.id = none ∧ next = { db with users := db.users ++ [userToModel user] } := by
  unfold addUser at h
  split_ifs at h with hnone
  exact ⟨by simpa using hnone, (Except.ok.inj h).symm⟩

theorem findModel_add {user : User} {id : UserId} (h : findModel db user.id = none) :
    findModel { db with users := db.users ++ [userToModel user] } id =
      if id = user.id then some (userToModel user) else findModel db id := by
  unfold findModel at h ⊢
  rw [List.find?_append]
  by_cases hid : id = user.id
  · subst hid
    simp [h, userToModel]
  · simp [hid, userToModel, Ne.symm hid]

-- The row of another id, or of another version, is left alone.
theorem findModel_update (user : User) (id : UserId) :
    findModel (updateUser db user).1 id =
      (findModel db id).map fun model =>
        if matchesVersion user model then userUpdateValues user model else model := by
  unfold updateUser
  by_cases hany : db.users.any (matchesVersion user) = true
  · rw [if_pos hany]
    unfold findModel
    rw [List.find?_map]
    congr 2
    funext model
    by_cases hm : matchesVersion user model = true <;> simp [hm, userUpdateValues]
  · rw [if_neg hany]
    have hnone : ∀ model ∈ db.users, matchesVersion user model = false := by simpa using hany
    cases hfind : findModel db id with
    | none => rfl
    | some model => simp [hnone model (List.mem_of_find?_eq_some hfind)]

theorem updateUser_sessions (user : User) : (updateUser db user).1.sessions = db.sessions := by
  unfold updateUser
  split_ifs <;> rfl

theorem findModel_remove (id key : UserId) :
    findModel (removeUser db id).1 key = if key = id then none else findModel db key := by
  unfold findModel removeUser
  rw [List.find?_filter]
  by_cases hkey : key = id
  · subst hkey
    simp
  · simp only [hkey, if_false]
    congr 1
    funext model
    by_cases hm : model.id = key <;> simp [hm, hkey]

end Lemmas

end Scaffold.Users
