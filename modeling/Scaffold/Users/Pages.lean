import Mathlib.Data.List.Nodup
import Scaffold.Http.Pagination
import Scaffold.Raising
import Scaffold.Users.Repository

namespace Scaffold.Users

open Http (PageParams PageResponse buildPageResponse calculateTotalPages)

structure UserDTO where
  id : UserId
  username : String
  email : String
  status : UserStatus
  createdAt : Int
  updatedAt : Int
  deriving DecidableEq, Repr

def UserDTO.fromDomain (user : User) : UserDTO where
  id := user.id
  username := user.username.value
  email := user.email.value
  status := user.status
  createdAt := user.createdAt
  updatedAt := user.updatedAt

structure UserPageDTO where
  items : List UserDTO
  total : Nat
  offset : Nat
  limit : Nat
  deriving DecidableEq, Repr

structure UserResponse where
  id : UserId
  username : String
  email : String
  status : UserStatus
  createdAt : Int
  updatedAt : Int
  deriving DecidableEq, Repr

def UserResponse.fromDto (user : UserDTO) : UserResponse where
  id := user.id
  username := user.username
  email := user.email
  status := user.status
  createdAt := user.createdAt
  updatedAt := user.updatedAt

section Listing

variable {T : Type} (db : Database T) (driver : DatabaseDriver) (rows : List UserModel)

-- `UserApplicationService.list`
def list (offset limit : Nat) : Except PageError UserPageDTO := do
  let (users, total) ← findPage db driver rows offset limit
  return { items := users.map .fromDomain, total := total, offset := offset, limit := limit }

-- The page in the answer of the route `list_users`.
def listUsers (pagination : PageParams) : Except PageError (PageResponse UserResponse) := do
  let result ← list db driver rows pagination.offset pagination.limit
  return buildPageResponse result.items result.total pagination .fromDto

end Listing

section Order

variable {models rows rows' : List UserModel}

-- Rows that compare equal have one id.
theorem pageOrder_antisymm {a b : UserModel} (hab : pageOrder a b = true) (hba : pageOrder b a = true) :
    a.id = b.id := by
  simp only [pageOrder, decide_eq_true_eq] at hab hba
  obtain hlt | ⟨heq, hle⟩ := hab
  · obtain hlt' | ⟨heq', -⟩ := hba
    · omega
    · omega
  · obtain hlt' | ⟨-, hle'⟩ := hba
    · omega
    · exact BitVec.le_antisymm hle' hle

-- With distinct ids the query has one order only.
theorem Arranged.unique (hids : (models.map (·.id)).Nodup) (h : Arranged models rows)
    (h' : Arranged models rows') :
    rows = rows' := by
  refine List.Perm.eq_of_pairwise ?_ h.sorted h'.sorted (h.perm.trans h'.perm.symm)
  intro a b ha hb hab hba
  exact List.inj_on_of_nodup_map hids (h.perm.mem_iff.mp ha) (h'.perm.mem_iff.mp hb)
    (pageOrder_antisymm hab hba)

end Order

theorem userToDomain_userToModel (user : User) : userToDomain (userToModel user) = .ok user := by
  unfold userToDomain userToModel
  rw [dif_pos user.versioned]

theorem mapM_userToDomain (users : List User) : (users.map userToModel).mapM userToDomain = .ok users := by
  induction users with
  | nil => rfl
  | cons user users ih =>
      exact Raising.mapM_cons_ok.mpr ⟨user, users, userToDomain_userToModel user, ih, rfl⟩

theorem userToModel_of_domain {model : UserModel} {user : User} (h : userToDomain model = .ok user) :
    userToModel user = model := by
  unfold userToDomain at h
  split_ifs at h
  obtain rfl := Except.ok.inj h
  rfl

theorem models_of_mapM {rows : List UserModel} {users : List User}
    (h : rows.mapM userToDomain = .ok users) :
    rows = users.map userToModel := by
  induction rows generalizing users with
  | nil =>
      obtain rfl := Except.ok.inj h
      rfl
  | cons row rows ih =>
      obtain ⟨user, rest, huser, hrest, rfl⟩ := Raising.mapM_cons_ok.mp h
      rw [List.map_cons, ← ih hrest, userToModel_of_domain huser]

-- The users in the order of a query.
theorem Arranged.users {users : List User} {rows : List UserModel}
    (h : Arranged (users.map userToModel) rows) :
    ∃ ordered : List User, ordered.Perm users ∧ rows = ordered.map userToModel := by
  obtain ⟨ordered, hordered, hperm⟩ := Raising.mapM_perm h.perm.symm (mapM_userToDomain users)
  exact ⟨ordered, hperm.symm, models_of_mapM hordered⟩

-- Newer users come first, and of two users of one time the one with the larger id.
def newerFirst (a b : User) : Prop :=
  b.createdAt < a.createdAt ∨ a.createdAt = b.createdAt ∧ b.id < a.id

-- The page that a client is given.
def pageResponse (params : PageParams) (users : List User) (total : Nat) : PageResponse UserResponse where
  items := users.map fun user => .fromDto (.fromDomain user)
  info := {
    page := params.page
    limit := params.limit
    total := total
    totalPages := calculateTotalPages total params.limit }

section Found

variable {T : Type} {db : Database T} {driver : DatabaseDriver} {users : List User}

theorem findPage_ok {ordered : List User} (hdb : db.users.length = users.length) {offset limit : Nat}
    (h : offset < driver.offsetLimit) :
    findPage db driver (ordered.map userToModel) offset limit =
      .ok ((ordered.drop offset).take limit, users.length) := by
  rw [findPage, if_neg (Nat.not_le_of_lt h), ← List.map_drop, ← List.map_take, mapM_userToDomain, hdb]
  rfl

theorem findPage_offsetRange {rows : List UserModel} {offset limit : Nat} (h : driver.offsetLimit ≤ offset) :
    findPage db driver rows offset limit = .error .offsetRange :=
  if_pos h

theorem listUsers_ok {rows : List UserModel} {params : PageParams} {total : Nat}
    (h : findPage db driver rows params.offset params.limit = .ok (users, total)) :
    listUsers db driver rows params = .ok (pageResponse params users total) := by
  unfold listUsers list
  rw [h]
  simp [pageResponse, buildPageResponse, Bind.bind, Except.bind, Pure.pure, Except.pure]

theorem listUsers_error {rows : List UserModel} {params : PageParams} {error : PageError}
    (h : findPage db driver rows params.offset params.limit = .error error) :
    listUsers db driver rows params = .error error := by
  unfold listUsers list
  rw [h]
  rfl

end Found

-- The pages are the slices of one list of all users; the database gives a page exactly when it can take
-- the offset of it.
theorem pages_partition_iff {T : Type} {db : Database T} {users : List User}
    (hdb : db.users = users.map userToModel)
    (hids : (users.map (·.id)).Nodup) {limit : Nat} (hlimit : 1 ≤ limit ∧ limit ≤ Http.maxLimit)
    {rows : Nat → List UserModel} (hrows : ∀ page, Arranged db.users (rows page))
    (driver : DatabaseDriver) :
    ∃ pages : Nat → List User,
      (∀ params : PageParams, params.limit = limit →
        (findPage db driver (rows params.page) params.offset params.limit =
            .ok (pages params.page, users.length) ↔
          (params.page - 1) * limit < driver.offsetLimit) ∧
        (listUsers db driver (rows params.page) params =
            .ok (pageResponse params (pages params.page) users.length) ↔
          (params.page - 1) * limit < driver.offsetLimit)) ∧
      ((List.range (calculateTotalPages users.length limit)).flatMap fun k => pages (k + 1)).Perm users ∧
      ((List.range (calculateTotalPages users.length limit)).flatMap fun k =>
        pages (k + 1)).Pairwise newerFirst ∧
      (∀ page, 1 ≤ page → page ≤ calculateTotalPages users.length limit → pages page ≠ []) ∧
      (∀ page, 1 ≤ page → page < calculateTotalPages users.length limit → (pages page).length = limit) ∧
      (∀ page, calculateTotalPages users.length limit < page → pages page = []) ∧
      (calculateTotalPages users.length limit = 0 ↔ users = []) := by
  rw [hdb] at hrows
  obtain ⟨ordered, hperm, hordered⟩ := (hrows 1).users
  have hmodels : ((users.map userToModel).map (·.id)).Nodup := by
    rw [List.map_map]
    exact hids
  have hcount : ordered.length = users.length := hperm.length_eq
  have hsame : ∀ page, rows page = ordered.map userToModel := fun page =>
    ((hrows page).unique hmodels (hrows 1)).trans hordered
  have hnodup : (ordered.map (·.id)).Nodup := (hperm.map _).nodup_iff.mpr hids
  -- every counted page starts inside the list
  have hinside : ∀ page, 1 ≤ page →
      (page ≤ calculateTotalPages users.length limit ↔ (page - 1) * limit < ordered.length) := by
    intro page hpage
    rw [hcount]
    exact Http.page_le_iff hlimit.1 hpage
  have hjoined : ((List.range (calculateTotalPages users.length limit)).flatMap fun k =>
      (ordered.drop ((k + 1 - 1) * limit)).take limit) = ordered := by
    simp only [Nat.add_sub_cancel]
    rw [Http.flatMap_slices, List.take_of_length_le]
    rw [hcount]
    exact Http.total_le_pages hlimit.1
  refine ⟨fun page => (ordered.drop ((page - 1) * limit)).take limit, ?_, ?_, ?_, ?_, ?_, ?_, ?_⟩
  · rintro params rfl
    have hlength : db.users.length = users.length := by rw [hdb, List.length_map]
    have hfound : (params.page - 1) * params.limit < driver.offsetLimit →
        findPage db driver (rows params.page) params.offset params.limit =
          .ok ((ordered.drop ((params.page - 1) * params.limit)).take params.limit, users.length) := by
      intro hoffset
      rw [hsame]
      exact findPage_ok hlength hoffset
    have hrefused : ¬ (params.page - 1) * params.limit < driver.offsetLimit →
        findPage db driver (rows params.page) params.offset params.limit = .error .offsetRange :=
      fun hoffset => findPage_offsetRange (Nat.le_of_not_lt hoffset)
    refine ⟨⟨fun h => ?_, hfound⟩, ⟨fun h => ?_, fun hoffset => listUsers_ok (hfound hoffset)⟩⟩
    · by_contra hoffset
      rw [hrefused hoffset] at h
      cases h
    · by_contra hoffset
      rw [listUsers_error (hrefused hoffset)] at h
      cases h
  · rw [hjoined]
    exact hperm
  · rw [hjoined]
    have hsorted := (hrows 1).sorted
    rw [hordered, List.pairwise_map] at hsorted
    refine (hsorted.and (List.pairwise_map.mp hnodup)).imp ?_
    rintro a b ⟨horder, hne⟩
    have hkeys : b.createdAt < a.createdAt ∨ a.createdAt = b.createdAt ∧ b.id ≤ a.id :=
      of_decide_eq_true horder
    obtain hnewer | ⟨heq, hle⟩ := hkeys
    · exact .inl hnewer
    · exact .inr ⟨heq, BitVec.lt_of_le_ne hle fun h => hne h.symm⟩
  · intro page hpage hle hempty
    have hlt := (hinside page hpage).mp hle
    have hlength := congrArg List.length hempty
    rw [List.length_take, List.length_drop, List.length_nil] at hlength
    omega
  · intro page hpage hlt
    -- the next page starts inside the list too
    have hnext := (hinside (page + 1) (Nat.le_add_left 1 page)).mp hlt
    have hstep : (page + 1 - 1) * limit = (page - 1) * limit + limit := by
      rw [Nat.add_sub_cancel, ← Nat.succ_mul, Nat.succ_eq_add_one, Nat.sub_add_cancel hpage]
    rw [List.length_take, List.length_drop]
    omega
  · intro page hlt
    have hlate := (hinside page (by omega)).not.mp (by omega)
    have hdrop : ordered.drop ((page - 1) * limit) = [] := List.drop_eq_nil_of_le (by omega)
    simp only [hdrop, List.take_nil]
  · rw [Http.calculateTotalPages_eq_zero hlimit.1, List.length_eq_zero_iff]

-- Three users, two of them created at one time.
def listedUser (id : UserId) (createdAt : Int) : User where
  id := id
  username := ⟨"carol", by decide⟩
  email := ⟨"c@d.co", by decide⟩
  passwordHash := ⟨"hash", by decide⟩
  status := .active
  createdAt := createdAt
  updatedAt := createdAt
  version := 1
  versioned := Nat.one_pos

theorem pages_partition_iff_tied : ∃ pages : Nat → List User, (pages 1).length = 2 ∧ pages 2 ≠ [] ∧
    pages 3 = [] := by
  let users := [listedUser 1 8, listedUser 2 5, listedUser 3 8]
  have hrows : ∀ _ : Nat, Arranged (users.map userToModel)
    ([listedUser 3 8, listedUser 1 8, listedUser 2 5].map userToModel) :=
    fun _ => ⟨by decide, by decide⟩
  obtain ⟨pages, -, -, -, hfilled, hfull, hlater, -⟩ :=
    pages_partition_iff
      (rfl : ({ users := users.map userToModel } : Database Nat).users = users.map userToModel) (by decide)
      (by decide : 1 ≤ 2 ∧ 2 ≤ Http.maxLimit) hrows .sqlite
  exact ⟨pages, hfull 1 (by decide) (by decide), hfilled 2 (by decide) (by decide), hlater 3 (by decide)⟩

def latePage : PageParams where
  page := 10 ^ 18
  limit := 20

-- A page behind the last one whose offset has more than 63 bits is an error and no empty page.
theorem latePage_refused :
    calculateTotalPages ({} : Database Nat).users.length latePage.limit < latePage.page ∧
      findPage ({} : Database Nat) .sqlite [] latePage.offset latePage.limit = .error .offsetRange ∧
      listUsers ({} : Database Nat) .sqlite [] latePage = .error .offsetRange := by
  have hoffset : DatabaseDriver.sqlite.offsetLimit ≤ latePage.offset := by decide
  have hpage : findPage ({} : Database Nat) .sqlite [] latePage.offset latePage.limit =
    .error .offsetRange := findPage_offsetRange hoffset
  exact ⟨by decide, hpage, listUsers_error hpage⟩

end Scaffold.Users
