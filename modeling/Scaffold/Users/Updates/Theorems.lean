import Scaffold.Users.Updates

namespace Scaffold.Users

open Machine
open Raising (bind_ok)

section History

variable {lower : String → String} {T : Type}

def Commit.row : Commit lower T → Option UserModel
  | .created row => some row
  | .updated _ w => some w.row
  | .deleted _ => none

def lastRow : List (Commit lower T) → Option UserModel
  | [] => none
  | entry :: _ => entry.row

-- A history, newest first: a row is created once, every update has read exactly the row that
-- the commit before it left, and nothing follows a deletion.
def LinearChain : List (Commit lower T) → Prop
  | [] => True
  | .created row :: older => older = [] ∧ row.version = 1
  | .updated _ w :: older => lastRow older = some w.base ∧ LinearChain older
  | .deleted _ :: older => (lastRow older).isSome ∧ LinearChain older

def updates : List (Commit lower T) → Nat
  | [] => 0
  | .updated _ _ :: older => updates older + 1
  | _ :: older => updates older

theorem compute_spec {edit : Edit} {now : Int} {base : UserModel} {user : User}
    (h : compute lower edit now base = .ok user) : user.id = base.id ∧ user.version = base.version := by
  obtain ⟨restored, hrestored, hedit⟩ := bind_ok h
  obtain ⟨hid, -, -, -, -, -, -, hversion⟩ := userToDomain_spec hrestored
  cases edit with
  | profile username email =>
      obtain ⟨hid', -, -, -, hversion'⟩ := User.updateProfile_spec hedit
      exact ⟨hid'.trans hid, hversion'.trans hversion⟩
  | status status =>
      obtain rfl := Except.ok.inj hedit
      exact ⟨hid, hversion⟩
  | password passwordHash =>
      obtain rfl := Except.ok.inj hedit
      exact ⟨hid, hversion⟩

theorem Work.row_version (w : Work lower) : w.row.version = w.base.version + 1 :=
  congrArg (· + 1) (compute_spec w.computed).2

theorem updates_append (new old : List (Commit lower T)) :
    updates (new ++ old) = updates new + updates old := by
  induction new with
  | nil => simp [updates]
  | cons entry new ih =>
      cases entry with
      | created row => simpa only [List.cons_append, updates] using ih
      | updated call w =>
          simp only [List.cons_append, updates, ih]
          omega
      | deleted call => simpa only [List.cons_append, updates] using ih

theorem chain_version {commits : List (Commit lower T)} {row : UserModel} (h : LinearChain commits)
    (hrow : lastRow commits = some row) : row.version = 1 + updates commits := by
  induction commits generalizing row with
  | nil => cases hrow
  | cons entry older ih =>
      cases entry with
      | created first =>
          obtain ⟨rfl, hversion⟩ := h
          obtain rfl := Option.some.inj hrow
          simpa [updates] using hversion
      | updated call w =>
          obtain ⟨hbase, hchain⟩ := h
          obtain rfl := Option.some.inj hrow
          have hversion := ih hchain hbase
          rw [w.row_version, hversion]
          simp only [updates]
          omega
      | deleted call => cases hrow

theorem chain_tail {entry : Commit lower T} {older : List (Commit lower T)}
    (h : LinearChain (entry :: older)) : LinearChain older := by
  cases entry with
  | created row =>
      obtain ⟨rfl, -⟩ := h
      trivial
  | updated call w => exact h.2
  | deleted call => exact h.2

-- No version that was ever committed exceeds the count of the updates.
theorem chain_version_le {commits : List (Commit lower T)} (h : LinearChain commits)
    {entry : Commit lower T} (he : entry ∈ commits) {row : UserModel} (hrow : entry.row = some row) :
    row.version ≤ 1 + updates commits := by
  induction commits with
  | nil => cases he
  | cons first older ih =>
      rcases List.mem_cons.mp he with rfl | he
      · have hlast : lastRow (entry :: older) = some row := hrow
        have := chain_version h hlast
        omega
      · have hle := ih (chain_tail h) he
        have hgrow : updates older ≤ updates (first :: older) := by
          cases first <;> simp [updates]
        omega

-- A row of an older history is behind the current row as soon as a commit has followed.
theorem chain_overtaken (new : List (Commit lower T)) {old : List (Commit lower T)}
    (h : LinearChain (new ++ old))
    (hnew : new ≠ []) {entry : Commit lower T} (he : entry ∈ old) {base row : UserModel}
    (hbase : entry.row = some base) (hrow : lastRow (new ++ old) = some row) :
    base.version < row.version := by
  have hold : LinearChain old := by
    clear hnew hrow
    induction new with
    | nil => exact h
    | cons first new ih => exact ih (chain_tail h)
  have hle := chain_version_le hold he hbase
  have hversion := chain_version h hrow
  rw [updates_append] at hversion
  have hmore : 1 ≤ updates new := by
    cases new with
    | nil => exact absurd rfl hnew
    | cons first new =>
        cases first with
        | created row =>
            have hnil : old = [] := (List.append_eq_nil_iff.mp h.1).2
            simp [hnil] at he
        | updated call w => simp [updates]
        | deleted call => cases hrow
  omega

-- The version tells the committed rows of a user apart.
theorem chain_unique {commits : List (Commit lower T)} (h : LinearChain commits)
    {entry : Commit lower T} (he : entry ∈ commits) {base row : UserModel}
    (hbase : entry.row = some base) (hrow : lastRow commits = some row)
    (hversion : row.version = base.version) : row = base := by
  cases commits with
  | nil => cases he
  | cons first older =>
      rcases List.mem_cons.mp he with rfl | he
      · exact Option.some.inj (hrow.symm.trans hbase)
      · have hlt : base.version < row.version :=
          chain_overtaken [first] h (List.cons_ne_nil _ _) he hbase hrow
        omega

theorem lastRow_mem {commits : List (Commit lower T)} {row : UserModel}
    (h : lastRow commits = some row) : ∃ entry ∈ commits, entry.row = some row := by
  cases commits with
  | nil => cases h
  | cons entry older => exact ⟨entry, List.mem_cons_self, h⟩

end History

section Phases

variable {lower : String → String} {T : Type}

-- The row that a call in flight has read.
def UpdatePhase.read : UpdatePhase lower → Option (UserId × UserModel)
  | .found id _ (some row) => some (id, row)
  | .checkUsername w => some (w.id, w.base)
  | .checkEmail w => some (w.id, w.base)
  | .updating w => some (w.id, w.base)
  | .missed w => some (w.id, w.base)
  | .revoking w _ => some (w.id, w.base)
  | .committing w _ _ => some (w.id, w.base)
  | _ => none

-- The update that a call has executed and not committed, with the aggregate after it.
def UpdatePhase.pending : UpdatePhase lower → Option (Work lower × User)
  | .revoking w user => some (w, user)
  | .committing w user _ => some (w, user)
  | _ => none

def UpdatePhase.holds : UpdatePhase lower → Option UserId
  | .revoking w _ => some w.id
  | .committing w _ _ => some w.id
  | .deleted id => some id
  | _ => none

-- The call is under way and holds no row.
def UpdatePhase.Open : UpdatePhase lower → Prop
  | .revoking _ _ => False
  | .committing _ _ _ => False
  | .deleted _ => False
  | .done _ => False
  | _ => True

-- The checks of the call are behind it.
def UpdatePhase.Checked : UpdatePhase lower → Prop
  | .updating _ => True
  | .missed _ => True
  | _ => False

-- What a call raises by itself after it has read a row.
def Refusal (id : UserId) (checked : Prop) (error : UserError) : Prop :=
  error = .concurrentUpdate id ∨ error = .notFound id ∨
    ¬ checked ∧ (error = .invalidUserData ∨ ∃ field, error = .conflict field)

-- What a step does to the shared state and to the phase of its call.
inductive UpdateEffect [DecidableEq T] (t : T) (s : UpdateDb lower T) (l : UpdatePhase lower) :
    UpdateNext lower T → Prop
  | moved (l' : UpdatePhase lower) (hopen : l.Open) (hopen' : l'.Open) (hread : l'.read = l.read)
      (hchecked : l.Checked → l'.Checked) : UpdateEffect t s l (s, l')
  | looked (id : UserId) (edit : Edit) (hl : l = .finding id edit) :
      UpdateEffect t s l (s, .found id edit (findModel s.db id))
  | refused (error : UserError) (hopen : l.Open)
      (hrefusal : ∀ id base, l.read = some (id, base) → Refusal id l.Checked error) :
      UpdateEffect t s l (raiseUpdate s error)
  | violated (w : Work lower) (model : UserModel) (error : UserError) (hl : l = .updating w)
      (hmodel : findModel s.db w.id = some model) (hversion : matchesVersion w.user model = true) :
      UpdateEffect t s l (raiseUpdate s error)
  | aborted (error : UserError) (hopen : ∀ result, l ≠ .done result)
      (cause : error = .raised ∨ l.holds ≠ none) :
      UpdateEffect t s l (raiseUpdate (release s t) error)
  | updated (w : Work lower) (model : UserModel) (hl : l = .updating w)
      (hfree : available s t w.id = true) (hmodel : findModel s.db w.id = some model)
      (hversion : matchesVersion w.user model = true) :
      UpdateEffect t s l (acquire s t w.id, afterUpdate w w.user.advanceVersion)
  | removed (id : UserId) (hl : l = .deleting id) (hfree : available s t id = true)
      (hmodel : (findModel s.db id).isSome) : UpdateEffect t s l (acquire s t id, .deleted id)
  | revoked (w : Work lower) (user : User) (digests : List String) (hl : l = .revoking w user) :
      UpdateEffect t s l (s, .committing w user digests)
  | committed (next : UpdateNext lower T) (hcommit : commit s t l = some next) : UpdateEffect t s l next

theorem compute_error {edit : Edit} {now : Int} {base : UserModel} {error : UserError}
    (h : compute lower edit now base = .error error) : error = .invalidUserData := by
  unfold compute userToDomain at h
  split_ifs at h
  · cases edit with
    | profile username email =>
        simp only [Edit.apply, User.updateProfile, parseUsername, parseEmail] at h
        split_ifs at h
        · cases h
        · exact (Except.error.inj h).symm
        · exact (Except.error.inj h).symm
        · exact (Except.error.inj h).symm
    | status status => cases h
    | password passwordHash => cases h
  · exact (Except.error.inj h).symm

variable [DecidableEq T] {t : T} {s : UpdateDb lower T} {l : UpdatePhase lower} {next : UpdateNext lower T}

theorem select_effect (h : select s l = some next) : UpdateEffect t s l next := by
  cases l with
  | presence id =>
      simp only [select] at h
      split at h <;> obtain rfl := Option.some.inj h
      · exact .refused _ trivial nofun
      · exact .refused _ trivial nofun
      · exact .moved _ trivial trivial rfl False.elim
  | finding id edit =>
      obtain rfl := Option.some.inj h
      exact .looked id edit rfl
  | checkUsername w =>
      simp only [select] at h
      split_ifs at h <;> obtain rfl := Option.some.inj h
      · exact .refused _ trivial fun _ _ _ => .inr (.inr ⟨id, .inr ⟨_, rfl⟩⟩)
      · exact .moved _ trivial trivial rfl id
  | checkEmail w =>
      simp only [select] at h
      split_ifs at h <;> obtain rfl := Option.some.inj h
      · exact .refused _ trivial fun _ _ _ => .inr (.inr ⟨id, .inr ⟨_, rfl⟩⟩)
      · exact .moved _ trivial trivial rfl fun _ => trivial
  | missed w =>
      simp only [select] at h
      split_ifs at h <;> obtain rfl := Option.some.inj h
      · refine .refused _ trivial fun _ _ hread => .inl ?_
        obtain ⟨rfl, -⟩ := Prod.mk.inj (Option.some.inj hread)
        rfl
      · refine .refused _ trivial fun _ _ hread => .inr (.inl ?_)
        obtain ⟨rfl, -⟩ := Prod.mk.inj (Option.some.inj hread)
        rfl
  | _ => cases h

theorem resume_effect {now : Int} (h : resume s now l = some next) : UpdateEffect t s l next := by
  cases l with
  | found id edit row =>
      cases row with
      | none =>
          obtain rfl := Option.some.inj h
          exact .refused _ trivial nofun
      | some base =>
          simp only [resume] at h
          split at h
          · rename_i error herror
            obtain rfl := Option.some.inj h
            exact .refused _ trivial fun _ _ _ => .inr (.inr ⟨not_false, .inl (compute_error herror)⟩)
          · rename_i user hcompute
            obtain rfl := Option.some.inj h
            cases edit with
            | profile username email => exact .moved _ trivial trivial rfl False.elim
            | status status => exact .moved _ trivial trivial rfl False.elim
            | password passwordHash => exact .moved _ trivial trivial rfl False.elim
  | _ => cases h

theorem execute_effect {violation : Option ConflictField} (h : execute s t violation l = some next) :
    UpdateEffect t s l next := by
  cases l with
  | updating w =>
      simp only [execute] at h
      split_ifs at h with hfree
      split at h
      · obtain rfl := Option.some.inj h
        exact .moved _ trivial trivial rfl id
      · rename_i model hmodel
        split_ifs at h with hversion
        · split at h
          · obtain rfl := Option.some.inj h
            exact .violated w model _ rfl hmodel hversion
          · obtain rfl := Option.some.inj h
            exact .updated w model rfl hfree hmodel hversion
        · obtain rfl := Option.some.inj h
          exact .moved _ trivial trivial rfl id
  | deleting id =>
      simp only [execute] at h
      split_ifs at h with hfree hmodel
      · obtain rfl := Option.some.inj h
        exact .removed id rfl hfree hmodel
      · obtain rfl := Option.some.inj h
        exact .refused _ trivial nofun
  | _ => cases h

theorem commit_holds (h : commit s t l = some next) : (∀ result, l ≠ .done result) ∧ l.holds ≠ none := by
  cases l with
  | committing w user revoked => simp [UpdatePhase.holds]
  | deleted id => simp [UpdatePhase.holds]
  | _ => simp [commit] at h

theorem updateStep_effect {act : UpdateAct} (h : updateStep lower t s l act = some next) :
    UpdateEffect t s l next := by
  cases act with
  | select => exact select_effect h
  | resume now => exact resume_effect h
  | execute violation => exact execute_effect h
  | update id username email =>
      cases l with
      | idle =>
          obtain rfl := Option.some.inj h
          exact .moved _ trivial trivial rfl False.elim
      | _ => cases h
  | changeStatus id status =>
      cases l with
      | idle =>
          obtain rfl := Option.some.inj h
          exact .moved _ trivial trivial rfl False.elim
      | _ => cases h
  | resetPassword id password =>
      cases l with
      | idle =>
          simp only [updateStep] at h
          split at h <;> obtain rfl := Option.some.inj h
          · exact .refused _ trivial nofun
          · exact .moved _ trivial trivial rfl False.elim
      | _ => cases h
  | delete id =>
      cases l with
      | idle =>
          obtain rfl := Option.some.inj h
          exact .moved _ trivial trivial rfl False.elim
      | _ => cases h
  | hashed passwordHash =>
      cases l with
      | hashing id =>
          obtain rfl := Option.some.inj h
          exact .moved _ trivial trivial rfl False.elim
      | _ => cases h
  | removeSessions =>
      cases l with
      | revoking w user =>
          obtain rfl := Option.some.inj h
          exact .revoked w user _ rfl
      | _ => cases h
  | commit ok =>
      simp only [updateStep] at h
      split at h
      · cases h
      · rename_i done hcommit
        split_ifs at h
        · obtain rfl := Option.some.inj h
          exact .committed _ hcommit
        · obtain rfl := Option.some.inj h
          obtain ⟨hopen, hold⟩ := commit_holds hcommit
          exact .aborted _ hopen (.inr hold)
  | fails =>
      have hopen : ∀ result, l ≠ .done result := by
        rintro result rfl
        simp [updateStep] at h
      simp only [updateStep] at h
      split at h
      · cases h
      · cases h
      · obtain rfl := Option.some.inj h
        exact .aborted _ hopen (.inl rfl)

end Phases

section Runs

variable {lower : String → String} {T : Type} [DecidableEq T] {t : T} {s : UpdateDb lower T}
variable {l : UpdatePhase lower} {next : UpdateNext lower T}

-- The history of every row is a chain that ends in the committed row.
def HistoryOk (s : UpdateDb lower T) : Prop :=
  ∀ id, LinearChain (s.commits id) ∧ findModel s.db id = lastRow (s.commits id)

-- What holds of a call at its await: the row it has read was committed, the row it holds is the
-- one it has read, and the commits with its name are its own success.
structure CallOk (t : T) (s : UpdateDb lower T) (l : UpdatePhase lower) : Prop where
  read : ∀ id base, l.read = some (id, base) → ∃ entry ∈ s.commits id, entry.row = some base
  holds : ∀ id, l.holds = some id → s.locks id = some t ∧ (findModel s.db id).isSome
  pending : ∀ w user, l.pending = some (w, user) →
    findModel s.db w.id = some w.base ∧ user = w.user.advanceVersion
  settled : ∀ w user, l = .done (.ok (some (w, user))) →
    .updated t w ∈ s.commits w.id ∧ user = w.user.advanceVersion
  own : ∀ id w, .updated t w ∈ s.commits id → w.id = id ∧ ∃ user, l = .done (.ok (some (w, user)))

-- What a call relies on while another one takes a step.
structure Keeps (t : T) (s s' : UpdateDb lower T) : Prop where
  held : ∀ id model, s.locks id = some t → findModel s.db id = some model →
    s'.locks id = some t ∧ findModel s'.db id = some model
  commits : ∀ id entry, entry ∈ s.commits id → entry ∈ s'.commits id
  own : ∀ id w, .updated t w ∈ s'.commits id → .updated t w ∈ s.commits id

omit [DecidableEq T] in
theorem pending_holds {w : Work lower} {user : User} (h : l.pending = some (w, user)) :
    l.holds = some w.id := by
  cases l with
  | revoking w' user' =>
      obtain ⟨rfl, -⟩ := Prod.mk.inj (Option.some.inj h)
      rfl
  | committing w' user' revoked =>
      obtain ⟨rfl, -⟩ := Prod.mk.inj (Option.some.inj h)
      rfl
  | _ => cases h

omit [DecidableEq T] in
theorem CallOk.stable {s' : UpdateDb lower T} (h : CallOk t s l) (hk : Keeps t s s') : CallOk t s' l where
  read id base hread := by
    obtain ⟨entry, he, hrow⟩ := h.read id base hread
    exact ⟨entry, hk.commits id entry he, hrow⟩
  holds id hid := by
    obtain ⟨hlock, hmodel⟩ := h.holds id hid
    obtain ⟨model, hmodel⟩ := Option.isSome_iff_exists.mp hmodel
    obtain ⟨hlock', hmodel'⟩ := hk.held id model hlock hmodel
    exact ⟨hlock', by rw [hmodel']; rfl⟩
  pending w user hw := by
    obtain ⟨hmodel, huser⟩ := h.pending w user hw
    have hlock := (h.holds w.id (pending_holds hw)).1
    exact ⟨(hk.held w.id w.base hlock hmodel).2, huser⟩
  settled w user hw := by
    obtain ⟨hmem, huser⟩ := h.settled w user hw
    exact ⟨hk.commits _ _ hmem, huser⟩
  own id w hmem := h.own id w (hk.own id w hmem)

omit [DecidableEq T] in
theorem findModel_replaceRow {db : Database T} {id : UserId} {row : UserModel} (hid : row.id = id)
    (key : UserId) : findModel (replaceRow db id row) key =
      if key = id then (findModel db id).map (fun _ => row) else findModel db key := by
  unfold findModel replaceRow
  rw [List.find?_map]
  by_cases hkey : key = id
  · subst hkey
    have hsame : (fun model : UserModel => decide ((if model.id = key then row else model).id = key)) =
        fun model => decide (model.id = key) := by
      funext model
      by_cases hm : model.id = key <;> simp [hm, hid]
    rw [if_pos rfl]
    simp only [Function.comp_def, hsame]
    cases hfind : db.users.find? fun model => decide (model.id = key) with
    | none => rfl
    | some model =>
        have hm : model.id = key := by simpa using List.find?_some hfind
        simp [hm]
  · have hsame : (fun model : UserModel => decide ((if model.id = id then row else model).id = key)) =
        fun model => decide (model.id = key) := by
      funext model
      by_cases hm : model.id = id
      · simp [hm, hid]
      · simp [hm]
    rw [if_neg hkey]
    simp only [Function.comp_def, hsame]
    cases hfind : db.users.find? fun model => decide (model.id = key) with
    | none => rfl
    | some model =>
        have hm : model.id = key := by simpa using List.find?_some hfind
        have hne : model.id ≠ id := hm ▸ hkey
        simp [hne]

-- A commit adds one entry to the history of one row.
structure Extended (s s' : UpdateDb lower T) (id : UserId) (entry : Commit lower T) : Prop where
  commits : s'.commits = Function.update s.commits id (entry :: s.commits id)
  rows : ∀ key, findModel s'.db key = if key = id then entry.row else findModel s.db key
  chain : LinearChain (entry :: s.commits id)

omit [DecidableEq T] in
theorem Extended.history {s' : UpdateDb lower T} {id : UserId} {entry : Commit lower T}
    (h : Extended s s' id entry) (hg : HistoryOk s) : HistoryOk s' := by
  intro key
  rw [h.rows, h.commits]
  by_cases hkey : key = id
  · subst hkey
    rw [if_pos rfl, Function.update_self]
    exact ⟨h.chain, rfl⟩
  · rw [if_neg hkey, Function.update_of_ne hkey]
    exact hg key

omit [DecidableEq T] in
theorem Extended.mem {s' : UpdateDb lower T} {id key : UserId} {entry other : Commit lower T}
    (h : Extended s s' id entry) :
    other ∈ s'.commits key ↔ key = id ∧ other = entry ∨ other ∈ s.commits key := by
  rw [h.commits]
  by_cases hkey : key = id
  · subst hkey
    simp [Function.update_self]
  · simp [hkey]

-- The others keep the rows that they hold when the row of the new entry is not one of them.
omit [DecidableEq T] in
theorem Extended.keeps {s' : UpdateDb lower T} {id : UserId} {entry : Commit lower T} {t' : T}
    (h : Extended s s' id entry) (hlocks : ∀ key, s.locks key = some t' → s'.locks key = some t')
    (hfree : ∀ model, s.locks id = some t' → findModel s.db id ≠ some model)
    (hother : ∀ w, entry ≠ .updated t' w) : Keeps t' s s' where
  held key model hlock hmodel := by
    refine ⟨hlocks key hlock, ?_⟩
    have hkey : key ≠ id := by
      rintro rfl
      exact hfree model hlock hmodel
    rw [h.rows, if_neg hkey]
    exact hmodel
  commits key other hmem := h.mem.mpr (.inr hmem)
  own key w hmem := by
    rcases h.mem.mp hmem with ⟨-, heq⟩ | hmem
    · exact absurd heq.symm (hother w)
    · exact hmem

theorem commit_spec (hg : HistoryOk s) (ho : CallOk t s l) (h : commit s t l = some next) :
    ∃ id entry, l.holds = some id ∧ Extended s next.1 id entry ∧ next.1.locks = (release s t).locks ∧
      ((∃ w user, entry = .updated t w ∧ w.id = id ∧ l.pending = some (w, user) ∧
          next.2 = .done (.ok (some (w, user)))) ∨
        entry = .deleted t ∧ next.2 = .done (.ok none)) := by
  cases l with
  | committing w user revoked =>
      obtain rfl := Option.some.inj h
      have hbase := (ho.pending w user rfl).1
      have hbid : w.base.id = w.id := findModel_id hbase
      have hid : w.row.id = w.id := hbid
      refine ⟨w.id, .updated t w, rfl, ⟨rfl, fun key => ?_, ?_, (hg w.id).1⟩, rfl,
        .inl ⟨w, user, rfl, rfl, rfl, rfl⟩⟩
      · have hrows : findModel (replaceRow s.db w.id w.row) key = _ := findModel_replaceRow hid key
        rw [hbase] at hrows
        exact hrows
      · exact (hg w.id).2.symm.trans hbase
  | deleted id =>
      obtain rfl := Option.some.inj h
      refine ⟨id, .deleted t, rfl, ⟨rfl, findModel_remove id, ?_, (hg id).1⟩, rfl, .inr ⟨rfl, rfl⟩⟩
      rw [← (hg id).2]
      exact (ho.holds id rfl).2
  | _ => cases h

-- A step commits, or it leaves the tables and the rows that others hold alone.
theorem effect_shared (h : UpdateEffect t s l next) :
    commit s t l = some next ∨ next.1.db = s.db ∧ next.1.commits = s.commits ∧
      ∀ id t', t' ≠ t → s.locks id = some t' → next.1.locks id = some t' := by
  have hacquire : ∀ id, available s t id = true → ∀ key t', t' ≠ t → s.locks key = some t' →
      (acquire s t id).locks key = some t' := by
    intro id hfree key t' hne hlock
    have hkey : key ≠ id := by
      rintro rfl
      simp [available, hlock, hne] at hfree
    simpa [acquire, Function.update_of_ne hkey] using hlock
  cases h with
  | moved => exact .inr ⟨rfl, rfl, fun _ _ _ hlock => hlock⟩
  | looked => exact .inr ⟨rfl, rfl, fun _ _ _ hlock => hlock⟩
  | refused => exact .inr ⟨rfl, rfl, fun _ _ _ hlock => hlock⟩
  | violated => exact .inr ⟨rfl, rfl, fun _ _ _ hlock => hlock⟩
  | revoked => exact .inr ⟨rfl, rfl, fun _ _ _ hlock => hlock⟩
  | updated w model hl hfree => exact .inr ⟨rfl, rfl, hacquire w.id hfree⟩
  | removed id hl hfree => exact .inr ⟨rfl, rfl, hacquire id hfree⟩
  | aborted =>
      refine .inr ⟨rfl, rfl, fun id t' hne hlock => ?_⟩
      simp [raiseUpdate, release, hlock, hne]
  | committed _ hcommit => exact .inl hcommit

theorem effect_history (hg : HistoryOk s) (ho : CallOk t s l) (h : UpdateEffect t s l next) :
    HistoryOk next.1 := by
  rcases effect_shared h with hcommit | ⟨hdb, hcommits, -⟩
  · obtain ⟨id, entry, -, hx, -⟩ := commit_spec hg ho hcommit
    exact hx.history hg
  · intro key
    rw [hdb, hcommits]
    exact hg key

theorem effect_keeps (hg : HistoryOk s) (ho : CallOk t s l) (h : UpdateEffect t s l next) {t' : T}
    (hne : t' ≠ t) : Keeps t' s next.1 := by
  rcases effect_shared h with hcommit | ⟨hdb, hcommits, hlocks⟩
  · obtain ⟨id, entry, hid, hx, hrelease, hentry⟩ := commit_spec hg ho hcommit
    apply hx.keeps
    · intro key hlock
      rw [hrelease]
      simp [release, hlock, hne]
    · intro model hlock
      rw [(ho.holds id hid).1] at hlock
      exact absurd (Option.some.inj hlock).symm hne
    · intro w heq
      rcases hentry with ⟨w', -, rfl, -⟩ | ⟨rfl, -⟩
      · cases heq
        exact hne rfl
      · cases heq
  · refine ⟨fun id model hlock hmodel => ⟨hlocks id t' hne hlock, by rw [hdb]; exact hmodel⟩, ?_, ?_⟩
    · intro id entry hmem
      rwa [hcommits]
    · intro id w hmem
      rwa [hcommits] at hmem

omit [DecidableEq T] in
theorem CallOk.fresh (h : CallOk t s l) (hopen : ∀ result, l ≠ .done result) (id : UserId)
    (w : Work lower) : .updated t w ∉ s.commits id := by
  intro hmem
  obtain ⟨-, user, hdone⟩ := h.own id w hmem
  exact hopen _ hdone

omit [DecidableEq T] in
theorem open_not_done (h : l.Open) (result : Except UserError (Option (Work lower × User))) :
    l ≠ .done result := by
  rintro rfl
  exact h

omit [DecidableEq T] in
theorem callOk_open (hopen : l.Open)
    (hread : ∀ id base, l.read = some (id, base) → ∃ entry ∈ s.commits id, entry.row = some base)
    (hfresh : ∀ id w, .updated t w ∉ s.commits id) : CallOk t s l where
  read := hread
  holds id hid := by cases l <;> first | exact hopen.elim | cases hid
  pending w user hw := by cases l <;> first | exact hopen.elim | cases hw
  settled w user hw := absurd hw (open_not_done hopen _)
  own id w hmem := absurd hmem (hfresh id w)

omit [DecidableEq T] in
theorem callOk_raise (error : UserError) (hfresh : ∀ id w, .updated t w ∉ s.commits id) :
    CallOk t s (.done (.error error) : UpdatePhase lower) where
  read := by simp [UpdatePhase.read]
  holds := by simp [UpdatePhase.holds]
  pending := by simp [UpdatePhase.pending]
  settled := by simp
  own id w hmem := absurd hmem (hfresh id w)

omit [DecidableEq T] in
-- The row that an UPDATE matches is the one that the call has read.
theorem matches_base (hg : HistoryOk s) {w : Work lower} (ho : CallOk t s (.updating w)) {model : UserModel}
    (hmodel : findModel s.db w.id = some model) (hm : matchesVersion w.user model = true) :
    model = w.base := by
  obtain ⟨entry, he, hrow⟩ := ho.read w.id w.base rfl
  obtain ⟨hchain, hlast⟩ := hg w.id
  refine chain_unique hchain he hrow (hlast.symm.trans hmodel) ?_
  simp only [matchesVersion, decide_eq_true_eq] at hm
  rw [hm.2, (compute_spec w.computed).2]

omit [DecidableEq T] in
theorem callOk_held {w : Work lower} {user : User} (hr : l.read = some (w.id, w.base))
    (hh : l.holds = some w.id) (hp : l.pending = some (w, user)) (hopen : ∀ result, l ≠ .done result)
    (hread : ∃ entry ∈ s.commits w.id, entry.row = some w.base) (hlock : s.locks w.id = some t)
    (hbase : findModel s.db w.id = some w.base) (huser : user = w.user.advanceVersion)
    (hfresh : ∀ id w, .updated t w ∉ s.commits id) : CallOk t s l where
  read id base h := by
    obtain ⟨rfl, rfl⟩ := Prod.mk.inj (Option.some.inj (hr.symm.trans h))
    exact hread
  holds id h := by
    obtain rfl := Option.some.inj (hh.symm.trans h)
    exact ⟨hlock, by rw [hbase]; rfl⟩
  pending w' user' h := by
    obtain ⟨rfl, rfl⟩ := Prod.mk.inj (Option.some.inj (hp.symm.trans h))
    exact ⟨hbase, huser⟩
  settled w' user' h := absurd h (hopen _)
  own id w' hmem := absurd hmem (hfresh id w')

omit [DecidableEq T] in
theorem afterUpdate_spec (w : Work lower) (user : User) :
    (afterUpdate w user).read = some (w.id, w.base) ∧ (afterUpdate w user).holds = some w.id ∧
      (afterUpdate w user).pending = some (w, user) ∧ ∀ result, afterUpdate w user ≠ .done result := by
  unfold afterUpdate
  split
  · exact ⟨rfl, rfl, rfl, by simp⟩
  · split_ifs
    · exact ⟨rfl, rfl, rfl, by simp⟩
    · exact ⟨rfl, rfl, rfl, by simp⟩
  · exact ⟨rfl, rfl, rfl, by simp⟩

theorem commit_ok (hg : HistoryOk s) (ho : CallOk t s l) (h : commit s t l = some next) :
    CallOk t next.1 next.2 := by
  obtain ⟨id, entry, -, hx, -, hentry⟩ := commit_spec hg ho h
  -- the new entry is the only one with the name of the call
  have hown : ∀ key w, .updated t w ∈ next.1.commits key → key = id ∧ .updated t w = entry :=
    fun key w hmem => (hx.mem.mp hmem).resolve_right (ho.fresh (commit_holds h).1 key w)
  rcases hentry with ⟨w, user, rfl, rfl, hp, hl⟩ | ⟨rfl, hl⟩
  · rw [hl]
    refine ⟨by simp [UpdatePhase.read], by simp [UpdatePhase.holds], by simp [UpdatePhase.pending], ?_, ?_⟩
    · intro w' user' hdone
      simp only [UpdatePhase.done.injEq, Except.ok.injEq, Option.some.injEq, Prod.mk.injEq] at hdone
      obtain ⟨rfl, rfl⟩ := hdone
      exact ⟨hx.mem.mpr (.inl ⟨rfl, rfl⟩), (ho.pending w user hp).2⟩
    · intro key w' hmem
      obtain ⟨rfl, heq⟩ := hown key w' hmem
      simp only [Commit.updated.injEq, true_and] at heq
      subst heq
      exact ⟨rfl, user, rfl⟩
  · rw [hl]
    refine ⟨by simp [UpdatePhase.read], by simp [UpdatePhase.holds], by simp [UpdatePhase.pending],
      by simp, ?_⟩
    intro key w' hmem
    obtain ⟨-, heq⟩ := hown key w' hmem
    cases heq

theorem effect_ok (hg : HistoryOk s) (ho : CallOk t s l) (h : UpdateEffect t s l next) :
    CallOk t next.1 next.2 := by
  cases h with
  | moved l' hopen hopen' hread =>
      exact callOk_open hopen' (hread ▸ ho.read) (ho.fresh (open_not_done hopen))
  | looked id edit hl =>
      subst hl
      refine callOk_open trivial ?_ (ho.fresh (open_not_done trivial))
      intro id' base hread
      cases hfind : findModel s.db id with
      | none => simp [UpdatePhase.read, hfind] at hread
      | some row =>
          simp only [UpdatePhase.read, hfind, Option.some.injEq, Prod.mk.injEq] at hread
          obtain ⟨rfl, rfl⟩ := hread
          exact lastRow_mem ((hg id).2.symm.trans hfind)
  | refused error hopen => exact callOk_raise error (ho.fresh (open_not_done hopen))
  | violated w model error hl =>
      subst hl
      exact callOk_raise error (ho.fresh (open_not_done trivial))
  | aborted error hopen => exact callOk_raise error (ho.fresh hopen)
  | updated w model hl hfree hmodel hversion =>
      subst hl
      obtain rfl := matches_base hg ho hmodel hversion
      obtain ⟨hr, hh, hp, hopen⟩ := afterUpdate_spec w w.user.advanceVersion
      exact callOk_held hr hh hp hopen (ho.read w.id w.base rfl) (Function.update_self _ _ _) hmodel rfl
        (ho.fresh (open_not_done trivial))
  | removed id hl hfree hmodel =>
      subst hl
      have hfresh := ho.fresh (open_not_done trivial)
      refine ⟨by simp [UpdatePhase.read], ?_, by simp [UpdatePhase.pending], by simp,
        fun key w hmem => absurd hmem (hfresh key w)⟩
      intro key hkey
      obtain rfl := Option.some.inj hkey
      exact ⟨Function.update_self _ _ _, hmodel⟩
  | revoked w user digests hl =>
      subst hl
      obtain ⟨hbase, huser⟩ := ho.pending w user rfl
      exact callOk_held rfl rfl rfl (by simp) (ho.read w.id w.base rfl) (ho.holds w.id rfl).1 hbase huser
        (ho.fresh (by simp))
  | committed _ hcommit => exact commit_ok hg ho hcommit

-- A created row starts a history, and the other events leave the rows alone.
omit [DecidableEq T] in
theorem env_spec {s' : UpdateDb lower T} {event : UpdateEvent T} (h : updateEnv s event = some s') :
    s'.locks = s.locks ∧
      ((∃ id row, findModel s.db id = none ∧ Extended s s' id (.created row)) ∨
        s'.commits = s.commits ∧ ∀ id, findModel s'.db id = findModel s.db id) := by
  cases event with
  | create id username email passwordHash now =>
      simp only [updateEnv] at h
      split_ifs at h with hnew
      split at h
      · cases h
      · rename_i db hadd
        obtain rfl := Option.some.inj h
        obtain ⟨hnone, rfl⟩ := addUser_spec hadd
        refine ⟨rfl,
          .inl ⟨id, userToModel (.create id username email passwordHash now), hnone, rfl, ?_, ?_⟩⟩
        · intro key
          exact findModel_add hnone
        · exact ⟨List.isEmpty_iff.mp hnew, rfl⟩
  | sessions sessions =>
      obtain rfl := Option.some.inj h
      exact ⟨rfl, .inr ⟨rfl, fun id => rfl⟩⟩

omit [DecidableEq T] in
theorem env_history {s' : UpdateDb lower T} {event : UpdateEvent T} (hg : HistoryOk s)
    (h : updateEnv s event = some s') : HistoryOk s' := by
  obtain ⟨-, ⟨id, row, -, hx⟩ | ⟨hcommits, hrows⟩⟩ := env_spec h
  · exact hx.history hg
  · intro id
    rw [hcommits, hrows]
    exact hg id

omit [DecidableEq T] in
theorem env_keeps {s' : UpdateDb lower T} {event : UpdateEvent T} (h : updateEnv s event = some s') :
    Keeps t s s' := by
  obtain ⟨hlocks, ⟨id, row, hnone, hx⟩ | ⟨hcommits, hrows⟩⟩ := env_spec h
  · apply hx.keeps
    · intro key hlock
      rw [hlocks, hlock]
    · intro model _
      simp [hnone]
    · simp
  · refine ⟨fun id model hlock hmodel => ⟨by rw [hlocks, hlock], by rw [hrows, hmodel]⟩, ?_, ?_⟩
    · intro id entry hmem
      rwa [hcommits]
    · intro id w hmem
      rwa [hcommits] at hmem

def updateDiscipline (lower : String → String) (T : Type) [DecidableEq T] :
    Pool.Discipline (updateStep (T := T) lower) updateEnv where
  good := HistoryOk
  ok := CallOk
  rely := Keeps
  stable _ _ _ _ hk ho := ho.stable hk
  task_good _ _ _ _ _ _ hg ho h := effect_history hg ho (updateStep_effect h)
  task_ok _ _ _ _ _ _ hg ho h := effect_ok hg ho (updateStep_effect h)
  task_rely _ _ _ _ _ _ hg ho h _ hne := effect_keeps hg ho (updateStep_effect h) hne
  env_good _ _ _ hg h := env_history hg h
  env_rely _ _ _ _ h _ := env_keeps h

variable {p q r : UpdatePool lower T} {id : UserId} {base : UserModel}

def UpdateInv (p : UpdatePool lower T) : Prop := (updateDiscipline lower T).Inv p

theorem updateInv_init : UpdateInv (.init lower T) := by
  refine ⟨fun id => ⟨trivial, rfl⟩, fun t => callOk_open trivial ?_ ?_⟩
  · simp [UpdatePool.init, UpdatePhase.read]
  · simp [UpdatePool.init]

omit [DecidableEq T] in
theorem Extended.grows {s' : UpdateDb lower T} {entry : Commit lower T} (h : Extended s s' id entry)
    (key : UserId) : ∃ new, s'.commits key = new ++ s.commits key := by
  rw [h.commits]
  by_cases hkey : key = id
  · subst hkey
    exact ⟨[entry], Function.update_self _ _ _⟩
  · exact ⟨[], Function.update_of_ne hkey _ _⟩

-- Histories only grow.
theorem step_grows (p : UpdatePool lower T) (act : (T × UpdateAct) ⊕ UpdateEvent T) (q : UpdatePool lower T)
    (hi : UpdateInv p) (h : updatePoolStep lower p act = some q) (id : UserId) :
    ∃ new, q.shared.commits id = new ++ p.shared.commits id := by
  obtain ⟨t, act⟩ | event := act
  · obtain ⟨s, l, hl, rfl⟩ := Pool.step_task h
    rcases effect_shared (updateStep_effect hl) with hcommit | ⟨-, hcommits, -⟩
    · obtain ⟨key, entry, -, hx, -⟩ := commit_spec hi.1 (hi.2 t) hcommit
      exact hx.grows id
    · exact ⟨[], congrFun hcommits id⟩
  · obtain ⟨s, hs, rfl⟩ := Pool.step_env h
    obtain ⟨-, ⟨key, row, -, hx⟩ | ⟨hcommits, -⟩⟩ := env_spec hs
    · exact hx.grows id
    · exact ⟨[], congrFun hcommits id⟩

theorem grows_of_reaches (hi : UpdateInv p) (h : Reaches (updatePoolStep lower) p q) :
    ∀ id, ∃ new, q.shared.commits id = new ++ p.shared.commits id := by
  refine h.relation (updateDiscipline lower T).inv_step hi (fun s id => ⟨[], rfl⟩) ?_ step_grows
  intro s t u hst htu id
  obtain ⟨first, hfirst⟩ := hst id
  obtain ⟨second, hsecond⟩ := htu id
  exact ⟨second ++ first, by rw [hsecond, hfirst, List.append_assoc]⟩

-- A commit has followed the one that left the row.
def Overtaken (s : UpdateDb lower T) (id : UserId) (base : UserModel) : Prop :=
  ∃ new old, s.commits id = new ++ old ∧ new ≠ [] ∧ ∃ entry ∈ old, entry.row = some base

omit [DecidableEq T] in
theorem Overtaken.grow {s' : UpdateDb lower T} (h : Overtaken s id base)
    (hgrow : ∃ new, s'.commits id = new ++ s.commits id) : Overtaken s' id base := by
  obtain ⟨new, old, hcommits, hnew, hentry⟩ := h
  obtain ⟨first, hfirst⟩ := hgrow
  refine ⟨first ++ new, old, by rw [hfirst, hcommits, List.append_assoc], ?_, hentry⟩
  simp [hnew]

omit [DecidableEq T] in
theorem Overtaken.version_lt (h : Overtaken s id base) (hg : HistoryOk s) {model : UserModel}
    (hmodel : findModel s.db id = some model) : base.version < model.version := by
  obtain ⟨new, old, hcommits, hnew, entry, he, hrow⟩ := h
  obtain ⟨hchain, hlast⟩ := hg id
  rw [hcommits] at hchain hlast
  exact chain_overtaken new hchain hnew he hrow (hlast.symm.trans hmodel)

omit [DecidableEq T] in
theorem Overtaken.not_matches (h : Overtaken s id base) (hg : HistoryOk s) {w : Work lower}
    {model : UserModel} (hid : w.id = id) (hbase : w.base = base)
    (hmodel : findModel s.db w.id = some model) : matchesVersion w.user model = false := by
  subst hid hbase
  have hlt := h.version_lt hg hmodel
  have hversion := (compute_spec w.computed).2
  by_contra hm
  simp only [matchesVersion, Bool.not_eq_false, decide_eq_true_eq] at hm
  omega

-- A call that has lost: it still holds the overtaken row in its hands, or it has raised.
def Losing (id : UserId) (base : UserModel) (checked : Prop) (l : UpdatePhase lower) : Prop :=
  (l.Open ∧ l.read = some (id, base) ∧ (checked → l.Checked)) ∨
    ∃ error, l = .done (.error error) ∧ (error ≠ .raised → Refusal id checked error)

omit [DecidableEq T] in
theorem open_holds (h : l.Open) : l.holds = none := by
  cases l <;> first | exact h.elim | rfl

theorem effect_not_done (h : UpdateEffect t s l next) : ∀ result, l ≠ .done result := by
  cases h with
  | moved l' hopen => exact open_not_done hopen
  | refused error hopen => exact open_not_done hopen
  | aborted error hopen => exact hopen
  | committed _ hcommit => exact (commit_holds hcommit).1
  | looked id edit hl => simp [hl]
  | violated w model error hl => simp [hl]
  | updated w model hl => simp [hl]
  | removed id hl => simp [hl]
  | revoked w user digests hl => simp [hl]

omit [DecidableEq T] in
theorem Refusal.weaken {checked : Prop} {error : UserError} (h : Refusal id l.Checked error)
    (hc : checked → l.Checked) : Refusal id checked error := by
  rcases h with h | h | ⟨hn, h⟩
  · exact .inl h
  · exact .inr (.inl h)
  · exact .inr (.inr ⟨fun hchecked => hn (hc hchecked), h⟩)

-- The UPDATE of an overtaken call matches no row, so the call never holds one and changes nothing.
theorem losing_effect {checked : Prop} (hg : HistoryOk s) (hover : Overtaken s id base)
    (hlose : Losing id base checked l) (h : UpdateEffect t s l next) :
    Losing id base checked next.2 ∧ next.1.db = s.db ∧ next.1.commits = s.commits := by
  rcases hlose with ⟨hopen, hread, hchecked⟩ | ⟨error, hdone, -⟩
  · have hnomatch : ∀ w model, l = .updating w → findModel s.db w.id = some model →
        matchesVersion w.user model = false := by
      rintro w model rfl hmodel
      obtain ⟨hid, hbase⟩ := Prod.mk.inj (Option.some.inj hread)
      exact hover.not_matches hg hid hbase hmodel
    cases h with
    | moved l' _ hopen' hread' hchecked' =>
        exact ⟨.inl ⟨hopen', hread'.trans hread, fun hc => hchecked' (hchecked hc)⟩, rfl, rfl⟩
    | looked id' edit hl =>
        subst hl
        cases hread
    | refused error _ hrefusal =>
        exact ⟨.inr ⟨error, rfl, fun _ => (hrefusal id base hread).weaken hchecked⟩, rfl, rfl⟩
    | violated w model error hl hmodel hversion => simp [hnomatch w model hl hmodel] at hversion
    | aborted error _ cause =>
        have hraised : error = .raised := cause.resolve_right fun hheld => hheld (open_holds hopen)
        exact ⟨.inr ⟨error, rfl, fun hne => absurd hraised hne⟩, rfl, rfl⟩
    | updated w model hl _ hmodel hversion => simp [hnomatch w model hl hmodel] at hversion
    | removed id' hl =>
        subst hl
        cases hread
    | revoked w user digests hl =>
        subst hl
        exact hopen.elim
    | committed _ hcommit => exact absurd (open_holds hopen) (commit_holds hcommit).2
  · exact absurd hdone (effect_not_done h _)

theorem losing_step {checked : Prop} (p : UpdatePool lower T) (act : (T × UpdateAct) ⊕ UpdateEvent T)
    (q : UpdatePool lower T)
    (hp : UpdateInv p ∧ Overtaken p.shared id base ∧ Losing id base checked (p.loc t))
    (h : updatePoolStep lower p act = some q) :
    UpdateInv q ∧ Overtaken q.shared id base ∧ Losing id base checked (q.loc t) := by
  obtain ⟨hi, hover, hlose⟩ := hp
  refine ⟨(updateDiscipline lower T).inv_step _ _ _ hi h, hover.grow (step_grows _ _ _ hi h id), ?_⟩
  obtain ⟨t', act⟩ | event := act
  · obtain ⟨s, l, hl, rfl⟩ := Pool.step_task h
    by_cases ht : t = t'
    · subst ht
      rw [Pool.move_loc_self]
      exact (losing_effect hi.1 hover hlose (updateStep_effect hl)).1
    · rw [Pool.move_loc_ne _ _ _ ht]
      exact hlose
  · obtain ⟨s, hs, rfl⟩ := Pool.step_env h
    exact hlose

-- A call in flight that a commit has overtaken is one that has lost.
theorem losing_of_overtaken (hi : UpdateInv p) (hread : (p.loc t).read = some (id, base))
    (hover : Overtaken p.shared id base) : Losing id base (p.loc t).Checked (p.loc t) := by
  refine .inl ⟨?_, hread, fun hc => hc⟩
  have hheld : ∀ w user, (p.loc t).pending = some (w, user) → w.id = id → w.base ≠ base := by
    rintro w user hw rfl rfl
    have hlt := hover.version_lt hi.1 ((hi.2 t).pending w user hw).1
    omega
  cases hl : p.loc t with
  | revoking w user =>
      rw [hl] at hread hheld
      obtain ⟨hid, hbase⟩ := Prod.mk.inj (Option.some.inj hread)
      exact hheld w user rfl hid hbase
  | committing w user revoked =>
      rw [hl] at hread hheld
      obtain ⟨hid, hbase⟩ := Prod.mk.inj (Option.some.inj hread)
      exact hheld w user rfl hid hbase
  | deleted id' =>
      rw [hl] at hread
      cases hread
  | done result =>
      rw [hl] at hread
      cases hread
  | _ => trivial

theorem no_lost_update (hp : Reaches (updatePoolStep lower) (.init lower T) p) :
    -- the committed states of a row form a chain that ends in the stored row
    (∀ id, LinearChain (p.shared.commits id) ∧
      findModel p.shared.db id = lastRow (p.shared.commits id)) ∧
    (∀ id model, findModel p.shared.db id = some model →
      model.version = 1 + updates (p.shared.commits id)) ∧
    -- its updates are the successes of the calls
    (∀ t id w, .updated t w ∈ p.shared.commits id ↔
      w.id = id ∧ ∃ user, p.loc t = .done (.ok (some (w, user)))) ∧
    -- the aggregate has the version of the row that its call has written
    (∀ t w user, (p.loc t).pending = some (w, user) ∨ p.loc t = .done (.ok (some (w, user))) →
      user.version = w.row.version ∧ w.row.version = w.base.version + 1) ∧
    -- a call whose read was overtaken raises and changes nothing
    (∀ t id base, (p.loc t).read = some (id, base) →
      ∀ q, Reaches (updatePoolStep lower) p q → (q.loc t).read = some (id, base) →
        q.shared.commits id ≠ p.shared.commits id → ∀ r, Reaches (updatePoolStep lower) q r →
          (∀ outcome, r.loc t ≠ .done (.ok outcome)) ∧
          (∀ error, r.loc t = .done (.error error) → error ≠ .raised →
            Refusal id (q.loc t).Checked error) ∧
          ∀ act s, updatePoolStep lower r (.inl (t, act)) = some s →
            s.shared.db = r.shared.db ∧ s.shared.commits = r.shared.commits) := by
  have hi : UpdateInv p := (updateDiscipline lower T).inv_reaches hp updateInv_init
  refine ⟨hi.1, fun id model hmodel => ?_, fun t id w => ⟨(hi.2 t).own id w, ?_⟩, fun t w user hw => ?_, ?_⟩
  · exact chain_version (hi.1 id).1 ((hi.1 id).2.symm.trans hmodel)
  · rintro ⟨rfl, user, hdone⟩
    exact ((hi.2 t).settled w user hdone).1
  · have huser : user = w.user.advanceVersion := by
      rcases hw with hw | hw
      · exact ((hi.2 t).pending w user hw).2
      · exact ((hi.2 t).settled w user hw).2
    rw [huser]
    exact ⟨rfl, w.row_version⟩
  · intro t id base hread q hq hread' hne r hr
    have hiq : UpdateInv q := (updateDiscipline lower T).inv_reaches hq hi
    have hover : Overtaken q.shared id base := by
      obtain ⟨new, hnew⟩ := grows_of_reaches hi hq id
      refine ⟨new, p.shared.commits id, hnew, ?_, (hi.2 t).read id base hread⟩
      rintro rfl
      exact hne hnew
    obtain ⟨hir, hover', hlose⟩ :=
      hr.invariant losing_step ⟨hiq, hover, losing_of_overtaken hiq hread' hover⟩
    refine ⟨?_, ?_, ?_⟩
    · intro outcome hdone
      rcases hlose with ⟨hopen, -⟩ | ⟨error, herror, -⟩
      · exact open_not_done hopen _ hdone
      · rw [hdone] at herror
        cases herror
    · intro error hdone hraised
      rcases hlose with ⟨hopen, -⟩ | ⟨error', herror, hrefusal⟩
      · exact absurd hdone (open_not_done hopen _)
      · simp only [hdone, UpdatePhase.done.injEq, Except.error.injEq] at herror
        subst herror
        exact hrefusal hraised
    · intro act s hs
      obtain ⟨s', l, hl, rfl⟩ := Pool.step_task hs
      exact (losing_effect hir.1 hover' hlose (updateStep_effect hl)).2

end Runs

def aliceName : Username := ⟨"alice", by decide⟩

def aliceEmail : EmailAddress := ⟨"a@b.co", by decide⟩

-- A status change reads the row of a user, then a password reset of the user commits: the status
-- change never succeeds, although it has not issued its UPDATE yet.
theorem no_lost_update_reset : ∃ p q : UpdatePool asciiLower Nat,
    Reaches (updatePoolStep asciiLower) (.init asciiLower Nat) p ∧ Reaches (updatePoolStep asciiLower) p q ∧
      (q.loc 1).read = (p.loc 1).read ∧ (q.shared.commits 7).length = 2 ∧
      ∀ r, Reaches (updatePoolStep asciiLower) q r → ∀ outcome, r.loc 1 ≠ .done (.ok outcome) := by
  let before : List ((Nat × UpdateAct) ⊕ UpdateEvent Nat) :=
    [.inr (.create 7 aliceName aliceEmail ⟨"old", by decide⟩ 1), .inl (1, .changeStatus 7 .disabled),
      .inl (1, .select)]
  let reset : List ((Nat × UpdateAct) ⊕ UpdateEvent Nat) :=
    [.inl (2, .resetPassword 7 "password"), .inl (2, .select), .inl (2, .hashed ⟨"new", by decide⟩),
      .inl (2, .select), .inl (2, .resume 2), .inl (2, .execute none), .inl (2, .removeSessions),
      .inl (2, .commit true)]
  refine ⟨_, _, ⟨before, rfl⟩, ⟨reset, rfl⟩, rfl, rfl, fun r hr => ?_⟩
  have hmore : ∀ {new old : List (Commit asciiLower Nat)}, new.length = 2 → old.length = 1 → new ≠ old := by
    rintro new old hnew hold rfl
    omega
  exact ((no_lost_update ⟨before, rfl⟩).2.2.2.2 1 7 _ rfl _ ⟨reset, rfl⟩ rfl (hmore rfl rfl) r hr).1

end Scaffold.Users
