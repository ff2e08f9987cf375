import Scaffold.Users.Sessions

namespace Scaffold.Users

open Machine
open Raising (bind_ok)

variable {T : Type} {config : AuthConfig} {db next : Database T} {v : T → Option PasswordHash}

-- Every session belongs to an active user whose password its login has verified.
def SessionsOk (db : Database T) (v : T → Option PasswordHash) : Prop :=
  ∀ x ∈ db.sessions, ∃ model, findModel db x.row.userId = some model ∧ model.status = .active ∧
    v x.login = some model.password

theorem SessionsOk.subset (h : SessionsOk db v) {sessions : List (StoredSession T)}
    (hsub : ∀ x ∈ sessions, x ∈ db.sessions) : SessionsOk { db with sessions := sessions } v :=
  fun x hx => h x (hsub x hx)

theorem find_id {id : UserId} {user : User} (h : find db id = .ok (some user)) : user.id = id := by
  obtain ⟨model, hmodel, huser⟩ := find_spec h
  exact (userToDomain_spec huser).1.trans (findModel_id hmodel)

-- The update of a user keeps the sessions that it leaves, provided that the row of an active
-- user with a session left keeps its status and its password.
theorem SessionsOk.update (h : SessionsOk db v) (user : User) (sessions : List (StoredSession T))
    (hsub : ∀ x ∈ sessions, x ∈ db.sessions)
    (hkeep : ∀ x ∈ sessions, x.row.userId = user.id → ∀ model, findModel db user.id = some model →
      model.status = .active → user.status = .active ∧ user.passwordHash = model.password) :
    SessionsOk { (updateUser db user).1 with sessions := sessions } v := by
  intro x hx
  obtain ⟨model, hmodel, hstatus, hverified⟩ := h x (hsub x hx)
  have hfind : findModel (updateUser db user).1 x.row.userId =
      some (if matchesVersion user model then userUpdateValues user model else model) := by
    rw [findModel_update, hmodel]
    rfl
  refine ⟨_, hfind, ?_⟩
  by_cases hm : matchesVersion user model = true
  · have hid : model.id = user.id := by
      simp only [matchesVersion, decide_eq_true_eq] at hm
      exact hm.1
    have huser : x.row.userId = user.id := (findModel_id hmodel).symm.trans hid
    obtain ⟨hactive, hpassword⟩ := hkeep x hx huser model (huser ▸ hmodel) hstatus
    simp only [hm, if_true]
    exact ⟨hactive, hverified.trans (congrArg some hpassword.symm)⟩
  · simp only [hm]
    exact ⟨hstatus, hverified⟩

theorem createTx_ok {user : User} (h : SessionsOk db v) (hw : createTx db user = .ok next) :
    SessionsOk next v := by
  obtain ⟨-, -, hadd⟩ := bind_ok hw
  obtain ⟨hnone, rfl⟩ := addUser_spec hadd
  intro x hx
  obtain ⟨model, hmodel, hrest⟩ := h x hx
  refine ⟨model, ?_, hrest⟩
  rw [findModel_add hnone]
  have hne : x.row.userId ≠ user.id := by
    intro hid
    simp [hid, hnone] at hmodel
  simpa [hne] using hmodel

-- A session is stored only for the account that the login has verified.
theorem loginTx_spec {t : T} {snapshot : User} {now : Int} {digest : String}
    (hw : loginTx config db t snapshot now digest = .ok next) :
    ∃ current x, find db snapshot.id = .ok (some current) ∧ current.status = .active ∧
      current.passwordHash = snapshot.passwordHash ∧ x.login = t ∧ x.row.userId = current.id ∧
      next = { removeExpired db now with sessions := (removeExpired db now).sessions ++ [x] } := by
  obtain ⟨found, hfound, hw⟩ := bind_ok hw
  cases found with
  | none => cases hw
  | some current =>
      simp only at hw
      split_ifs at hw with hcheck
      unfold addSession at hw
      split_ifs at hw
      obtain rfl := Except.ok.inj hw
      simp only [not_or, ne_eq, not_not] at hcheck
      exact ⟨current, _, hfound, hcheck.1, hcheck.2.1, rfl, rfl, rfl⟩

theorem loginTx_ok {t : T} {snapshot : User} {now : Int} {digest : String} (h : SessionsOk db v)
    (hv : v t = some snapshot.passwordHash)
    (hw : loginTx config db t snapshot now digest = .ok next) : SessionsOk next v := by
  obtain ⟨current, x, hfind, hactive, hpassword, hlogin, hid, rfl⟩ := loginTx_spec hw
  obtain ⟨model, hmodel, huser⟩ := find_spec hfind
  obtain ⟨hcid, -, -, hcpassword, hcstatus, -⟩ := userToDomain_spec huser
  intro y hy
  rcases List.mem_append.mp hy with hy | hy
  · exact h y (List.mem_filter.mp hy).1
  · rw [List.mem_singleton.mp hy]
    refine ⟨model, ?_, hcstatus ▸ hactive, ?_⟩
    · have hsame : x.row.userId = snapshot.id := by rw [hid, hcid, findModel_id hmodel]
      rw [hsame]
      exact hmodel
    · rw [hlogin, hv, ← hpassword, hcpassword]

theorem updateTx_spec {id : UserId} {username email : String} {now : Int}
    (hw : updateTx config db id username email now = .ok next) :
    ∃ user changed, find db id = .ok (some user) ∧
      user.updateProfile config.lower username email now = .ok changed ∧
      next = (updateUser db changed).1 := by
  obtain ⟨found, hfound, hw⟩ := bind_ok hw
  cases found with
  | none => cases hw
  | some user =>
      obtain ⟨changed, hchanged, hw⟩ := bind_ok hw
      obtain ⟨-, -, hw⟩ := bind_ok hw
      obtain ⟨-, -, hw⟩ := bind_ok hw
      exact ⟨user, changed, hfound, hchanged, (Except.ok.inj hw).symm⟩

theorem changeStatusTx_spec {id : UserId} {status : UserStatus} {now : Int}
    (hw : changeStatusTx db id status now = .ok next) :
    ∃ user, find db id = .ok (some user) ∧
      next = if status = .disabled then removeForUser (updateUser db (user.changeStatus status now)).1 id
        else (updateUser db (user.changeStatus status now)).1 := by
  obtain ⟨found, hfound, hw⟩ := bind_ok hw
  cases found with
  | none => cases hw
  | some user =>
      obtain ⟨-, -, hw⟩ := bind_ok hw
      refine ⟨user, hfound, ?_⟩
      have hstatus : (user.changeStatus status now).status = status := rfl
      rw [hstatus] at hw
      split_ifs at hw ⊢ <;> exact (Except.ok.inj hw).symm

theorem resetPasswordTx_spec {id : UserId} {passwordHash : PasswordHash} {now : Int}
    (hw : resetPasswordTx db id passwordHash now = .ok next) :
    ∃ user, find db id = .ok (some user) ∧
      next = removeForUser (updateUser db (user.resetPassword passwordHash now)).1 id := by
  obtain ⟨found, hfound, hw⟩ := bind_ok hw
  cases found with
  | none => cases hw
  | some user =>
      obtain ⟨-, -, hw⟩ := bind_ok hw
      exact ⟨user, hfound, (Except.ok.inj hw).symm⟩

theorem deleteTx_spec {id : UserId} (hw : deleteTx db id = .ok next) : next = (removeUser db id).1 := by
  unfold deleteTx at hw
  split_ifs at hw
  exact (Except.ok.inj hw).symm

-- A profile change keeps the status and the password of the row it was read from.
theorem updateTx_ok {id : UserId} {username email : String} {now : Int} (h : SessionsOk db v)
    (hw : updateTx config db id username email now = .ok next) : SessionsOk next v := by
  obtain ⟨user, changed, hfound, hchanged, rfl⟩ := updateTx_spec hw
  obtain ⟨model, hmodel, huser⟩ := find_spec hfound
  obtain ⟨-, -, -, hpassword, hstatus, -⟩ := userToDomain_spec huser
  obtain ⟨hid, hpassword', hstatus', -⟩ := User.updateProfile_spec hchanged
  have hcid : changed.id = id := hid.trans (find_id hfound)
  have hkept := h.update changed db.sessions (fun x hx => hx) ?_
  · rw [← updateUser_sessions changed] at hkept
    exact hkept
  · intro x _ _ other hother hactive
    rw [hcid, hmodel] at hother
    obtain rfl := Option.some.inj hother
    exact ⟨by rw [hstatus', hstatus, hactive], by rw [hpassword', hpassword]⟩

-- A block that removes every session of the user may write any row.
theorem SessionsOk.revoke (h : SessionsOk db v) {user : User} {id : UserId} (hid : user.id = id) :
    SessionsOk (removeForUser (updateUser db user).1 id) v := by
  apply h.update user
  · intro x hx
    have hstored := (List.mem_filter.mp hx).1
    rwa [updateUser_sessions] at hstored
  · intro x hx hown
    have hother := (List.mem_filter.mp hx).2
    simp [hown, hid] at hother

-- A change that leaves the user enabled keeps the password, and the other one removes the sessions.
theorem changeStatusTx_ok {id : UserId} {status : UserStatus} {now : Int} (h : SessionsOk db v)
    (hw : changeStatusTx db id status now = .ok next) : SessionsOk next v := by
  obtain ⟨user, hfound, rfl⟩ := changeStatusTx_spec hw
  have huid : user.id = id := find_id hfound
  have hid : (user.changeStatus status now).id = id := huid
  cases status with
  | disabled => exact h.revoke hid
  | active =>
      obtain ⟨model, hmodel, huser⟩ := find_spec hfound
      obtain ⟨-, -, -, hpassword, -⟩ := userToDomain_spec huser
      have hkept := h.update (user.changeStatus .active now) db.sessions (fun x hx => hx) ?_
      · rw [← updateUser_sessions (user.changeStatus .active now)] at hkept
        exact hkept
      · intro x _ _ other hother _
        rw [hid, hmodel] at hother
        obtain rfl := Option.some.inj hother
        exact ⟨rfl, hpassword⟩

theorem resetPasswordTx_ok {id : UserId} {passwordHash : PasswordHash} {now : Int}
    (h : SessionsOk db v) (hw : resetPasswordTx db id passwordHash now = .ok next) :
    SessionsOk next v := by
  obtain ⟨user, hfound, rfl⟩ := resetPasswordTx_spec hw
  have huid : user.id = id := find_id hfound
  have hid : (user.resetPassword passwordHash now).id = id := huid
  exact h.revoke hid

theorem deleteTx_ok {id : UserId} (h : SessionsOk db v) (hw : deleteTx db id = .ok next) :
    SessionsOk next v := by
  obtain rfl := deleteTx_spec hw
  intro x hx
  obtain ⟨hstored, hother⟩ := List.mem_filter.mp hx
  have hne : x.row.userId ≠ id := by simpa using hother
  obtain ⟨model, hmodel, hrest⟩ := h x hstored
  refine ⟨model, ?_, hrest⟩
  rw [findModel_remove, if_neg hne]
  exact hmodel

theorem runWrite_ok {t : T} {now : Int} {digest : String} {write : Write} (h : SessionsOk db v)
    (hv : ∀ snapshot, write = .login snapshot → v t = some snapshot.passwordHash)
    (hw : runWrite config db t now digest write = .ok next) : SessionsOk next v := by
  cases write with
  | create user => exact createTx_ok h hw
  | login snapshot => exact loginTx_ok h (hv snapshot rfl) hw
  | logout digest =>
      obtain rfl := Except.ok.inj hw
      exact h.subset fun x hx => (List.mem_filter.mp hx).1
  | update id username email => exact updateTx_ok h hw
  | changeStatus id status => exact changeStatusTx_ok h hw
  | resetPassword id passwordHash => exact resetPasswordTx_ok h hw
  | delete id => exact deleteTx_ok h hw
  | cleanupExpiredSessions =>
      obtain rfl := Except.ok.inj hw
      exact h.subset fun x hx => (List.mem_filter.mp hx).1

-- The only session that a block adds is the one of its own login.
theorem runWrite_sessions {t : T} {now : Int} {digest : String} {write : Write}
    (hw : runWrite config db t now digest write = .ok next) :
    ∀ x ∈ next.sessions, x ∈ db.sessions ∨ x.login = t := by
  intro x hx
  cases write with
  | create user =>
      obtain ⟨-, -, hadd⟩ := bind_ok hw
      obtain ⟨-, rfl⟩ := addUser_spec hadd
      exact .inl hx
  | login snapshot =>
      obtain ⟨current, y, -, -, -, hlogin, -, rfl⟩ := loginTx_spec hw
      rcases List.mem_append.mp hx with hx | hx
      · exact .inl (List.mem_filter.mp hx).1
      · exact .inr (by rw [List.mem_singleton.mp hx, hlogin])
  | logout digest =>
      obtain rfl := Except.ok.inj hw
      exact .inl (List.mem_filter.mp hx).1
  | update id username email =>
      obtain ⟨user, changed, -, -, rfl⟩ := updateTx_spec hw
      rw [updateUser_sessions] at hx
      exact .inl hx
  | changeStatus id status =>
      obtain ⟨user, -, rfl⟩ := changeStatusTx_spec hw
      left
      cases status with
      | active => rwa [if_neg (by decide), updateUser_sessions] at hx
      | disabled =>
          have hkept := (List.mem_filter.mp hx).1
          rwa [updateUser_sessions] at hkept
  | resetPassword id passwordHash =>
      obtain ⟨user, -, rfl⟩ := resetPasswordTx_spec hw
      have hkept := (List.mem_filter.mp hx).1
      rw [updateUser_sessions] at hkept
      exact .inl hkept
  | delete id =>
      obtain rfl := deleteTx_spec hw
      exact .inl (List.mem_filter.mp hx).1
  | cleanupExpiredSessions =>
      obtain rfl := Except.ok.inj hw
      exact .inl (List.mem_filter.mp hx).1

-- The blocks that revoke the sessions of a user.
def Write.Revokes (id : UserId) : Write → Prop
  | .changeStatus key status => key = id ∧ status = .disabled
  | .resetPassword key _ => key = id
  | .delete key => key = id
  | _ => False

theorem runWrite_revokes {t : T} {now : Int} {digest : String} {write : Write} {id : UserId}
    (hw : runWrite config db t now digest write = .ok next) (hr : write.Revokes id) :
    ∀ x ∈ next.sessions, x.row.userId ≠ id := by
  intro x hx
  cases write with
  | changeStatus key status =>
      obtain ⟨rfl, rfl⟩ := hr
      obtain ⟨user, -, rfl⟩ := changeStatusTx_spec hw
      simpa using (List.mem_filter.mp hx).2
  | resetPassword key passwordHash =>
      obtain rfl : key = id := hr
      obtain ⟨user, -, rfl⟩ := resetPasswordTx_spec hw
      simpa using (List.mem_filter.mp hx).2
  | delete key =>
      obtain rfl : key = id := hr
      obtain rfl := deleteTx_spec hw
      simpa using (List.mem_filter.mp hx).2
  | create => exact hr.elim
  | login => exact hr.elim
  | logout => exact hr.elim
  | update => exact hr.elim
  | cleanupExpiredSessions => exact hr.elim

-- A step that does not commit: the database is left alone, and a call that is about to store a
-- session has verified the password of the snapshot.
def Quiet (db next : Database T) (l : AuthCall) : Prop :=
  next = db ∧ l.phase ≠ .done (.ok ()) ∧
    ∀ snapshot, l.phase = .ready (.login snapshot) → l.verified = some snapshot.passwordHash

theorem quiet_raise {l l' : AuthCall} {error : UserError}
    (h : raiseCall db l error = (next, l')) : Quiet db next l' := by
  obtain ⟨rfl, rfl⟩ := Prod.mk.inj h
  exact ⟨rfl, by simp, by simp⟩

theorem quiet_phase {l l' : AuthCall} {phase : AuthPhase} (h : (db, { l with phase := phase }) = (next, l'))
    (hdone : phase ≠ .done (.ok ())) (hlogin : ∀ snapshot, phase ≠ .ready (.login snapshot)) :
    Quiet db next l' := by
  obtain ⟨rfl, rfl⟩ := Prod.mk.inj h
  exact ⟨rfl, hdone, fun snapshot hs => absurd hs (hlogin snapshot)⟩

theorem readCheck_quiet {l l' : AuthCall} {check : Check} (h : readCheck db l check = (next, l')) :
    Quiet db next l' := by
  unfold readCheck at h
  split at h <;> split at h
  all_goals first
    | exact quiet_raise h
    | exact quiet_phase h (by simp) (by simp)

-- A step of a call either is quiet or commits its writing block.
theorem authStep_spec {t : T} {l l' : AuthCall} {act : AuthAct}
    (h : authStep config t db l act = some (next, l')) :
    (∀ result, l.phase ≠ .done result) ∧
      (Quiet db next l' ∨
        ∃ now digest write, l.phase = .ready write ∧ runWrite config db t now digest write = .ok next ∧
          l' = { l with phase := .done (.ok ()) }) := by
  have hopen : ∀ result, l.phase ≠ .done result := by
    intro result hdone
    cases act <;> simp [authStep, hdone] at h
  refine ⟨hopen, ?_⟩
  cases act with
  | commit now digest ok =>
      simp only [authStep] at h
      split at h
      · rename_i write hwrite
        split at h
        · exact .inl (quiet_raise (Option.some.inj h))
        · rename_i hw
          split_ifs at h
          · obtain ⟨rfl, rfl⟩ := Prod.mk.inj (Option.some.inj h)
            exact .inr ⟨now, digest, write, hwrite, hw, rfl⟩
          · exact .inl (quiet_raise (Option.some.inj h))
      · cases h
  | verified ok =>
      left
      simp only [authStep] at h
      split at h
      · split at h
        · exact quiet_raise (Option.some.inj h)
        · split_ifs at h
          · obtain ⟨rfl, rfl⟩ := Prod.mk.inj (Option.some.inj h)
            refine ⟨rfl, by simp, ?_⟩
            intro snapshot hs
            simp only [AuthPhase.ready.injEq, Write.login.injEq] at hs
            rw [hs]
          · exact quiet_raise (Option.some.inj h)
      · cases h
  | check =>
      left
      simp only [authStep] at h
      split at h
      · exact readCheck_quiet (Option.some.inj h)
      · cases h
  | _ =>
      left
      simp only [authStep] at h
      repeat' split at h
      all_goals first
        | cases h; done
        | exact quiet_raise (Option.some.inj h)
        | exact quiet_phase (Option.some.inj h) (by simp) (by simp)

section Runs

variable [DecidableEq T] {p q r : AuthPool T}

structure AuthInv (p : AuthPool T) : Prop where
  sessions : SessionsOk p.shared fun t => (p.loc t).verified
  settled : ∀ x ∈ p.shared.sessions, (p.loc x.login).phase = .done (.ok ())
  verified : ∀ t snapshot, (p.loc t).phase = .ready (.login snapshot) →
    (p.loc t).verified = some snapshot.passwordHash

omit [DecidableEq T] in
theorem authInv_init : AuthInv (AuthPool.init T) where
  sessions := by simp [SessionsOk, AuthPool.init]
  settled := by simp [AuthPool.init]
  verified := by simp [AuthPool.init]

-- A call that takes a step has stored no session yet.
omit [DecidableEq T] in
theorem not_login_of_open (hi : AuthInv p) {t : T} (hopen : ∀ result, (p.loc t).phase ≠ .done result)
    {x : StoredSession T} (hx : x ∈ p.shared.sessions) : x.login ≠ t := by
  intro hlogin
  exact hopen _ (hlogin ▸ hi.settled x hx)

theorem authInv_step (p : AuthPool T) (act : (T × AuthAct) ⊕ Empty) (q : AuthPool T) (hi : AuthInv p)
    (h : authPoolStep config p act = some q) : AuthInv q := by
  obtain ⟨t, act⟩ | event := act
  swap
  · exact event.elim
  obtain ⟨next, l, hl, rfl⟩ := Pool.step_task h
  obtain ⟨hopen, hquiet | ⟨now, digest, write, hphase, hw, rfl⟩⟩ := authStep_spec hl
  · obtain ⟨rfl, -, hlogin⟩ := hquiet
    -- no session names the call that moves, so the ghost of every session is the old one
    have hloc : ∀ x ∈ p.shared.sessions, (p.move t p.shared l).loc x.login = p.loc x.login :=
      fun x hx => Pool.move_loc_ne _ _ _ (not_login_of_open hi hopen hx)
    refine ⟨?_, ?_, ?_⟩
    · intro x hx
      simp only [hloc x hx]
      exact hi.sessions x hx
    · intro x hx
      rw [hloc x hx]
      exact hi.settled x hx
    · intro t' snapshot hs
      by_cases ht : t' = t
      · subst ht
        rw [Pool.move_loc_self] at hs ⊢
        exact hlogin snapshot hs
      · rw [Pool.move_loc_ne _ _ _ ht] at hs ⊢
        exact hi.verified t' snapshot hs
  · have hverified :
      (fun t' => ((p.move t next { p.loc t with phase := .done (.ok ()) }).loc t').verified) =
        fun t' => (p.loc t').verified := by
      funext t'
      by_cases ht : t' = t
      · subst ht
        rw [Pool.move_loc_self]
      · rw [Pool.move_loc_ne _ _ _ ht]
    refine ⟨?_, ?_, ?_⟩
    · rw [hverified]
      apply runWrite_ok hi.sessions _ hw
      rintro snapshot rfl
      exact hi.verified t snapshot hphase
    · intro x hx
      by_cases ht : x.login = t
      · rw [ht, Pool.move_loc_self]
      · rw [Pool.move_loc_ne _ _ _ ht]
        exact hi.settled x ((runWrite_sessions hw x hx).resolve_right ht)
    · intro t' snapshot hs
      by_cases ht : t' = t
      · subst ht
        rw [Pool.move_loc_self] at hs
        cases hs
      · rw [Pool.move_loc_ne _ _ _ ht] at hs ⊢
        exact hi.verified t' snapshot hs

-- A finished call stays as it is, so that a session that is gone stays away.
structure Onward (p q : AuthPool T) : Prop where
  finished : ∀ t result, (p.loc t).phase = .done result → q.loc t = p.loc t
  stored : ∀ x ∈ q.shared.sessions, x ∈ p.shared.sessions ∨ ∀ result, (p.loc x.login).phase ≠ .done result

omit [DecidableEq T] in
theorem Onward.trans (hpq : Onward p q) (hqr : Onward q r) : Onward p r where
  finished t result hdone := by
    have hq := hpq.finished t result hdone
    rw [hqr.finished t result (by rw [hq, hdone]), hq]
  stored x hx := by
    rcases hqr.stored x hx with hx | hopen
    · exact hpq.stored x hx
    · right
      intro result hdone
      exact hopen result (by rw [hpq.finished _ result hdone, hdone])

theorem authStep_onward (p : AuthPool T) (act : (T × AuthAct) ⊕ Empty) (q : AuthPool T)
    (h : authPoolStep config p act = some q) : Onward p q := by
  obtain ⟨t, act⟩ | event := act
  swap
  · exact event.elim
  obtain ⟨next, l, hl, rfl⟩ := Pool.step_task h
  obtain ⟨hopen, hcase⟩ := authStep_spec hl
  refine ⟨fun t' result hdone => ?_, fun x hx => ?_⟩
  · apply Pool.move_loc_ne
    rintro rfl
    exact hopen result hdone
  · rcases hcase with ⟨rfl, -⟩ | ⟨now, digest, write, -, hw, -⟩
    · exact .inl hx
    · rcases runWrite_sessions hw x hx with hx | hlogin
      · exact .inl hx
      · exact .inr (hlogin ▸ hopen)

theorem onward_of_reaches (h : Reaches (authPoolStep config) p q) : Onward p q :=
  h.invariant (fun s act t hps hst => hps.trans (authStep_onward s act t hst))
    ⟨fun _ _ _ => rfl, fun _ hx => .inl hx⟩

-- `current_user` answers to the token of the session with the session itself.
def Accepts (db : Database T) (now : Int) (x : StoredSession T) : Prop :=
  findSession db x.row.tokenDigest = some x ∧ ∃ user, currentUser db x.row.tokenDigest now = .ok user

-- A session that is gone after its login has finished never comes back.
theorem not_accepts_of_gone {x : StoredSession T} {now : Int}
    (hdone : (p.loc x.login).phase = .done (.ok ())) (hgone : x ∉ p.shared.sessions)
    (h : Reaches (authPoolStep config) p q) : ¬ Accepts q.shared now x := by
  rintro ⟨hfind, -⟩
  rcases (onward_of_reaches h).stored x (List.mem_of_find?_eq_some hfind) with hx | hopen
  · exact hgone hx
  · exact hopen _ hdone

theorem session_revocation (config : AuthConfig)
    (hp : Reaches (authPoolStep config) (AuthPool.init T) p) :
    (∀ x ∈ p.shared.sessions, ∃ model, findModel p.shared x.row.userId = some model ∧
      model.status = .active ∧ (p.loc x.login).verified = some model.password) ∧
    -- a call that raised has left no session
    (∀ t error, (p.loc t).phase = .done (.error error) → ∀ x ∈ p.shared.sessions, x.login ≠ t) ∧
    -- a committed disable, reset or deletion of the user revokes the session for good
    (∀ x ∈ p.shared.sessions, ∀ q, Reaches (authPoolStep config) p q →
      ∀ t write now digest ok s, (q.loc t).phase = .ready write → write.Revokes x.row.userId →
        authPoolStep config q (.inl (t, .commit now digest ok)) = some s →
        (s.loc t).phase = .done (.ok ()) →
        ∀ r, Reaches (authPoolStep config) s r → ∀ later, ¬ Accepts r.shared later x) := by
  have hi : AuthInv p := hp.invariant authInv_step authInv_init
  refine ⟨hi.sessions, ?_, ?_⟩
  · rintro t error herror x hx rfl
    rw [hi.settled x hx] at herror
    cases herror
  · intro x hx q hq t write now digest ok s hwrite hrevokes hstep hdone r hr later
    have hs : Onward p s := (onward_of_reaches hq).trans (authStep_onward _ _ _ hstep)
    refine not_accepts_of_gone (p := s) ?_ ?_ hr
    · rw [hs.finished _ _ (hi.settled x hx), hi.settled x hx]
    · obtain ⟨next, l, hl, rfl⟩ := Pool.step_task hstep
      rw [Pool.move_loc_self] at hdone
      obtain ⟨-, hquiet | ⟨_, _, write', hwrite', hw, -⟩⟩ := authStep_spec hl
      · exact absurd hdone hquiet.2.1
      · rw [hwrite, AuthPhase.ready.injEq] at hwrite'
        subst hwrite'
        exact fun hstored => runWrite_revokes hw hrevokes x hstored rfl

end Runs

def hourConfig : AuthConfig where
  lower := asciiLower
  sessionTtlSeconds := 3600
  positive := by decide

def oldHash : PasswordHash := ⟨"old", by decide⟩

-- A user is created and logs in, and the user is disabled while a second login is between its
-- two blocks: the session of the first login is revoked in every future.
theorem session_revocation_disabled : ∃ (p s : AuthPool Nat) (x : StoredSession Nat),
    Reaches (authPoolStep hourConfig) (.init Nat) p ∧ p.shared.sessions = [x] ∧
      Reaches (authPoolStep hourConfig) p s ∧
      ∀ r, Reaches (authPoolStep hourConfig) s r → ∀ later, ¬ Accepts r.shared later x := by
  let before : List ((Nat × AuthAct) ⊕ Empty) :=
    [.inl (0, .create "alice" "a@b.co" "password"), .inl (0, .check), .inl (0, .hashed oldHash 7 10),
      .inl (0, .commit 10 "" true), .inl (1, .login "Alice" false), .inl (1, .check),
      .inl (1, .verified true), .inl (1, .commit 20 "d1" true), .inl (2, .login "alice" false),
      .inl (2, .check), .inl (2, .verified true), .inl (3, .changeStatus 7 .disabled)]
  let commit : (Nat × AuthAct) ⊕ Empty := .inl (3, .commit 30 "" true)
  refine ⟨_, _, _, ⟨before, rfl⟩, rfl, ⟨[commit], rfl⟩, ?_⟩
  exact (session_revocation hourConfig ⟨before, rfl⟩).2.2 _ (List.mem_singleton_self _) _ .refl 3
    (.changeStatus 7 .disabled) 30 "" true _ rfl ⟨rfl, rfl⟩ rfl rfl

end Scaffold.Users
