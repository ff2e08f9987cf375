import Scaffold.Http.Middleware.Theorems
import Scaffold.RateLimit.Redis.Theorems

namespace Scaffold.Http

open Program (Event Outcome ends records requests)
open Python
open RateLimit (FixedWindowLimiter RateLimitDecision RateState Windows admitted rateStep windowMs)

-- Requests that share one limiter.

section Calls

variable {A : Type} {RA : A → Type} {L : Type}

def Record.isOther : Record L → Bool
  | .other _ => true
  | _ => false

-- A request in the middlewares, as far as it has come. Its application begins with a record of its own.
structure HttpCall (A : Type) (RA : A → Type) (L : Type) (framework : Framework) (builder : ResponseCodeBuilder)
    (settings : StackSettings) where
  scope : RequestScope
  requestId : Option Text
  entrance : L
  app : App A RA L
  events : List (Event (Await A) (Reply RA) (Record L) Thrown)
  outcome : Outcome (Await A) Thrown
  run : (middlewares framework builder requestId settings scope
    (Program.log (.other entrance) app)).Runs events outcome

variable {framework : Framework} {builder : ResponseCodeBuilder} {settings : StackSettings}

-- Whether the application has been called.
def HttpCall.entered (call : HttpCall A RA L framework builder settings) : Bool :=
  (records call.events).any Record.isOther

def isGrant (identity : String) : Event (Await A) (Reply RA) (Record L) Thrown → Bool
  | .asked (.acquire other) (.ok decision) => other = identity && RateLimitDecision.allowed decision
  | _ => false

-- How often the limiter has let an identity through.
def granted (identity : String) (events : List (Event (Await A) (Reply RA) (Record L) Thrown)) : Nat :=
  events.countP (isGrant identity)

-- The call has got an answer to what it waited for, and waits or has ended again.
structure Answered (call next : HttpCall A RA L framework builder settings) (request : Await A)
    (answer : Except Thrown (Reply RA request)) : Prop where
  scope : next.scope = call.scope
  waiting : call.outcome = .waiting request
  events : ∃ rest, next.events = call.events ++ .asked request answer :: rest ∧
    rest.filterMap Event.request = []

structure Gate (A : Type) (RA : A → Type) (L : Type) (framework : Framework) (builder : ResponseCodeBuilder)
    (settings : StackSettings) where
  rate : RateState
  calls : List (HttpCall A RA L framework builder settings)

-- A request comes in; the script of the limiter is run for one, whose reply may get lost; or one gets
-- another answer, which for the limiter can only be an exception.
inductive GateStep (sha256 : String → String) (limiter : FixedWindowLimiter) :
    Gate A RA L framework builder settings → Gate A RA L framework builder settings → Prop
  | arrive {s : Gate A RA L framework builder settings} (call : HttpCall A RA L framework builder settings)
      (hnew : call.events.filterMap Event.request = []) :
      GateStep sha256 limiter s { s with calls := s.calls ++ [call] }
  | script {s : Gate A RA L framework builder settings} {rate : RateState} {identity : String} {time i : Nat}
      {call next : HttpCall A RA L framework builder settings} {answer : Except Thrown RateLimitDecision}
      (hcall : s.calls[i]? = some call) (hanswered : Answered call next (.acquire identity) answer)
      (hscript : rateStep sha256 s.rate { time := time, limiter := limiter, identity := identity } = some rate)
      (hreply : ∀ decision, answer = .ok decision →
        ∃ entry, rate.log = s.rate.log ++ [entry] ∧ entry.outcome = .ok decision) :
      GateStep sha256 limiter s { rate := rate, calls := s.calls.set i next }
  | other {s : Gate A RA L framework builder settings} {request : Await A} {i : Nat}
      {call next : HttpCall A RA L framework builder settings} {answer : Except Thrown (Reply RA request)}
      (hcall : s.calls[i]? = some call) (hanswered : Answered call next request answer)
      (hlimiter : ∀ identity, request = .acquire identity → ∃ error, answer = .error error) :
      GateStep sha256 limiter s { s with calls := s.calls.set i next }

def GateReachable (sha256 : String → String) (limiter : FixedWindowLimiter)
    (s : Gate A RA L framework builder settings) : Prop :=
  Relation.ReflTransGen (GateStep sha256 limiter) { rate := {}, calls := [] } s

-- The calls of an identity whose application has been called.
def Gate.entered (s : Gate A RA L framework builder settings) (identity : String) : Nat :=
  s.calls.countP fun call => shouldLimit call.scope && clientIdentity call.scope == identity && call.entered

end Calls

section Grants

variable {A : Type} {RA : A → Type} {L : Type} {framework : Framework} {builder : ResponseCodeBuilder}
  {settings : StackSettings} {requestId : Option Text} {scope : RequestScope} {identity : String}
  {app : App A RA L}

-- The application is called only after the limiter has let the identity through.
def EntersGranted (identity : String) (program : App A RA L) : Prop :=
  ∀ events outcome, program.Runs events outcome → (records events).any Record.isOther = true →
    0 < granted identity events

theorem granted_append (before after : List (Event (Await A) (Reply RA) (Record L) Thrown)) :
    granted identity (before ++ after) = granted identity before + granted identity after :=
  List.countP_append

theorem records_sendBuilt {result : Except TypeName Response}
    {events : List (Event (Await A) (Reply RA) (Record L) Thrown)} {outcome : Outcome (Await A) Thrown}
    (h : (sendBuilt result : App A RA L).Runs events outcome) : records events = [] := by
  obtain ⟨type, -, rfl, -⟩ | ⟨response, -, hresponse⟩ := runs_sendBuilt h
  · rfl
  · exact (runs_sendResponse hresponse).1

theorem entersGranted_rateLimit {middleware : RateLimitMiddleware} (hclosed : middleware.failOpen = false)
    (hlimit : shouldLimit scope = true) :
    EntersGranted (clientIdentity scope) (rateLimit framework builder requestId middleware scope app) := by
  intro events outcome h hentered
  cases runs_rateLimit h with
  | free hfree _ =>
      rw [hlimit] at hfree
      cases hfree
  | unwired => cases hentered
  | waiting => cases hentered
  | admitted hallowed _ =>
      refine List.countP_pos_iff.mpr ⟨_, List.mem_cons_self, ?_⟩
      simpa [isGrant] using hallowed
  | rejected _ hrun =>
      rw [Program.records_asked, records_sendBuilt hrun] at hentered
      cases hentered
  | unlimited _ hopen _ =>
      rw [hclosed] at hopen
      cases hopen
  | unavailable _ hrun =>
      rw [Program.records_asked, Program.records_logged, records_sendBuilt hrun] at hentered
      cases hentered
  | raised => cases hentered

theorem EntersGranted.before {before after : List (Event (Await A) (Reply RA) (Record L) Thrown)}
    {outcome : Outcome (Await A) Thrown} (happ : EntersGranted identity app) (h : app.Runs before outcome)
    (hafter : (records after).any Record.isOther = false)
    (hentered : (records (before ++ after)).any Record.isOther = true) :
    0 < granted identity (before ++ after) := by
  rw [Program.records_append, List.any_append, hafter, Bool.or_false] at hentered
  rw [granted_append]
  exact Nat.add_pos_left (happ _ _ h hentered) _

theorem entersGranted_captureExceptions {debug : Bool} (hscope : scope.type = "http")
    (happ : EntersGranted identity app) :
    EntersGranted identity (captureExceptions framework builder requestId debug scope app) := by
  intro events outcome h hentered
  cases runs_captureExceptions hscope h with
  | passed hrun _ => exact happ _ _ hrun hentered
  | failed hrun _ => exact happ.before hrun rfl hentered
  | answered hrun _ hafter =>
      refine happ.before hrun ?_ hentered
      rw [Program.records_logged, records_sendBuilt hafter]
      rfl

theorem entersGranted_accessLog {excludeRoutes : List Text} (hscope : scope.type = "http")
    (happ : EntersGranted identity app) : EntersGranted identity (accessLog excludeRoutes scope app) := by
  intro events outcome h hentered
  obtain ⟨request, rfl, hrun⟩ | ⟨before, result, rfl, hrun, rfl⟩ := runs_accessLog hscope h
  · exact happ _ _ hrun hentered
  · refine happ.before hrun ?_ hentered
    rw [Program.records_map_logged, List.any_eq_false]
    intro record hrecord
    have haccess := isAccess_writeLog record hrecord
    cases record <;> simp_all [Record.isAccess, Record.isOther]

theorem type_of_shouldLimit (h : shouldLimit scope = true) : scope.type = "http" := by
  unfold shouldLimit at h
  by_contra hne
  rw [if_pos hne] at h
  cases h

-- The limiter is enabled, wired, and closed while its storage is unavailable.
structure StackSettings.Limits (settings : StackSettings) : Prop where
  enabled : settings.rateLimitEnabled = true
  wired : settings.rateLimit.limiter = true
  closed : settings.rateLimit.failOpen = false

theorem entersGranted_middlewares (hsettings : settings.Limits) (hlimit : shouldLimit scope = true) :
    EntersGranted (clientIdentity scope) (middlewares framework builder requestId settings scope app) := by
  have hscope := type_of_shouldLimit hlimit
  have hinner : EntersGranted (clientIdentity scope)
      (capturedPart framework builder requestId settings scope app) := by
    refine entersGranted_captureExceptions hscope ?_
    rw [if_pos hsettings.enabled]
    exact entersGranted_rateLimit hsettings.closed hlimit
  rw [middlewares_eq]
  split_ifs
  · exact entersGranted_accessLog hscope hinner
  · exact hinner

end Grants

section Quota

variable {A : Type} {RA : A → Type} {L : Type} {framework : Framework} {builder : ResponseCodeBuilder}
  {settings : StackSettings} {sha256 : String → String} {limiter : FixedWindowLimiter}
  {s s' : Gate A RA L framework builder settings} {identity : String}

-- How often an identity has been let through, over all calls.
def Gate.grants (s : Gate A RA L framework builder settings) (identity : String) : Nat :=
  (s.calls.map fun call => granted identity call.events).sum

theorem sum_map_set {B : Type*} (f : B → Nat) {items : List B} {i : Nat} {old : B} (new : B)
    (h : items[i]? = some old) :
    ((items.set i new).map f).sum + f old = (items.map f).sum + f new := by
  induction items generalizing i with
  | nil => cases h
  | cons first rest ih =>
      cases i with
      | zero =>
          obtain rfl := Option.some.inj h
          simp only [List.set_cons_zero, List.map_cons, List.sum_cons]
          omega
      | succ i =>
          have hrest := ih (i := i) (by simpa using h)
          simp only [List.set_cons_succ, List.map_cons, List.sum_cons]
          omega

-- An answer counts when it lets the identity through.
theorem granted_of_answered (identity : String) {call next : HttpCall A RA L framework builder settings}
    {request : Await A} {answer : Except Thrown (Reply RA request)} (h : Answered call next request answer) :
    granted identity next.events = granted identity call.events +
      if isGrant (L := L) identity (.asked request answer) then 1 else 0 := by
  obtain ⟨rest, hevents, hrest⟩ := h.events
  have hnone : granted identity rest = 0 := by
    refine List.countP_eq_zero.mpr fun event hevent => ?_
    cases event with
    | logged record => exact Bool.false_ne_true
    | asked request answer =>
        have := List.filterMap_eq_nil_iff.mp hrest _ hevent
        cases this
  have hcons : granted identity (.asked request answer :: rest) =
      granted identity rest + if isGrant (L := L) identity (.asked request answer) then 1 else 0 :=
    List.countP_cons
  rw [hevents, granted_append, hcons, hnone, Nat.zero_add]

-- What the limiter has let through is in its log, and its windows are within the quota.
structure GateInv (sha256 : String → String) (limiter : FixedWindowLimiter)
    (s : Gate A RA L framework builder settings) : Prop where
  grants : ∀ identity, s.grants identity ≤ (admitted s.rate.log limiter identity).length
  policies : ∀ limiter identity, ∃ windows, RateLimit.PolicyInv sha256 s.rate limiter identity windows

theorem grants_set {rate : RateState} {i : Nat} {call next : HttpCall A RA L framework builder settings}
    {request : Await A} {answer : Except Thrown (Reply RA request)} (hcall : s.calls[i]? = some call)
    (hanswered : Answered call next request answer) :
    Gate.grants { rate := rate, calls := s.calls.set i next } identity =
      s.grants identity + if isGrant (L := L) identity (.asked request answer) then 1 else 0 := by
  have hset := sum_map_set (fun call => granted identity call.events) next hcall
  have hgranted := granted_of_answered identity hanswered
  unfold Gate.grants
  dsimp only at hset ⊢
  omega

-- A grant of the limiter is an admission in its log.
theorem isGrant_le_admitted {entry : RateLimit.LogEntry} {other : String} {decision : RateLimitDecision}
    (hlimiter : entry.request.limiter = limiter) (hidentity : entry.request.identity = other)
    (houtcome : entry.outcome = .ok decision) :
    (if isGrant identity (.asked (.acquire other) (.ok decision) : Event (Await A) (Reply RA) (Record L) Thrown)
      then 1 else 0) ≤
      (if entry.request.under limiter identity && entry.allowed then [entry.request.time] else []).length := by
  by_cases hgrant : other = identity ∧ decision.allowed = true
  · obtain ⟨rfl, hallowed⟩ := hgrant
    have hunder : entry.request.under limiter other = true := by
      simp [RateLimit.Request.under, hlimiter, hidentity]
    have hentry : entry.allowed = true := by
      rw [RateLimit.LogEntry.allowed, houtcome]
      exact hallowed
    simp [isGrant, hallowed, hunder, hentry]
  · have hno : isGrant identity (.asked (.acquire other) (.ok decision) :
        Event (Await A) (Reply RA) (Record L) Thrown) = false := by
      simpa [isGrant] using hgrant
    rw [hno]
    exact Nat.zero_le _

theorem gateInv_step (hsha : Function.Injective sha256) (hi : GateInv sha256 limiter s)
    (h : GateStep sha256 limiter s s') : GateInv sha256 limiter s' := by
  cases h with
  | arrive call hnew =>
      refine ⟨fun identity => ?_, hi.policies⟩
      have hnone : granted identity call.events = 0 := by
        refine List.countP_eq_zero.mpr fun event hevent => ?_
        cases event with
        | logged record => exact Bool.false_ne_true
        | asked request answer => cases List.filterMap_eq_nil_iff.mp hnew _ hevent
      have hgrants : Gate.grants { s with calls := s.calls ++ [call] } identity = s.grants identity := by
        simp [Gate.grants, hnone]
      rw [hgrants]
      exact hi.grants identity
  | @script rate other time i call next answer hcall hanswered hscript hreply =>
      refine ⟨fun identity => ?_, RateLimit.policyInv_step hsha hi.policies hscript⟩
      obtain ⟨-, key, reply, -, rfl⟩ := RateLimit.rateStep_eq hscript
      dsimp only at hreply ⊢
      rw [grants_set hcall hanswered, RateLimit.admitted_append, List.length_append]
      refine Nat.add_le_add (hi.grants identity) ?_
      cases answer with
      | error error => exact Nat.zero_le _
      | ok decision =>
          obtain ⟨entry, hlog, houtcome⟩ := hreply decision rfl
          obtain rfl := List.singleton_inj.mp (List.append_cancel_left hlog)
          exact isGrant_le_admitted rfl rfl houtcome
  | @other request i call next answer hcall hanswered hlimiter =>
      refine ⟨fun identity => ?_, hi.policies⟩
      have hno : isGrant (L := L) identity (.asked request answer) = false := by
        cases request with
        | send message => rfl
        | acquire other =>
            obtain ⟨error, rfl⟩ := hlimiter other rfl
            rfl
        | other request => rfl
      rw [grants_set hcall hanswered, hno]
      exact hi.grants identity

theorem gateInv_of_reachable (hsha : Function.Injective sha256) (h : GateReachable sha256 limiter s) :
    GateInv sha256 limiter s := by
  induction h with
  | refl => exact ⟨fun _ => Nat.zero_le _, fun _ _ => ⟨[], RateLimit.policyInv_init⟩⟩
  | tail _ hstep ih => exact gateInv_step hsha ih hstep

-- Every call of the application was let through.
theorem entered_le_grants (hsettings : settings.Limits) (s : Gate A RA L framework builder settings)
    (identity : String) : s.entered identity ≤ s.grants identity := by
  unfold Gate.entered Gate.grants
  induction s.calls with
  | nil => exact Nat.le_refl 0
  | cons call calls ih =>
      rw [List.countP_cons, List.map_cons, List.sum_cons, Nat.add_comm]
      refine Nat.add_le_add ?_ ih
      split_ifs with hentered
      · rw [Bool.and_eq_true, Bool.and_eq_true, beq_iff_eq] at hentered
        obtain ⟨⟨hlimit, rfl⟩, hcall⟩ := hentered
        exact entersGranted_middlewares hsettings hlimit _ _ call.run hcall
      · exact Nat.zero_le _

section Bound

variable {ms quota now : Nat} {times : List Nat} {windows : List (List Nat)}

-- The openings of the windows lie apart, so there are not many of them.
theorem windows_length {first : Nat} {window : List Nat}
    (hopened : ∀ w ∈ window :: windows, ∃ o rest, w = o :: rest) (hhead : window.head? = some first)
    (hapart : (window :: windows).Pairwise fun v w => ∀ o ∈ v.head?, ∀ t ∈ w, o + ms < t)
    (hnow : ∀ w ∈ window :: windows, ∀ t ∈ w, t ≤ now) : windows.length * (ms + 1) ≤ now - first := by
  induction windows generalizing window first with
  | nil => simp
  | cons next windows ih =>
      obtain ⟨o, rest, rfl⟩ := hopened next (List.mem_cons_of_mem _ List.mem_cons_self)
      obtain ⟨hfirst, hrest⟩ := List.pairwise_cons.mp hapart
      have hopen := hfirst _ List.mem_cons_self first hhead o List.mem_cons_self
      have htail := ih (fun w hw => hopened w (List.mem_cons_of_mem _ hw)) rfl hrest
        fun w hw => hnow w (List.mem_cons_of_mem _ hw)
      have hend := hnow _ (List.mem_cons_of_mem _ List.mem_cons_self) o List.mem_cons_self
      rw [List.length_cons, Nat.add_mul]
      omega

theorem flatten_length_le (h : ∀ w ∈ windows, w.length ≤ quota) :
    windows.flatten.length ≤ quota * windows.length := by
  induction windows with
  | nil => exact Nat.zero_le _
  | cons window windows ih =>
      have hwindow := h window List.mem_cons_self
      have hrest := ih fun w hw => h w (List.mem_cons_of_mem _ hw)
      rw [List.flatten_cons, List.length_append, List.length_cons, Nat.mul_succ]
      omega

theorem admissions_le (h : Windows ms quota times windows) (hnow : ∀ t ∈ times, t ≤ now) :
    times.length ≤ quota * ((now - times.headD now) / (ms + 1) + 1) := by
  cases windows with
  | nil =>
      rw [← h.flat]
      exact Nat.zero_le _
  | cons window windows =>
      obtain ⟨o, rest, rfl, -⟩ := h.opened window List.mem_cons_self
      have hhead : times.headD now = o := by
        rw [← h.flat]
        rfl
      have hlast : ∀ w ∈ (o :: rest) :: windows, ∀ t ∈ w, t ≤ now := by
        intro w hw t ht
        refine hnow t ?_
        rw [← h.flat]
        exact List.mem_flatten.mpr ⟨w, hw, ht⟩
      have hopened : ∀ w ∈ (o :: rest) :: windows, ∃ o rest, w = o :: rest := by
        intro w hw
        obtain ⟨o, rest, heq, -⟩ := h.opened w hw
        exact ⟨o, rest, heq⟩
      have hcount := windows_length hopened rfl h.apart hlast
      have hlength := flatten_length_le h.quota
      rw [h.flat, List.length_cons] at hlength
      rw [hhead]
      refine hlength.trans (Nat.mul_le_mul_left quota ?_)
      exact Nat.succ_le_succ ((Nat.le_div_iff_mul_le (Nat.succ_pos ms)).mpr hcount)

end Bound

-- However many requests run at once, and whatever replies of the limiter get lost: the application is
-- called for an identity no more often than its quota for every window since it was first let through.
theorem entered_quota (hsha : Function.Injective sha256) (hsettings : settings.Limits)
    (h : GateReachable sha256 limiter s) (identity : String) :
    s.entered identity ≤ limiter.maxRequests *
      ((s.rate.now - (admitted s.rate.log limiter identity).headD s.rate.now) / (windowMs limiter + 1) + 1) := by
  have hi := gateInv_of_reachable hsha h
  obtain ⟨windows, hpolicy⟩ := hi.policies limiter identity
  calc
    s.entered identity ≤ s.grants identity := entered_le_grants hsettings s identity
    _ ≤ (admitted s.rate.log limiter identity).length := hi.grants identity
    _ ≤ _ := admissions_le hpolicy.division hpolicy.past

end Quota

section Entered

def limitOnly : StackSettings where
  debug := false
  accessEnabled := false
  accessExcludeRoutes := []
  rateLimitEnabled := true
  rateLimit := { failOpen := false, limiter := true }

def getItems : RequestScope where
  type := "http"
  method := "GET"
  path := textOf "/api/items"
  rootPath := []
  headers := []
  client := some ("192.0.2.1".toList, 50000)

def admission : RateLimitDecision where
  allowed := true
  retryAfterSeconds := 0

theorem shouldLimit_getItems : shouldLimit getItems = true := by decide

theorem clientIdentity_getItems : clientIdentity getItems = "ip:192.0.2.1" := by decide

def entering : PlainApp := Program.log (.other ()) .done

def limited : PlainApp :=
  .await (.acquire "ip:192.0.2.1") (limitAnswered plainFramework service none limitOnly.rateLimit entering)

theorem middlewares_getItems : middlewares plainFramework service none limitOnly getItems entering =
    captureExceptions plainFramework service none false getItems limited := by
  change captureExceptions plainFramework service none false getItems
    (rateLimit plainFramework service none limitOnly.rateLimit getItems entering) = _
  rw [rateLimit, if_pos shouldLimit_getItems, clientIdentity_getItems]
  rfl

theorem runs_pending : (middlewares plainFramework service none limitOnly getItems entering).Runs []
    (.waiting (.acquire "ip:192.0.2.1")) := by
  rw [middlewares_getItems]
  exact Program.runs_guard.mpr (.inl ⟨_, rfl, Program.runs_await.mpr (.inl ⟨rfl, rfl⟩)⟩)

theorem runs_finished : (middlewares plainFramework service none limitOnly getItems entering).Runs
    [.asked (.acquire "ip:192.0.2.1") (.ok admission), .logged (.other ())] .returned := by
  rw [middlewares_getItems]
  have hrun : limited.Runs [.asked (.acquire "ip:192.0.2.1") (.ok admission), .logged (.other ())] .returned :=
    Program.runs_await.mpr (.inr ⟨.ok admission, _, rfl,
      Program.runs_log.mpr ⟨[], rfl, Program.runs_done.mpr ⟨rfl, rfl⟩⟩⟩)
  exact Program.runs_guard.mpr (.inr ⟨_, [], none, rfl, hrun, Program.runs_done.mpr ⟨rfl, rfl⟩⟩)

abbrev PlainCall : Type 1 := HttpCall Empty (fun _ => Empty) Unit plainFramework service limitOnly

-- A request before the limiter has answered, and when the application has returned.
def pending : PlainCall where
  scope := getItems
  requestId := none
  entrance := ()
  app := .done
  events := []
  outcome := .waiting (.acquire "ip:192.0.2.1")
  run := runs_pending

def finished : PlainCall where
  scope := getItems
  requestId := none
  entrance := ()
  app := .done
  events := [.asked (.acquire "ip:192.0.2.1") (.ok admission), .logged (.other ())]
  outcome := .returned
  run := runs_finished

theorem answered_pending : Answered pending finished (.acquire "ip:192.0.2.1") (.ok admission) where
  scope := rfl
  waiting := rfl
  events := ⟨[.logged (.other ())], rfl, rfl⟩

-- Of two requests at once the first one has been let through, and the quota has been met.
theorem entered_quota_concurrent : ∃ rate,
    GateReachable RateLimit.addressDigest RateLimit.onePerSecond
      ({ rate := rate, calls := [finished, pending] } : Gate _ _ _ _ _ _) ∧
    Gate.entered { rate := rate, calls := [finished, pending] } "ip:192.0.2.1" = 1 ∧
    Gate.entered { rate := rate, calls := [finished, pending] } "ip:192.0.2.1" ≤ 1 := by
  have hscript : rateStep RateLimit.addressDigest {} ⟨0, RateLimit.onePerSecond, "ip:192.0.2.1"⟩ = some _ := rfl
  have hanswer : RateLimit.acquireResult RateLimit.onePerSecond (.ok (1, 0)) = .ok admission := by decide
  have hreach := (((Relation.ReflTransGen.refl (a := ({ rate := {}, calls := [] } : Gate _ _ _ _ _ _))).tail
    (.arrive pending rfl)).tail (.arrive pending rfl)).tail
    (GateStep.script (i := 0) rfl answered_pending hscript fun decision hdecision =>
      ⟨_, rfl, hanswer.trans (congrArg Except.ok (Except.ok.inj hdecision))⟩)
  have hquota := entered_quota RateLimit.addressDigest_injective ⟨rfl, rfl, rfl⟩ hreach "ip:192.0.2.1"
  exact ⟨_, hreach, rfl, hquota⟩

end Entered

end Scaffold.Http
