import Scaffold.Program.Always
import Scaffold.Runtime

namespace Scaffold.Runtime

open Program (Always Event Outcome always_await always_done always_ending always_log always_raise requests
  requests_append)

section Spec

variable {C E : Type}

abbrev HostEvent (C E : Type) : Type := Event (Hosting C) Answer (HostRecord E) (Failure E)

abbrev HostOutcome (C E : Type) : Type := Outcome (Hosting C) (Failure E)

def builtContainer : HostEvent C E → Option (ApplicationContainer C)
  | .asked .build (.ok container) => some container
  | _ => none

def failure : HostEvent C E → Option (Failure E)
  | .asked _ (.error error) => some error
  | _ => none

def releaseFailure : HostEvent C E → Option (Failure E)
  | .asked (.release _) (.error error) => some error
  | _ => none

def startedCallback : HostEvent C E → Option C
  | .asked (.startup callback) (.ok _) => some callback
  | _ => none

def containers (events : List (HostEvent C E)) : List (ApplicationContainer C) := events.filterMap builtContainer

def failures (events : List (HostEvent C E)) : List (Failure E) := events.filterMap failure

def releaseFailures (events : List (HostEvent C E)) : List (Failure E) := events.filterMap releaseFailure

-- The startup callbacks that have returned.
def startedCallbacks (events : List (HostEvent C E)) : List C := events.filterMap startedCallback

def Hosting.startupCallback : Hosting C → Option C
  | .startup callback => some callback
  | _ => none

def Hosting.releaseCallback : Hosting C → Option (Release C)
  | .release callback => some callback
  | _ => none

def Hosting.ofContainer : Hosting C → Bool
  | .startup _ | .release _ => true
  | _ => false

-- The scheduler engine may be closed between the releases and after them.
def Hosting.closes : Hosting C → Bool
  | .release _ | .work .engineClose => true
  | _ => false

-- What a host does with a started container.
def Work.usesContainer : Work → Bool
  | .engine | .engineClose => false
  | _ => true

-- All release callbacks, the later ones of a kind first.
def ApplicationContainer.releases (container : ApplicationContainer C) : List (Release C) :=
  container.asyncShutdownCallbacks.reverse.map .shutdown ++ container.shutdownCallbacks.reverse.map .close

-- An exception is found in one that was raised.
inductive Failure.Contains : Failure E → Failure E → Prop
  | self (failure : Failure E) : failure.Contains failure
  | group {message : String} {errors : List (Failure E)} {error failure : Failure E} (herror : error ∈ errors)
      (h : error.Contains failure) : (Failure.group message errors).Contains failure

-- How a host treats its container, in a run that may not have ended.
structure Hosted (events : List (HostEvent C E)) (outcome : HostOutcome C E) : Prop where
  once : (containers events).length ≤ 1
  unbuilt : containers events = [] → ∀ request ∈ requests events outcome, request.ofContainer = false
  -- its startup callbacks are called in their order
  startups : ∀ container ∈ containers events,
    (requests events outcome).filterMap Hosting.startupCallback <+: container.startupCallbacks
  -- it is used when all of them have returned
  works : ∀ container ∈ containers events, ∀ work : Work, work.usesContainer = true →
    .work work ∈ requests events outcome → startedCallbacks events = container.startupCallbacks
  -- and released last: each callback once, in the reverse order, whatever any of them raises
  releases : ∀ container ∈ containers events, ∃ before after, requests events outcome = before ++ after ∧
    (∀ release, .release release ∉ before) ∧ (∀ request ∈ after, request.closes = true) ∧
      after.filterMap Hosting.releaseCallback <+: container.releases ∧
        ((∀ request, outcome ≠ .waiting request) →
          after.filterMap Hosting.releaseCallback = container.releases)
  returned : outcome = .returned → failures events = []
  raised : ∀ error, outcome = .raised error → failures events ≠ [] ∧
    ∀ failure ∈ releaseFailures events, error.Contains failure

end Spec

section Calls

variable {C E : Type} {container : ApplicationContainer C} {released : List (Release C)}
  {past : List (HostEvent C E)} {calls : List (Hosting C)} {outcome : HostOutcome C E}

-- The container is built, and what has been called so far is in order.
structure Calls (container : ApplicationContainer C) (released : List (Release C)) (past : List (HostEvent C E))
    (calls : List (Hosting C)) : Prop where
  built : containers past = [container]
  split : ∃ before after, calls = before ++ after ∧ (∀ release, .release release ∉ before) ∧
    (∀ request ∈ after, request.closes = true) ∧ after.filterMap Hosting.releaseCallback = released
  startups : calls.filterMap Hosting.startupCallback <+: container.startupCallbacks
  works : (∀ work : Work, work.usesContainer = true → .work work ∉ calls) ∨
    startedCallbacks past = container.startupCallbacks

theorem Calls.hosted (h : Calls container released past (requests past outcome))
    (hfront : released <+: container.releases)
    (hended : (∀ request, outcome ≠ .waiting request) → released = container.releases)
    (hreturned : outcome = .returned → failures past = [])
    (hraised : ∀ error, outcome = .raised error → failures past ≠ [] ∧
      ∀ failure ∈ releaseFailures past, error.Contains failure) : Hosted past outcome where
  once := by
    rw [h.built]
    exact Nat.le_refl 1
  unbuilt hnone := by
    rw [h.built] at hnone
    cases hnone
  startups other hother := by
    rw [h.built, List.mem_singleton] at hother
    exact hother ▸ h.startups
  works other hother work hwork hcalled := by
    rw [h.built, List.mem_singleton] at hother
    obtain hno | hstarted := h.works
    · exact absurd hcalled (hno work hwork)
    · exact hother ▸ hstarted
  releases other hother := by
    rw [h.built, List.mem_singleton] at hother
    obtain ⟨before, after, hsplit, hbefore, hafter, rfl⟩ := h.split
    subst hother
    exact ⟨before, after, hsplit, hbefore, hafter, hfront, hended⟩
  returned := hreturned
  raised := hraised

-- While it waits a host has nothing to report.
theorem Calls.waiting {request : Hosting C} (h : Calls container released past (requests past (.waiting request)))
    (hfront : released <+: container.releases) : Hosted past (.waiting request) :=
  h.hosted hfront (fun hended => absurd rfl (hended request)) nofun nofun

theorem Calls.unreleased (h : Calls container [] past calls) (release : Release C) : .release release ∉ calls := by
  obtain ⟨before, after, rfl, hbefore, -, hnone⟩ := h.split
  intro hmem
  obtain hmem | hmem := List.mem_append.mp hmem
  · exact hbefore release hmem
  · cases List.filterMap_eq_nil_iff.mp hnone _ hmem

-- A call that is no release, before all releases.
theorem Calls.call {request : Hosting C} (h : Calls container [] past calls)
    (hrelease : request.releaseCallback = none)
    (hstartup : ∀ callback, request = .startup callback →
      calls.filterMap Hosting.startupCallback ++ [callback] <+: container.startupCallbacks)
    (hwork : ∀ work : Work, request = .work work → work.usesContainer = true →
      startedCallbacks past = container.startupCallbacks) :
    Calls container [] past (calls ++ [request]) where
  built := h.built
  split := by
    refine ⟨calls ++ [request], [], (List.append_nil _).symm, fun release hmem => ?_, nofun, rfl⟩
    obtain hmem | hmem := List.mem_append.mp hmem
    · exact h.unreleased release hmem
    · rw [← List.mem_singleton.mp hmem] at hrelease
      cases hrelease
  startups := by
    rw [List.filterMap_append]
    cases request with
    | startup callback => exact hstartup callback rfl
    | build | release | work => exact (List.append_nil _).symm ▸ h.startups
  works := by
    by_cases huses : ∃ work : Work, request = .work work ∧ work.usesContainer = true
    · obtain ⟨work, hcall, huses⟩ := huses
      exact .inr (hwork work hcall huses)
    · refine h.works.imp_left fun hno work huse hmem => ?_
      obtain hmem | hmem := List.mem_append.mp hmem
      · exact hno work huse hmem
      · exact huses ⟨work, (List.mem_singleton.mp hmem).symm, huse⟩

-- A call that closes something.
theorem Calls.close {request : Hosting C} (h : Calls container released past calls)
    (hcloses : request.closes = true) :
    Calls container (released ++ request.releaseCallback.toList) past (calls ++ [request]) where
  built := h.built
  split := by
    obtain ⟨before, after, rfl, hbefore, hafter, rfl⟩ := h.split
    refine ⟨before, after ++ [request], List.append_assoc .., hbefore, ?_, ?_⟩
    · intro other hmem
      obtain hmem | hmem := List.mem_append.mp hmem
      · exact hafter other hmem
      · exact List.mem_singleton.mp hmem ▸ hcloses
    · rw [List.filterMap_append]
      cases request <;> rfl
  startups := by
    have hnone : [request].filterMap Hosting.startupCallback = [] := by
      cases request with
      | startup callback => cases hcloses
      | build | release | work => rfl
    rw [List.filterMap_append, hnone, List.append_nil]
    exact h.startups
  works := by
    refine h.works.imp_left fun hno work huse hmem => ?_
    obtain hmem | hmem := List.mem_append.mp hmem
    · exact hno work huse hmem
    · obtain rfl := List.mem_singleton.mp hmem
      cases work with
      | engineClose => exact Bool.false_ne_true huse
      | _ => exact Bool.false_ne_true hcloses

theorem containers_other {event : HostEvent C E} (h : builtContainer event = none) :
    containers (past ++ [event]) = containers past := by
  rw [containers, List.filterMap_append, List.filterMap_cons, h]
  exact List.append_nil _

theorem startedCallbacks_other {event : HostEvent C E} (h : startedCallback event = none) :
    startedCallbacks (past ++ [event]) = startedCallbacks past := by
  rw [startedCallbacks, List.filterMap_append, List.filterMap_cons, h]
  exact List.append_nil _

-- An event that is about no startup and no container.
theorem Calls.event {event : HostEvent C E} (h : Calls container released past calls)
    (hbuilt : builtContainer event = none) (hstarted : startedCallback event = none) :
    Calls container released (past ++ [event]) calls where
  built := (containers_other hbuilt).trans h.built
  split := h.split
  startups := h.startups
  works := h.works.imp_right (startedCallbacks_other hstarted).trans

end Calls

section Parts

variable {C E : Type} {container : ApplicationContainer C} {released : List (Release C)}
  {past : List (HostEvent C E)} {calls : List (Hosting C)} {outcome : HostOutcome C E}
  {raised closed : Option (Failure E)}

def called (events : List (HostEvent C E)) : List (Hosting C) := events.filterMap Event.request

theorem called_append (before after : List (HostEvent C E)) : called (before ++ after) = called before ++ called after :=
  List.filterMap_append

theorem failures_append (before after : List (HostEvent C E)) :
    failures (before ++ after) = failures before ++ failures after :=
  List.filterMap_append

theorem releaseFailures_append (before after : List (HostEvent C E)) :
    releaseFailures (before ++ after) = releaseFailures before ++ releaseFailures after :=
  List.filterMap_append

-- What is raised tells of all failures.
def Reports : Option (Failure E) → List (Failure E) → Prop
  | none, failures => failures = []
  | some error, failures => failures ≠ [] ∧ ∀ failure ∈ failures, error.Contains failure

theorem Failure.Contains.trans {error middle failure : Failure E} (h : error.Contains middle)
    (hmiddle : middle.Contains failure) : error.Contains failure := by
  induction h with
  | self => exact hmiddle
  | group herror _ ih => exact .group herror (ih hmiddle)

theorem reports_shutdownFailed (errors : List (Failure E)) : Reports (shutdownFailed errors) errors := by
  cases errors with
  | nil => rfl
  | cons error errors => exact ⟨List.cons_ne_nil _ _, fun failure hmem => .group hmem (.self failure)⟩

theorem collected_shutdownFailed (errors failures : List (Failure E)) :
    ApplicationContainer.collected errors (shutdownFailed failures) = errors ++ failures := by
  cases failures with
  | nil => exact (List.append_nil _).symm
  | cons failure failures => rfl

-- A release in line: the failures of the callbacks are collected.
theorem always_releaseAll {next : List (Failure E) → Host C E} {rest : List (Release C)} {errors : List (Failure E)}
    (hcalls : Calls container released past (called past)) (hline : released ++ rest <+: container.releases)
    (hnext : ∀ before, Calls container (released ++ rest) (past ++ before) (called (past ++ before)) →
      failures before = releaseFailures before → Always Hosted (past ++ before) (next (errors ++ failures before))) :
    Always Hosted past (releaseAll next rest errors) := by
  induction rest generalizing past released errors with
  | nil =>
      have h := hnext [] (by simpa using hcalls) rfl
      change Always Hosted past (next errors)
      simpa [failures] using h
  | cons release rest ih =>
      have hcloses : (.release release : Hosting C).closes = true := rfl
      have hrelease := hcalls.close hcloses
      have hsplit : released ++ [release] ++ rest = released ++ release :: rest := by simp
      refine always_await (Calls.waiting hrelease ?_) fun answer => ?_
      · exact (List.prefix_append _ rest).trans (hsplit ▸ hline)
      · have hasked : ∀ answer, Calls container (released ++ [release]) (past ++ [.asked (.release release) answer])
            (called (past ++ [.asked (.release release) answer])) := by
          intro answer
          rw [called_append]
          exact hrelease.event (by cases answer <;> rfl) rfl
        have hstep : ∀ (answer : Except (Failure E) (Answer (.release release))) new,
            failures [.asked (.release release) answer] = new →
            releaseFailures [.asked (.release release) answer] = new →
            Always Hosted (past ++ [.asked (.release release) answer]) (releaseAll next rest (errors ++ new)) := by
          intro answer new hnew hnew'
          refine ih (hasked answer) (hsplit ▸ hline) fun before hbefore hsame => ?_
          rw [hsplit, ← List.append_cons] at hbefore
          have h := hnext (.asked (.release release) answer :: before) hbefore ?_
          · rw [← List.append_cons, List.append_assoc, ← hnew, ← failures_append]
            exact h
          · change failures ([.asked (.release release) answer] ++ before) =
              releaseFailures ([.asked (.release release) answer] ++ before)
            rw [failures_append, releaseFailures_append, hnew, hnew', hsame]
        cases answer with
        | ok answer => exact (List.append_nil errors) ▸ hstep (.ok answer) [] rfl rfl
        | error error => exact hstep (.error error) [error] rfl rfl

-- The release of a container, after which the runtime has none.
theorem always_aclose {next : Option (ApplicationContainer C) → Option (Failure E) → Host C E}
    (hcalls : Calls container [] past (called past))
    (hnext : ∀ before closed, Calls container container.releases (past ++ before) (called (past ++ before)) →
      failures before = releaseFailures before → Reports closed (failures before) →
        Always Hosted (past ++ before) (next none closed)) :
    Always Hosted past (ApplicationRuntime.aclose next (some container)) := by
  refine always_releaseAll hcalls (List.prefix_append _ _) fun first hfirst hsame => ?_
  refine always_releaseAll hfirst (List.prefix_refl _) fun second hsecond hsame' => ?_
  dsimp only
  rw [List.nil_append, List.nil_append, collected_shutdownFailed, ← failures_append]
  simp only [List.append_assoc, List.nil_append] at hsecond ⊢
  refine hnext (first ++ second) _ hsecond ?_ (reports_shutdownFailed _)
  rw [failures_append, releaseFailures_append, hsame, hsame']

theorem called_asked {request : Hosting C} {answer : Except (Failure E) (Answer request)} :
    called (past ++ [.asked request answer]) = called past ++ [request] :=
  called_append ..

theorem called_logged {record : HostRecord E} : called (past ++ [.logged record]) = called past := by
  simp [called, Event.request]

theorem failures_logged {record : HostRecord E} : failures (past ++ [.logged record]) = failures past := by
  simp [failures, failure]

theorem releaseFailures_logged {record : HostRecord E} :
    releaseFailures (past ++ [.logged record]) = releaseFailures past := by
  simp [releaseFailures, releaseFailure]

theorem requests_ended (outcome : HostOutcome C E) (hended : outcome.request = none) :
    requests past outcome = called past := by
  rw [requests, hended]
  exact List.append_nil _

-- Started and in use, with the failures that there have been.
structure InUse (container : ApplicationContainer C) (raised : List (Failure E)) (past : List (HostEvent C E)) :
    Prop where
  calls : Calls container [] past (called past)
  started : startedCallbacks past = container.startupCallbacks
  failures : failures past = raised
  kept : releaseFailures past = []

theorem InUse.log {raised : List (Failure E)} {record : HostRecord E} (h : InUse container raised past) :
    InUse container raised (past ++ [.logged record]) where
  calls := by
    rw [called_logged]
    exact h.calls.event rfl rfl
  started := (startedCallbacks_other rfl).trans h.started
  failures := failures_logged.trans h.failures
  kept := releaseFailures_logged.trans h.kept

theorem InUse.waiting {raised : List (Failure E)} (h : InUse container raised past) (work : Work) :
    Hosted past (.waiting (.work work)) :=
  (h.calls.call rfl (by rintro callback ⟨⟩) fun _ _ _ => h.started).waiting List.nil_prefix

theorem InUse.answered {raised : List (Failure E)} {work : Work} (h : InUse container raised past)
    (answer : Except (Failure E) (Answer (.work work : Hosting C))) :
    InUse container (raised ++ (errorOf answer).toList) (past ++ [.asked (.work work) answer]) where
  calls := by
    rw [called_asked]
    exact (h.calls.call rfl (by rintro callback ⟨⟩) fun _ _ _ => h.started).event rfl rfl
  started := (startedCallbacks_other rfl).trans h.started
  failures := by
    rw [failures_append, h.failures]
    cases answer <;> rfl
  kept := by
    rw [releaseFailures_append, h.kept]
    cases answer <;> rfl

-- Released after its use.
structure Closed (container : ApplicationContainer C) (raised : List (Failure E)) (closed : Option (Failure E))
    (past : List (HostEvent C E)) : Prop where
  calls : Calls container container.releases past (called past)
  failures : failures past = raised ++ releaseFailures past
  reports : Reports closed (releaseFailures past)

-- Before the release no release has failed, so that what fails in it is told apart.
theorem always_closed {raised : List (Failure E)}
    {next : Option (ApplicationContainer C) → Option (Failure E) → Host C E}
    (hcalls : Calls container [] past (called past)) (hfailures : failures past = raised)
    (hkept : releaseFailures past = [])
    (hnext : ∀ past closed, Closed container raised closed past → Always Hosted past (next none closed)) :
    Always Hosted past (ApplicationRuntime.aclose next (some container)) := by
  refine always_aclose hcalls fun before closed hreleased hsame hreports => hnext _ closed ⟨hreleased, ?_, ?_⟩
  · rw [failures_append, releaseFailures_append, hfailures, hkept, hsame, List.nil_append]
  · rw [releaseFailures_append, hkept, ← hsame, List.nil_append]
    exact hreports

theorem InUse.aclose {raised : List (Failure E)}
    {next : Option (ApplicationContainer C) → Option (Failure E) → Host C E} (h : InUse container raised past)
    (hnext : ∀ past closed, Closed container raised closed past → Always Hosted past (next none closed)) :
    Always Hosted past (ApplicationRuntime.aclose next (some container)) :=
  always_closed h.calls h.failures h.kept hnext

theorem Closed.log {raised : List (Failure E)} {record : HostRecord E} (h : Closed container raised closed past) :
    Closed container raised closed (past ++ [.logged record]) where
  calls := by
    rw [called_logged]
    exact h.calls.event rfl rfl
  failures := by
    rw [failures_logged, releaseFailures_logged]
    exact h.failures
  reports := by
    rw [releaseFailures_logged]
    exact h.reports

-- The end of a host tells of what its container has raised.
theorem Closed.hosted {raised : List (Failure E)} {result : Option (Failure E)}
    (h : Closed container raised closed past) (hnone : result = none ↔ raised = [] ∧ closed = none)
    (hclosed : ∀ error, closed = some error → ∃ told, result = some told ∧ told.Contains error) :
    Hosted past (Program.ends result) := by
  have hreports := h.reports
  have hcalls := h.calls
  cases result with
  | none =>
      obtain ⟨rfl, rfl⟩ := hnone.mp rfl
      rw [← requests_ended .returned rfl] at hcalls
      refine hcalls.hosted (List.prefix_refl _) (fun _ => rfl) (fun _ => ?_) nofun
      rw [h.failures, show releaseFailures past = [] from hreports]
      rfl
  | some told =>
      rw [← requests_ended (.raised told) rfl] at hcalls
      refine hcalls.hosted (List.prefix_refl _) (fun _ => rfl) nofun fun error heq => ?_
      obtain rfl := Outcome.raised.inj heq
      rw [h.failures]
      cases closed with
      | none =>
          rw [show releaseFailures past = [] from hreports, List.append_nil]
          refine ⟨fun hraised => ?_, nofun⟩
          cases hnone.mpr ⟨hraised, rfl⟩
      | some error =>
          obtain ⟨other, heq, hcontains⟩ := hclosed error rfl
          obtain rfl := Option.some.inj heq
          refine ⟨fun hempty => hreports.1 (List.append_eq_nil_iff.mp hempty).2, fun failure hmem => ?_⟩
          exact hcontains.trans (hreports.2 failure hmem)

-- Nothing of the container has been called.
structure Fresh (past : List (HostEvent C E)) : Prop where
  unbuilt : containers past = []
  calls : ∀ request ∈ called past, request.ofContainer = false
  failures : failures past = []

theorem Fresh.log {record : HostRecord E} (h : Fresh past) : Fresh (past ++ [.logged record]) where
  unbuilt := (containers_other rfl).trans h.unbuilt
  calls := by
    rw [called_logged]
    exact h.calls
  failures := failures_logged.trans h.failures

-- A run without a container.
theorem hosted_unbuilt (hunbuilt : containers past = [])
    (hcalls : ∀ request ∈ requests past outcome, request.ofContainer = false)
    (hreturned : outcome = .returned → failures past = [])
    (hraised : ∀ error, outcome = .raised error → failures past ≠ [] ∧
      ∀ failure ∈ releaseFailures past, error.Contains failure) : Hosted past outcome where
  once := by
    rw [hunbuilt]
    exact Nat.zero_le 1
  unbuilt _ := hcalls
  startups container hmem := by
    rw [hunbuilt] at hmem
    cases hmem
  works container hmem := by
    rw [hunbuilt] at hmem
    cases hmem
  releases container hmem := by
    rw [hunbuilt] at hmem
    cases hmem
  returned := hreturned
  raised := hraised

theorem Fresh.waiting {request : Hosting C} (h : Fresh past) (hrequest : request.ofContainer = false) :
    Hosted past (.waiting request) := by
  refine hosted_unbuilt h.unbuilt (fun other hmem => ?_) nofun nofun
  obtain hmem | hmem := List.mem_append.mp hmem
  · exact h.calls other hmem
  · exact List.mem_singleton.mp hmem ▸ hrequest

theorem releaseFailures_of_failures (h : failures past = []) : releaseFailures past = [] := by
  refine List.filterMap_eq_nil_iff.mpr fun event hmem => ?_
  have hnone := List.filterMap_eq_nil_iff.mp h event hmem
  cases event with
  | logged record => rfl
  | asked request answer =>
      cases answer with
      | ok answer => cases request <;> rfl
      | error error => cases hnone

-- A call that fails before there is a container.
theorem Fresh.failed {request : Hosting C} {error : Failure E} (h : Fresh past)
    (hrequest : request.ofContainer = false) : Hosted (past ++ [.asked request (.error error)]) (.raised error) := by
  refine hosted_unbuilt ?_ (fun other hmem => ?_) nofun fun told heq => ?_
  · exact (containers_other (by cases request <;> rfl)).trans h.unbuilt
  · rw [requests_ended _ rfl, called_asked] at hmem
    obtain hmem | hmem := List.mem_append.mp hmem
    · exact h.calls other hmem
    · exact List.mem_singleton.mp hmem ▸ hrequest
  · obtain rfl := Outcome.raised.inj heq
    rw [failures_append, releaseFailures_append, releaseFailures_of_failures h.failures, h.failures]
    refine ⟨List.cons_ne_nil _ _, fun failure hmem => ?_⟩
    cases request with
    | release callback => cases hrequest
    | build | startup callback | work work => cases hmem

-- Between the container factory and the return of the last startup callback.
structure Starting (container : ApplicationContainer C) (done : List C) (past : List (HostEvent C E)) : Prop where
  calls : Calls container [] past (called past)
  unused : ∀ work : Work, work.usesContainer = true → .work work ∉ called past
  startups : (called past).filterMap Hosting.startupCallback = done
  started : startedCallbacks past = done
  failures : failures past = []

theorem unused_append {request : Hosting C}
    (h : ∀ work : Work, work.usesContainer = true → .work work ∉ calls) (hrequest : ∀ work, request ≠ .work work) :
    ∀ work : Work, work.usesContainer = true → .work work ∉ calls ++ [request] := by
  intro work huse hmem
  obtain hmem | hmem := List.mem_append.mp hmem
  · exact h work huse hmem
  · exact hrequest work (List.mem_singleton.mp hmem).symm

theorem Fresh.built (h : Fresh past) (hunused : ∀ work : Work, work.usesContainer = true → .work work ∉ called past) :
    Starting container [] (past ++ [.asked .build (.ok container)]) := by
  have hstartups : (called past).filterMap Hosting.startupCallback = [] := by
    refine List.filterMap_eq_nil_iff.mpr fun request hmem => ?_
    have hnone := h.calls request hmem
    cases request with
    | startup callback => cases hnone
    | build | release | work => rfl
  have hstarted : startedCallbacks past = [] := by
    refine List.filterMap_eq_nil_iff.mpr fun event hmem => ?_
    cases event with
    | logged record => rfl
    | asked request answer =>
        have hnone := h.calls request (List.mem_filterMap.mpr ⟨_, hmem, rfl⟩)
        cases request with
        | startup callback => cases hnone
        | build | release | work => rfl
  have hcalls : called (past ++ [.asked .build (.ok container)]) = called past ++ [.build] := called_asked
  have hworks : ∀ work : Work, work.usesContainer = true → .work work ∉ called past ++ [.build] :=
    unused_append hunused (by rintro work ⟨⟩)
  refine ⟨⟨?_, ?_, ?_, .inl ?_⟩, ?_, ?_, ?_, ?_⟩
  · rw [containers, List.filterMap_append]
    exact congrArg (· ++ [container]) h.unbuilt
  · refine ⟨called past ++ [.build], [], by rw [hcalls, List.append_nil], fun callback hmem => ?_, nofun, rfl⟩
    simp only [List.mem_append, List.mem_singleton, reduceCtorEq, or_false] at hmem
    cases h.calls _ hmem
  · rw [hcalls, List.filterMap_append, hstartups]
    exact List.nil_prefix
  · rw [hcalls]
    exact hworks
  · rw [hcalls]
    exact hworks
  · rw [hcalls, List.filterMap_append, hstartups]
    rfl
  · rw [startedCallbacks, List.filterMap_append]
    exact (List.append_nil _).trans hstarted
  · rw [failures_append, h.failures]
    rfl

theorem Starting.calls_next {done : List C} {callback : C} {rest : List C} (h : Starting container done past)
    (hline : done ++ callback :: rest = container.startupCallbacks) :
    Calls container [] past (called past ++ [.startup callback]) := by
  refine h.calls.call rfl (fun other heq => ?_) nofun
  obtain rfl := Hosting.startup.inj heq
  rw [h.startups, ← hline]
  exact ⟨rest, (List.append_cons done callback rest).symm⟩

-- A startup callback has returned, or raised.
theorem Starting.answered {done : List C} {callback : C} {rest : List C} (h : Starting container done past)
    (hline : done ++ callback :: rest = container.startupCallbacks)
    (answer : Except (Failure E) (Answer (.startup callback : Hosting C))) :
    Calls container [] (past ++ [.asked (.startup callback) answer]) (called past ++ [.startup callback]) := by
  have hcalls := h.calls_next hline
  exact ⟨(containers_other rfl).trans h.calls.built, hcalls.split, hcalls.startups,
    .inl (unused_append h.unused (by rintro work ⟨⟩))⟩

theorem Starting.returned {done : List C} {callback : C} {rest : List C} {answer : Unit}
    (h : Starting container done past) (hline : done ++ callback :: rest = container.startupCallbacks) :
    Starting container (done ++ [callback]) (past ++ [.asked (.startup callback) (.ok answer)]) := by
  have hcalls : called (past ++ [.asked (.startup callback) (.ok answer)]) = called past ++ [.startup callback] :=
    called_asked
  refine ⟨hcalls ▸ h.answered hline (.ok answer), ?_, ?_, ?_, ?_⟩
  · rw [hcalls]
    exact unused_append h.unused (by rintro work ⟨⟩)
  · rw [hcalls, List.filterMap_append, h.startups]
    rfl
  · rw [startedCallbacks, List.filterMap_append]
    exact congrArg (· ++ [callback]) h.started
  · rw [failures_append, h.failures]
    rfl

-- A startup callback that raises is followed by the release of the container.
theorem Starting.failed {done : List C} {callback : C} {rest : List C} {error : Failure E}
    {next : Option (ApplicationContainer C) → Option (Failure E) → Host C E} (h : Starting container done past)
    (hline : done ++ callback :: rest = container.startupCallbacks)
    (hnext : ∀ past closed, Closed container [error] closed past → Always Hosted past (next none closed)) :
    Always Hosted (past ++ [.asked (.startup callback) (.error error)])
      (ApplicationRuntime.aclose next (some container)) := by
  have hcalls : called (past ++ [.asked (.startup callback) (.error error)]) = called past ++ [.startup callback] :=
    called_asked
  have hkept : releaseFailures (past ++ [.asked (.startup callback) (.error error)]) = [] := by
    rw [releaseFailures_append, releaseFailures_of_failures h.failures]
    rfl
  have hfailures : Runtime.failures (past ++ [.asked (.startup callback) (.error error)]) = [error] := by
    rw [failures_append, h.failures]
    rfl
  exact always_closed (hcalls ▸ h.answered hline (.error error)) hfailures hkept hnext

theorem always_startFrom {done rest : List C} {next : Option (Failure E) → Host C E}
    (h : Starting container done past) (hline : done ++ rest = container.startupCallbacks)
    (hstarted : ∀ past, InUse container [] past → Always Hosted past (next none))
    (hfailed : ∀ past done callback rest error, Starting container done past →
      done ++ callback :: rest = container.startupCallbacks →
        Always Hosted (past ++ [.asked (.startup callback) (.error error)]) (next (some error))) :
    Always Hosted past (ApplicationContainer.startFrom next rest) := by
  induction rest generalizing past done with
  | nil =>
      rw [List.append_nil] at hline
      exact hstarted past ⟨h.calls, h.started.trans hline, h.failures, releaseFailures_of_failures h.failures⟩
  | cons callback rest ih =>
      refine always_await ((h.calls_next hline).waiting List.nil_prefix) fun answer => ?_
      cases answer with
      | error error => exact hfailed past done callback rest error h hline
      | ok answer => exact ih (h.returned hline) (by simpa using hline)

-- The start of the runtime: the container is in use, or what there was of it has been released.
theorem always_start {started : E}
    {next : Option (ApplicationContainer C) → Except (Failure E) (ApplicationContainer C) → Host C E}
    (h : Fresh past) (hunused : ∀ work : Work, work.usesContainer = true → .work work ∉ called past)
    (hstarted : ∀ past container, InUse container [] past → Always Hosted past (next (some container) (.ok container)))
    (hfailed : ∀ past error, Hosted past (.raised error) → Always Hosted past (next none (.error error))) :
    Always Hosted past (ApplicationRuntime.start started next none) := by
  refine always_await (h.waiting rfl) fun answer => ?_
  cases answer with
  | error error => exact hfailed _ error (h.failed rfl)
  | ok container =>
      refine always_startFrom (h.built hunused) (List.nil_append _) (fun past => hstarted past container) ?_
      intro past done callback rest error hstarting hline
      refine hstarting.failed hline fun past closed hclosed => ?_
      cases closed with
      | none =>
          have hended : Hosted past (Program.ends (some error)) := hclosed.hosted (by simp) nofun
          exact hfailed past error hended
      | some cleanupError =>
          have hended : Hosted past (Program.ends
              (some (.group "Application startup and cleanup failed" [error, cleanupError]))) := by
            refine hclosed.hosted (by simp) fun other heq => ⟨_, rfl, ?_⟩
            obtain rfl := Option.some.inj heq
            exact .group (by simp) (.self _)
          exact hfailed past _ hended

end Parts

section Hosts

variable {C E : Type} {container : ApplicationContainer C} {past : List (HostEvent C E)}
  {outcome : HostOutcome C E} {raised closed : Option (Failure E)} {started : E} {installed : Bool}

theorem Hosted.log {record : HostRecord E} (h : Hosted past outcome) : Hosted (past ++ [.logged record]) outcome := by
  have hcontainers : containers (past ++ [.logged record]) = containers past := containers_other rfl
  have hstarted : startedCallbacks (past ++ [.logged record]) = startedCallbacks past := startedCallbacks_other rfl
  have hrequests : requests (past ++ [.logged record]) outcome = requests past outcome := by
    simp [requests, Event.request]
  constructor
  · exact hcontainers ▸ h.once
  · rw [hcontainers, hrequests]
    exact h.unbuilt
  · rw [hcontainers, hrequests]
    exact h.startups
  · rw [hcontainers, hrequests, hstarted]
    exact h.works
  · rw [hcontainers, hrequests]
    exact h.releases
  · rw [failures_logged]
    exact h.returned
  · rw [failures_logged, releaseFailures_logged]
    exact h.raised

-- Records at the end change nothing.
theorem Hosted.logs {program : Host C E} {record : HostRecord E} (h : Hosted past outcome)
    (hnext : ∀ past, Hosted past outcome → Always Hosted past program) :
    Always Hosted past (.log record program) :=
  always_log (hnext _ h.log)

theorem Hosted.logIf {program : Host C E} {record : HostRecord E} {condition : Bool} (h : Hosted past outcome)
    (hnext : ∀ past, Hosted past outcome → Always Hosted past program) :
    Always Hosted past (logIf condition record program) := by
  cases condition with
  | true => exact h.logs hnext
  | false => exact hnext past h

theorem always_ends {result : Option (Failure E)} (h : Hosted past (Program.ends result)) :
    Always Hosted past (Program.ending result) :=
  always_ending h

-- What a host raises in the end is the failure of the release, or else what it has been left with.
theorem Closed.hosted_or (h : Closed container raised.toList closed past) :
    Hosted past (Program.ends (closed.or raised)) := by
  refine h.hosted ?_ fun error heq => ⟨error, ?_, .self error⟩
  · cases closed <;> cases raised <;> simp
  · rw [heq]
    rfl

theorem always_stopLifespan {exposed : Bool} (h : InUse container raised.toList past) :
    Always Hosted past (stopLifespan (some container) exposed raised) := by
  refine always_log (h.log.aclose fun past closed hclosed => ?_)
  have hended := hclosed.hosted_or
  cases closed with
  | none => exact hended.logIf fun past h => h.logs fun past h => always_ends h
  | some error => exact hended.logs fun past h => h.logIf fun past h => always_raise h

theorem always_lifespan : Always Hosted [] (lifespan started : Host C E) := by
  have hfresh : Fresh ([] : List (HostEvent C E)) := ⟨rfl, nofun, rfl⟩
  refine always_log (always_start hfresh.log ?_ (fun past container h => ?_) fun past error h => ?_)
  · intro work _ hmem
    cases hmem
  · refine always_log (always_log (always_await (h.log.log.waiting .serve) fun answer => ?_))
    exact always_stopLifespan (h.log.log.answered answer)
  · refine h.logs fun past h => h.logs fun past h => ?_
    exact h.logs fun past h => always_raise h

theorem always_logIf {program : Host C E} {record : HostRecord E} {condition : Bool} (h : Fresh past)
    (hcalled : called past = []) (hnext : ∀ past, Fresh past → called past = [] → Always Hosted past program) :
    Always Hosted past (logIf condition record program) := by
  cases condition with
  | true => exact always_log (hnext _ h.log (called_logged.trans hcalled))
  | false => exact hnext past h hcalled

theorem always_stopWorker (h : InUse container raised.toList past) :
    Always Hosted past (stopWorker installed (some container) raised) := by
  refine always_log (h.log.aclose fun past closed hclosed => ?_)
  have hended := hclosed.hosted_or
  cases closed with
  | none => exact hended.logs fun past h => h.logIf fun past h => always_ends h
  | some error => exact hended.logs fun past h => h.logIf fun past h => always_raise h

theorem always_worker : Always Hosted [] (WorkerHost.serve started installed : Host C E) := by
  refine always_logIf ⟨rfl, nofun, rfl⟩ rfl fun past hfresh hcalled => ?_
  refine always_log (always_start hfresh.log ?_ (fun past container h => ?_) fun past error h => ?_)
  · intro work _ hmem
    rw [called_logged, hcalled] at hmem
    cases hmem
  · refine always_await (h.waiting .resolver) fun answer => ?_
    have hanswered := h.answered answer
    cases answer with
    | error error =>
        have hraised : InUse container (some error).toList (past ++ [.asked (.work .resolver) (.error error)]) :=
          hanswered
        exact always_log (always_stopWorker hraised.log)
    | ok answer =>
        refine always_log (always_await (hanswered.log.waiting .consume) fun answer => ?_)
        exact always_stopWorker (hanswered.log.answered answer)
  · refine h.logs fun past h => h.logs fun past h => ?_
    exact h.logs fun past h => h.logIf fun past h => always_raise h

theorem always_console : Always Hosted [] (ConsoleHost.run started : Host C E) := by
  refine always_start ⟨rfl, nofun, rfl⟩ nofun (fun past container h => ?_) fun past error h => always_raise h
  refine always_await (h.waiting .operation) fun answer => ?_
  refine (h.answered answer).aclose fun past closed hclosed => ?_
  have hended : Hosted past (Program.ends (closed.or (errorOf answer))) := hclosed.hosted_or
  cases closed with
  | none => exact always_ends hended
  | some error => exact always_raise hended

namespace SchedulerHost

-- What `raiseErrors` raises.
def raisedError : Option (Failure E) → List (Failure E) → Option (Failure E)
  | operationError, [] => operationError
  | some operationError, closeErrors =>
      some (.group "Scheduler execution and shutdown failed" (operationError :: closeErrors))
  | none, closeErrors => some (.group "Scheduler shutdown failed" closeErrors)

theorem raiseErrors_eq (operationError : Option (Failure E)) (closeErrors : List (Failure E)) :
    (raiseErrors operationError closeErrors : Host C E) = .ending (raisedError operationError closeErrors) := by
  cases operationError <;> cases closeErrors <;> rfl

theorem raisedError_contains {operationError : Option (Failure E)} {closeErrors : List (Failure E)}
    {error : Failure E} (h : error ∈ operationError.toList ++ closeErrors) :
    ∃ told, raisedError operationError closeErrors = some told ∧ told.Contains error := by
  cases operationError with
  | none =>
      cases closeErrors with
      | nil => cases h
      | cons closeError closeErrors => exact ⟨_, rfl, .group h (.self error)⟩
  | some operationError =>
      cases closeErrors with
      | nil =>
          obtain rfl := List.mem_singleton.mp h
          exact ⟨error, rfl, .self error⟩
      | cons closeError closeErrors => exact ⟨_, rfl, .group h (.self error)⟩

theorem raisedError_none {operationError : Option (Failure E)} {closeErrors : List (Failure E)} :
    raisedError operationError closeErrors = none ↔ operationError = none ∧ closeErrors = [] := by
  cases operationError <;> cases closeErrors <;> simp [raisedError]

end SchedulerHost

-- The scheduler engine is closed after a start that has failed.
theorem Hosted.closing {error : Failure E} (h : Hosted past (.raised error)) :
    Hosted past (.waiting (.work .engineClose)) := by
  have hrequests : requests past (.waiting (.work .engineClose)) =
      requests past (.raised error) ++ [.work .engineClose] := by
    simp [requests, Outcome.request]
  constructor
  · exact h.once
  · intro hnone request hmem
    rw [hrequests] at hmem
    obtain hmem | hmem := List.mem_append.mp hmem
    · exact h.unbuilt hnone request hmem
    · exact List.mem_singleton.mp hmem ▸ rfl
  · intro container hmem
    rw [hrequests, List.filterMap_append]
    exact (List.append_nil _).symm ▸ h.startups container hmem
  · intro container hbuilt work huse hmem
    rw [hrequests] at hmem
    obtain hmem | hmem := List.mem_append.mp hmem
    · exact h.works container hbuilt work huse hmem
    · obtain rfl := Hosting.work.inj (List.mem_singleton.mp hmem)
      cases huse
  · intro container hmem
    obtain ⟨before, after, hsplit, hbefore, hafter, hfront, -⟩ := h.releases container hmem
    refine ⟨before, after ++ [.work .engineClose], ?_, hbefore, fun request hmem => ?_, ?_, fun hended => ?_⟩
    · rw [hrequests, hsplit, List.append_assoc]
    · obtain hmem | hmem := List.mem_append.mp hmem
      · exact hafter request hmem
      · exact List.mem_singleton.mp hmem ▸ rfl
    · rw [List.filterMap_append]
      exact (List.append_nil _).symm ▸ hfront
    · exact absurd rfl (hended _)
  · intro heq
    cases heq
  · intro told heq
    cases heq

theorem Hosted.engineClosed {error told : Failure E} (h : Hosted past (.raised error))
    (answer : Except (Failure E) (Answer (.work .engineClose : Hosting C))) (htold : told.Contains error) :
    Hosted (past ++ [.asked (.work .engineClose) answer]) (.raised told) := by
  have hclosing := h.closing
  have hrequests : requests (past ++ [.asked (.work .engineClose) answer]) (.raised told) =
      requests past (.waiting (.work .engineClose)) := by
    simp [requests, Outcome.request, Event.request]
  have hcontainers : containers (past ++ [.asked (.work .engineClose) answer]) = containers past :=
    containers_other rfl
  have hstarted : startedCallbacks (past ++ [.asked (.work .engineClose) answer]) = startedCallbacks past :=
    startedCallbacks_other rfl
  have hreleased : releaseFailures (past ++ [.asked (.work .engineClose) answer]) = releaseFailures past := by
    simp [releaseFailures, releaseFailure]
  constructor
  · exact hcontainers ▸ h.once
  · rw [hcontainers, hrequests]
    exact hclosing.unbuilt
  · rw [hcontainers, hrequests]
    exact hclosing.startups
  · rw [hcontainers, hrequests, hstarted]
    exact hclosing.works
  · intro container hmem
    rw [hcontainers] at hmem
    obtain ⟨before, after, hsplit, hbefore, hafter, -, hall⟩ := h.releases container hmem
    have hreleases : (after ++ [Hosting.work .engineClose]).filterMap Hosting.releaseCallback =
        container.releases := by
      have hlast := hall fun request heq => by cases heq
      rw [List.filterMap_append, hlast]
      exact List.append_nil _
    refine ⟨before, after ++ [.work .engineClose], ?_, hbefore, fun request hmem => ?_, ?_, fun _ => hreleases⟩
    · rw [hrequests, ← List.append_assoc, ← hsplit]
      simp [requests, Outcome.request]
    · obtain hmem | hmem := List.mem_append.mp hmem
      · exact hafter request hmem
      · exact List.mem_singleton.mp hmem ▸ rfl
    · exact hreleases ▸ List.prefix_refl _
  · intro heq
    cases heq
  · intro other heq
    obtain rfl := Outcome.raised.inj heq
    obtain ⟨hnonempty, hcontains⟩ := h.raised error rfl
    rw [failures_append, hreleased]
    exact ⟨fun hempty => hnonempty (List.append_eq_nil_iff.mp hempty).1,
      fun failure hmem => htold.trans (hcontains failure hmem)⟩

-- The end of the scheduler with its container.
theorem always_schedulerClose (h : InUse container raised.toList past) :
    Always Hosted past (SchedulerHost.close installed true (some container) raised) := by
  refine always_log (always_await (h.log.waiting .engineClose) fun answer => ?_)
  refine (h.log.answered answer).aclose fun past closed hclosed => ?_
  have hended : Hosted past (Program.ends (SchedulerHost.raisedError raised
      ((errorOf answer).toList ++ closed.toList))) := by
    refine hclosed.hosted ?_ fun error heq => ?_
    · rw [SchedulerHost.raisedError_none]
      cases raised <;> cases answer <;> cases closed <;> simp [errorOf]
    · refine SchedulerHost.raisedError_contains (List.mem_append_right _ (List.mem_append_right _ ?_))
      exact heq ▸ List.mem_singleton_self error
  refine hended.logs fun past h => h.logIf fun past h => ?_
  rw [SchedulerHost.raiseErrors_eq]
  exact always_ends h

theorem always_attempt {work : Work} {program : Host C E} (h : InUse container [] past)
    (hnext : ∀ past, InUse container [] past → Always Hosted past program) :
    Always Hosted past (SchedulerHost.attempt installed (some container) work program) := by
  refine always_await (h.waiting work) fun answer => ?_
  have hanswered := h.answered answer
  cases answer with
  | error error =>
      have hraised : InUse container (some error).toList (past ++ [.asked (.work work) (.error error)]) := hanswered
      exact always_log (always_schedulerClose hraised.log)
  | ok answer => exact hnext _ hanswered

theorem Fresh.answered {work : Work} {answer : Answer (.work work : Hosting C)} (h : Fresh past) :
    Fresh (past ++ [.asked (.work work) (.ok answer)]) where
  unbuilt := (containers_other rfl).trans h.unbuilt
  calls request hmem := by
    have hcalled : called (past ++ [.asked (.work work) (.ok answer)]) = called past ++ [.work work] := called_asked
    rw [hcalled] at hmem
    obtain hmem | hmem := List.mem_append.mp hmem
    · exact h.calls request hmem
    · exact List.mem_singleton.mp hmem ▸ rfl
  failures := by
    rw [failures_append, h.failures]
    rfl

theorem always_scheduler : Always Hosted [] (SchedulerHost.serve started installed : Host C E) := by
  refine always_logIf ⟨rfl, nofun, rfl⟩ rfl fun past hfresh hcalled => ?_
  refine always_log (always_await (hfresh.log.waiting rfl) fun answer => ?_)
  cases answer with
  | error error =>
      have hfailed : Hosted (past ++ [.logged .starting] ++ [.asked (.work .engine) (.error error)])
          (.raised error) := hfresh.log.failed rfl
      refine hfailed.logs fun past h => h.logs fun past h => ?_
      exact h.logs fun past h => h.logIf fun past h => always_raise h
  | ok answer =>
      refine always_start hfresh.log.answered ?_ (fun past container h => ?_) fun past error h => ?_
      · intro work huse hmem
        simp only [called, List.filterMap_append] at hmem
        rw [show past.filterMap Event.request = [] from hcalled] at hmem
        obtain rfl := Hosting.work.inj (List.mem_singleton.mp hmem)
        cases huse
      · refine always_attempt h fun past h => always_attempt h fun past h => always_attempt h fun past h => ?_
        refine always_log (always_log (always_await (h.log.log.waiting .engineWait) fun answer => ?_))
        exact always_schedulerClose (h.log.log.answered answer)
      · refine h.logs fun past h => h.logs fun past h => always_await h.closing fun answer => ?_
        have hended : Hosted (past ++ [.asked (.work .engineClose) answer])
            (Program.ends (SchedulerHost.raisedError (some error) ((errorOf answer).toList ++ []))) := by
          cases answer with
          | ok answer => exact h.engineClosed (.ok answer) (.self error)
          | error other => exact h.engineClosed (.error other) (.group List.mem_cons_self (.self error))
        refine hended.logs fun past h => h.logIf fun past h => ?_
        rw [SchedulerHost.raiseErrors_eq]
        exact always_ends h

-- In each of the hosts, however it is stopped and whatever fails on the way: a container is used after all
-- of its startup callbacks, and each of its shutdown callbacks is run once, the later ones first.
theorem hosts_release (started : E) (installed : Bool) :
    (∀ events outcome, (lifespan started : Host C E).Runs events outcome → Hosted events outcome) ∧
      (∀ events outcome, (WorkerHost.serve started installed : Host C E).Runs events outcome →
        Hosted events outcome) ∧
      (∀ events outcome, (SchedulerHost.serve started installed : Host C E).Runs events outcome →
        Hosted events outcome) ∧
      ∀ events outcome, (ConsoleHost.run started : Host C E).Runs events outcome → Hosted events outcome :=
  ⟨always_lifespan, always_worker, always_scheduler, always_console⟩

end Hosts

section Console

def files : ApplicationContainer Nat where
  startupCallbacks := [0]
  asyncShutdownCallbacks := [1, 2]
  shutdownCallbacks := [3]

def releaseError : Failure String := .group "Application shutdown callbacks failed" [.error "OSError"]

-- The operation of a command raises, and so does the first callback that is run after it.
def commandEvents : List (HostEvent Nat String) :=
  [.asked .build (.ok files), .asked (.startup 0) (.ok ()),
    .asked (.work .operation) (.error (.error "ValueError")),
    .asked (.release (.shutdown 2)) (.error (.error "OSError")), .asked (.release (.shutdown 1)) (.ok ()),
    .asked (.release (.close 3)) (.ok ())]

theorem runs_command :
    (ConsoleHost.run "RuntimeError" : Host Nat String).Runs commandEvents (.raised releaseError) := by
  refine Program.runs_await.mpr (.inr ⟨.ok files, _, rfl, ?_⟩)
  refine Program.runs_await.mpr (.inr ⟨.ok (), _, rfl, ?_⟩)
  refine Program.runs_await.mpr (.inr ⟨.error (.error "ValueError"), _, rfl, ?_⟩)
  refine Program.runs_await.mpr (.inr ⟨.error (.error "OSError"), _, rfl, ?_⟩)
  refine Program.runs_await.mpr (.inr ⟨.ok (), _, rfl, ?_⟩)
  refine Program.runs_await.mpr (.inr ⟨.ok (), _, rfl, ?_⟩)
  exact Program.runs_raise.mpr ⟨rfl, rfl⟩

theorem hosts_release_console : Hosted commandEvents (.raised releaseError) := by
  obtain ⟨-, -, -, hconsole⟩ := hosts_release (C := Nat) "RuntimeError" false
  exact hconsole commandEvents (.raised releaseError) runs_command

end Console
end Scaffold.Runtime
