import Mathlib.Data.List.Basic
import Mathlib.Tactic.Common

namespace Scaffold

-- Coroutines by their awaits.

-- What a coroutine does next: it ends, raises, writes a log record, or makes a request and goes on with
-- the answer or with the exception that is raised there, which may also be a cancellation.
inductive Move (Q : Type) (R : Q → Type) (L X S : Type) where
  | done
  | raise (error : X)
  | log (record : L) (next : S)
  | await (request : Q) (next : Except X (R request) → S)

-- A coroutine with its states, which may be without end.
structure Program (Q : Type) (R : Q → Type) (L X : Type) where
  State : Type
  move : State → Move Q R L X State
  start : State

namespace Program

variable {Q : Type} {R : Q → Type} {L X : Type}

inductive Event (Q : Type) (R : Q → Type) (L X : Type) where
  | asked (request : Q) (answer : Except X (R request))
  | logged (record : L)

inductive Outcome (Q X : Type) where
  | returned
  | raised (error : X)
  | waiting (request : Q)

-- What is done from a state on until the end, or until an answer is missing.
inductive RunsFrom {S : Type} (move : S → Move Q R L X S) : S → List (Event Q R L X) → Outcome Q X → Prop
  | done {s : S} (h : move s = .done) : RunsFrom move s [] .returned
  | raise {s : S} {error : X} (h : move s = .raise error) : RunsFrom move s [] (.raised error)
  | waiting {s : S} {request : Q} {next : Except X (R request) → S} (h : move s = .await request next) :
      RunsFrom move s [] (.waiting request)
  | log {s next : S} {record : L} {events : List (Event Q R L X)} {outcome : Outcome Q X}
      (h : move s = .log record next) (hrest : RunsFrom move next events outcome) :
      RunsFrom move s (.logged record :: events) outcome
  | await {s : S} {request : Q} {next : Except X (R request) → S} {events : List (Event Q R L X)}
      {outcome : Outcome Q X} (answer : Except X (R request)) (h : move s = .await request next)
      (hrest : RunsFrom move (next answer) events outcome) :
      RunsFrom move s (.asked request answer :: events) outcome

def Runs (p : Program Q R L X) (events : List (Event Q R L X)) (outcome : Outcome Q X) : Prop :=
  RunsFrom p.move p.start events outcome

def Event.request : Event Q R L X → Option Q
  | .asked request _ => some request
  | .logged _ => none

def Event.record : Event Q R L X → Option L
  | .asked _ _ => none
  | .logged record => some record

def Outcome.request : Outcome Q X → Option Q
  | .waiting request => some request
  | _ => none

-- The requests that were made, with the one that has no answer yet, and the records that were written.
def requests (events : List (Event Q R L X)) (outcome : Outcome Q X) : List Q :=
  events.filterMap Event.request ++ outcome.request.toList

def records (events : List (Event Q R L X)) : List L :=
  events.filterMap Event.record

section Build

def mapMove {S T : Type} (f : S → T) : Move Q R L X S → Move Q R L X T
  | .done => .done
  | .raise error => .raise error
  | .log record next => .log record (f next)
  | .await request next => .await request fun answer => f (next answer)

def done : Program Q R L X where
  State := Unit
  move _ := .done
  start := ()

def raise (error : X) : Program Q R L X where
  State := Unit
  move _ := .raise error
  start := ()

def logMove {S : Type} (record : L) (start : S) (move : S → Move Q R L X S) :
    Option S → Move Q R L X (Option S)
  | none => .log record (some start)
  | some s => mapMove some (move s)

def log (record : L) (next : Program Q R L X) : Program Q R L X where
  State := Option next.State
  move := logMove record next.start next.move
  start := none

def awaitMove (request : Q) (next : Except X (R request) → Program Q R L X) :
    Option (Σ answer, (next answer).State) → Move Q R L X (Option (Σ answer, (next answer).State))
  | none => .await request fun answer => some ⟨answer, (next answer).start⟩
  | some ⟨answer, s⟩ => mapMove (fun s => some ⟨answer, s⟩) ((next answer).move s)

def await (request : Q) (next : Except X (R request) → Program Q R L X) : Program Q R L X where
  State := Option (Σ answer, (next answer).State)
  move := awaitMove request next
  start := none

def answered {A : Type} (next : A → Program Q R L X) : Except X A → Program Q R L X
  | .error error => raise error
  | .ok answer => next answer

-- A request whose exceptions are not caught.
def perform (request : Q) (next : R request → Program Q R L X) : Program Q R L X :=
  await request (answered next)

-- How a program ends: `none` when it returns.
def ends : Option X → Outcome Q X
  | none => .returned
  | some error => .raised error

def ending : Option X → Program Q R L X
  | none => done
  | some error => raise error

-- Inside of the block, or in what it has decided on at the end of its program.
inductive Guarded (S σ F : Type) where
  | inside (seen : σ) (s : S)
  | finishing (s : F)

section Guard

variable {σ : Type} (observe : σ → Q → σ) (finish : σ → Option X → Program Q R L X)

abbrev FinishState : Type := Σ result : σ × Option X, (finish result.1 result.2).State

def finishMove (result : σ × Option X) (s : (finish result.1 result.2).State) :
    Move Q R L X (FinishState finish) :=
  mapMove (fun s => ⟨result, s⟩) ((finish result.1 result.2).move s)

def guardMove {S : Type} (move : S → Move Q R L X S) :
    Guarded S σ (FinishState finish) → Move Q R L X (Guarded S σ (FinishState finish))
  | .inside seen s =>
      match move s with
      | .done => mapMove .finishing (finishMove finish (seen, none) (finish seen none).start)
      | .raise error =>
          mapMove .finishing (finishMove finish (seen, some error) (finish seen (some error)).start)
      | .log record next => .log record (.inside seen next)
      | .await request next => .await request fun answer => .inside (observe seen request) (next answer)
  | .finishing ⟨result, s⟩ => mapMove .finishing (finishMove finish result s)

-- A program in a block that watches its requests and decides on its end.
def guard (seen : σ) (p : Program Q R L X) : Program Q R L X where
  State := Guarded p.State σ (FinishState finish)
  move := guardMove observe finish p.move
  start := .inside seen p.start

end Guard

end Build

section Runs

variable {S T : Type} {move : S → Move Q R L X S} {move' : T → Move Q R L X T} {f : S → T} {s : S}
  {p : Program Q R L X} {events : List (Event Q R L X)} {outcome : Outcome Q X}

-- A copy of a program among the states of another one runs as it does.
theorem runsFrom_map (hf : ∀ s, move' (f s) = mapMove f (move s)) :
    RunsFrom move' (f s) events outcome ↔ RunsFrom move s events outcome := by
  constructor
  · intro h
    generalize hstate : f s = t at h
    induction h generalizing s with
    | done h =>
        subst hstate
        rw [hf] at h
        cases hmove : move s <;> rw [hmove] at h <;> cases h
        exact .done hmove
    | raise h =>
        subst hstate
        rw [hf] at h
        cases hmove : move s <;> rw [hmove] at h <;> cases h
        exact .raise hmove
    | waiting h =>
        subst hstate
        rw [hf] at h
        cases hmove : move s <;> rw [hmove] at h <;> cases h
        exact .waiting hmove
    | log h _ ih =>
        subst hstate
        rw [hf] at h
        cases hmove : move s <;> rw [hmove] at h <;> cases h
        exact .log hmove (ih rfl)
    | await answer h _ ih =>
        subst hstate
        rw [hf] at h
        cases hmove : move s <;> rw [hmove] at h <;> cases h
        exact .await answer hmove (ih rfl)
  · intro h
    induction h with
    | done h => exact .done (by rw [hf, h]; rfl)
    | raise h => exact .raise (by rw [hf, h]; rfl)
    | waiting h => exact .waiting (by rw [hf, h]; rfl)
    | log h _ ih => exact .log (by rw [hf, h]; rfl) ih
    | await answer h _ ih => exact .await answer (by rw [hf, h]; rfl) ih

theorem runsFrom_done (h : move s = .done) : RunsFrom move s events outcome ↔ events = [] ∧ outcome = .returned := by
  constructor
  · intro hrun
    cases hrun with
    | done => exact ⟨rfl, rfl⟩
    | raise h' | waiting h' | log h' | await _ h' => cases h.symm.trans h'
  · rintro ⟨rfl, rfl⟩
    exact .done h

theorem runsFrom_raise {error : X} (h : move s = .raise error) :
    RunsFrom move s events outcome ↔ events = [] ∧ outcome = .raised error := by
  constructor
  · intro hrun
    cases hrun with
    | raise h' =>
        cases h.symm.trans h'
        exact ⟨rfl, rfl⟩
    | done h' | waiting h' | log h' | await _ h' => cases h.symm.trans h'
  · rintro ⟨rfl, rfl⟩
    exact .raise h

theorem runsFrom_log {record : L} {next : S} (h : move s = .log record next) :
    RunsFrom move s events outcome ↔ ∃ rest, events = .logged record :: rest ∧ RunsFrom move next rest outcome := by
  constructor
  · intro hrun
    cases hrun with
    | log h' hrest =>
        cases h.symm.trans h'
        exact ⟨_, rfl, hrest⟩
    | done h' | raise h' | waiting h' | await _ h' => cases h.symm.trans h'
  · rintro ⟨rest, rfl, hrest⟩
    exact .log h hrest

theorem runsFrom_await {request : Q} {next : Except X (R request) → S} (h : move s = .await request next) :
    RunsFrom move s events outcome ↔ (events = [] ∧ outcome = .waiting request) ∨
      ∃ answer rest, events = .asked request answer :: rest ∧ RunsFrom move (next answer) rest outcome := by
  constructor
  · intro hrun
    cases hrun with
    | waiting h' =>
        cases h.symm.trans h'
        exact .inl ⟨rfl, rfl⟩
    | await answer h' hrest =>
        cases h.symm.trans h'
        exact .inr ⟨answer, _, rfl, hrest⟩
    | done h' | raise h' | log h' => cases h.symm.trans h'
  · rintro (⟨rfl, rfl⟩ | ⟨answer, rest, rfl, hrest⟩)
    · exact .waiting h
    · exact .await answer h hrest

theorem runs_done : (done : Program Q R L X).Runs events outcome ↔ events = [] ∧ outcome = .returned :=
  runsFrom_done rfl

theorem runs_raise {error : X} :
    (raise error : Program Q R L X).Runs events outcome ↔ events = [] ∧ outcome = .raised error :=
  runsFrom_raise rfl

theorem runs_log {record : L} : (log record p).Runs events outcome ↔
    ∃ rest, events = .logged record :: rest ∧ p.Runs rest outcome := by
  have hfirst : logMove record p.start p.move none = .log record (some p.start) := rfl
  have hrest : ∀ s, logMove record p.start p.move (some s) = mapMove some (p.move s) := fun _ => rfl
  change RunsFrom (logMove record p.start p.move) none events outcome ↔ _
  rw [runsFrom_log hfirst]
  simp only [runsFrom_map hrest]
  rfl

theorem runs_await {request : Q} {next : Except X (R request) → Program Q R L X} :
    (await request next).Runs events outcome ↔ (events = [] ∧ outcome = .waiting request) ∨
      ∃ answer rest, events = .asked request answer :: rest ∧ (next answer).Runs rest outcome := by
  have hfirst : awaitMove request next none = .await request fun answer => some ⟨answer, (next answer).start⟩ := rfl
  have hrest : ∀ answer s, awaitMove request next (some ⟨answer, s⟩) =
      mapMove (fun s => some ⟨answer, s⟩) ((next answer).move s) := fun _ _ => rfl
  change RunsFrom (awaitMove request next) none events outcome ↔ _
  rw [runsFrom_await hfirst]
  simp only [runsFrom_map (hrest _)]
  rfl

theorem runs_perform {request : Q} {next : R request → Program Q R L X} :
    (perform request next).Runs events outcome ↔ (events = [] ∧ outcome = .waiting request) ∨
      (∃ error, events = [.asked request (.error error)] ∧ outcome = .raised error) ∨
        ∃ answer rest, events = .asked request (.ok answer) :: rest ∧ (next answer).Runs rest outcome := by
  rw [perform, runs_await]
  constructor
  · rintro (h | ⟨answer, rest, rfl, h⟩)
    · exact .inl h
    · cases answer with
      | error error =>
          obtain ⟨rfl, rfl⟩ := runs_raise.mp h
          exact .inr (.inl ⟨error, rfl, rfl⟩)
      | ok answer => exact .inr (.inr ⟨answer, rest, rfl, h⟩)
  · rintro (h | ⟨error, rfl, rfl⟩ | ⟨answer, rest, rfl, h⟩)
    · exact .inl h
    · exact .inr ⟨.error error, [], rfl, runs_raise.mpr ⟨rfl, rfl⟩⟩
    · exact .inr ⟨.ok answer, rest, rfl, h⟩

theorem runs_ending {result : Option X} :
    (ending result : Program Q R L X).Runs events outcome ↔ events = [] ∧ outcome = ends result := by
  cases result with
  | none => exact runs_done
  | some error => exact runs_raise

theorem requests_append (before after : List (Event Q R L X)) (outcome : Outcome Q X) :
    requests (before ++ after) outcome = before.filterMap Event.request ++ requests after outcome := by
  simp [requests]

theorem records_asked {request : Q} {answer : Except X (R request)} :
    records (.asked request answer :: events) = (records events : List L) := rfl

theorem records_logged {record : L} :
    records (.logged record :: events : List (Event Q R L X)) = record :: records events := rfl

theorem records_map_logged (written : List L) :
    records (written.map (Event.logged : L → Event Q R L X)) = written := by
  induction written with
  | nil => rfl
  | cons record written ih => exact congrArg (List.cons record) ih

theorem records_append (before after : List (Event Q R L X)) :
    records (before ++ after) = records before ++ records after :=
  List.filterMap_append ..

end Runs

section Guard

variable {σ : Type} {observe : σ → Q → σ} {finish : σ → Option X → Program Q R L X} {seen : σ}
  {p : Program Q R L X} {events : List (Event Q R L X)} {outcome : Outcome Q X}

-- What the block has seen.
def watched (observe : σ → Q → σ) (seen : σ) (events : List (Event Q R L X)) : σ :=
  (events.filterMap Event.request).foldl observe seen

variable {S : Type} {move : S → Move Q R L X S} {s : S}

-- A state with the first move of another one runs as that one.
theorem runsFrom_congr {t : S} (h : move s = move t) :
    RunsFrom move s events outcome ↔ RunsFrom move t events outcome := by
  cases hmove : move t with
  | done => rw [runsFrom_done hmove, runsFrom_done (h.trans hmove)]
  | raise error => rw [runsFrom_raise hmove, runsFrom_raise (h.trans hmove)]
  | log record next => rw [runsFrom_log hmove, runsFrom_log (h.trans hmove)]
  | await request next => rw [runsFrom_await hmove, runsFrom_await (h.trans hmove)]

theorem runsFrom_finishing {result : σ × Option X} {s : (finish result.1 result.2).State} :
    RunsFrom (guardMove observe finish move) (.finishing ⟨result, s⟩) events outcome ↔
      RunsFrom (finish result.1 result.2).move s events outcome := by
  have hmove : ∀ s, guardMove observe finish move (.finishing ⟨result, s⟩) =
      mapMove (fun s => .finishing ⟨result, s⟩) ((finish result.1 result.2).move s) := by
    intro s
    simp only [guardMove, finishMove]
    cases (finish result.1 result.2).move s <;> rfl
  exact runsFrom_map hmove

-- What the block does when its program has ended.
def BlockRuns (observe : σ → Q → σ) (finish : σ → Option X → Program Q R L X) (move : S → Move Q R L X S)
    (seen : σ) (s : S) (events : List (Event Q R L X)) (outcome : Outcome Q X) : Prop :=
  (∃ request, outcome = .waiting request ∧ RunsFrom move s events outcome) ∨
    ∃ before after result, events = before ++ after ∧ RunsFrom move s before (ends result) ∧
      (finish (watched observe seen before) result).Runs after outcome

theorem runsFrom_ends {result : Option X} (h : RunsFrom move s [] (ends result)) :
    RunsFrom move s events outcome ↔ events = [] ∧ outcome = ends result := by
  cases result with
  | none =>
      cases h with
      | done h => exact runsFrom_done h
  | some error =>
      cases h with
      | raise h => exact runsFrom_raise h

theorem inside_of_ends {result : Option X} (h : RunsFrom move s [] (ends result)) :
    RunsFrom (guardMove observe finish move) (.inside seen s) events outcome ↔
      BlockRuns observe finish move seen s events outcome := by
  have hguard : guardMove observe finish move (.inside seen s) =
      guardMove observe finish move (.finishing ⟨(seen, result), (finish seen result).start⟩) := by
    cases result with
    | none =>
        cases h with
        | done h => simp only [guardMove, h]
    | some error =>
        cases h with
        | raise h => simp only [guardMove, h]
  rw [runsFrom_congr hguard, runsFrom_finishing]
  constructor
  · exact fun hfinish => .inr ⟨[], events, result, rfl, h, hfinish⟩
  · rintro (⟨request, rfl, hrun⟩ | ⟨before, after, other, rfl, hrun, hfinish⟩)
    · obtain ⟨-, hwaiting⟩ := (runsFrom_ends h).mp hrun
      cases result <;> cases hwaiting
    · obtain ⟨rfl, hends⟩ := (runsFrom_ends h).mp hrun
      cases result <;> cases other <;> cases hends <;> exact hfinish

theorem inside_of_log {record : L} {next : S} (h : move s = .log record next)
    (ih : ∀ rest, events = .logged record :: rest →
      (RunsFrom (guardMove observe finish move) (.inside seen next) rest outcome ↔
        BlockRuns observe finish move seen next rest outcome)) :
    RunsFrom (guardMove observe finish move) (.inside seen s) events outcome ↔
      BlockRuns observe finish move seen s events outcome := by
  have hguard : guardMove observe finish move (.inside seen s) = .log record (.inside seen next) := by
    simp only [guardMove, h]
  rw [runsFrom_log hguard]
  constructor
  · rintro ⟨rest, rfl, hrest⟩
    obtain ⟨request, rfl, hrun⟩ | ⟨before, after, result, rfl, hrun, hfinish⟩ := (ih rest rfl).mp hrest
    · exact .inl ⟨request, rfl, .log h hrun⟩
    · exact .inr ⟨.logged record :: before, after, result, rfl, .log h hrun, hfinish⟩
  · rintro (⟨request, rfl, hrun⟩ | ⟨before, after, result, rfl, hrun, hfinish⟩)
    · obtain ⟨rest, rfl, hnext⟩ := (runsFrom_log h).mp hrun
      exact ⟨rest, rfl, (ih rest rfl).mpr (.inl ⟨request, rfl, hnext⟩)⟩
    · obtain ⟨rest, rfl, hnext⟩ := (runsFrom_log h).mp hrun
      exact ⟨rest ++ after, rfl, (ih _ rfl).mpr (.inr ⟨rest, after, result, rfl, hnext, hfinish⟩)⟩

theorem inside_of_await {request : Q} {next : Except X (R request) → S} (h : move s = .await request next)
    (ih : ∀ answer rest, events = .asked request answer :: rest →
      (RunsFrom (guardMove observe finish move) (.inside (observe seen request) (next answer)) rest outcome ↔
        BlockRuns observe finish move (observe seen request) (next answer) rest outcome)) :
    RunsFrom (guardMove observe finish move) (.inside seen s) events outcome ↔
      BlockRuns observe finish move seen s events outcome := by
  have hguard : guardMove observe finish move (.inside seen s) =
      .await request fun answer => .inside (observe seen request) (next answer) := by
    simp only [guardMove, h]
  rw [runsFrom_await hguard]
  constructor
  · rintro (⟨rfl, rfl⟩ | ⟨answer, rest, rfl, hrest⟩)
    · exact .inl ⟨request, rfl, .waiting h⟩
    · obtain ⟨other, rfl, hrun⟩ | ⟨before, after, result, rfl, hrun, hfinish⟩ := (ih answer rest rfl).mp hrest
      · exact .inl ⟨other, rfl, .await answer h hrun⟩
      · exact .inr ⟨.asked request answer :: before, after, result, rfl, .await answer h hrun, hfinish⟩
  · rintro (⟨other, rfl, hrun⟩ | ⟨before, after, result, rfl, hrun, hfinish⟩)
    · obtain ⟨rfl, heq⟩ | ⟨answer, rest, rfl, hnext⟩ := (runsFrom_await h).mp hrun
      · exact .inl ⟨rfl, heq⟩
      · exact .inr ⟨answer, rest, rfl, (ih answer rest rfl).mpr (.inl ⟨other, rfl, hnext⟩)⟩
    · obtain ⟨rfl, heq⟩ | ⟨answer, rest, rfl, hnext⟩ := (runsFrom_await h).mp hrun
      · cases result <;> cases heq
      · exact .inr ⟨answer, rest ++ after, rfl,
          (ih answer _ rfl).mpr (.inr ⟨rest, after, result, rfl, hnext, hfinish⟩)⟩

theorem runsFrom_inside : RunsFrom (guardMove observe finish move) (.inside seen s) events outcome ↔
    BlockRuns observe finish move seen s events outcome := by
  induction events generalizing seen s with
  | nil =>
      cases hmove : move s with
      | done => exact inside_of_ends (show RunsFrom move s [] (ends none) from .done hmove)
      | raise error => exact inside_of_ends (show RunsFrom move s [] (ends (some error)) from .raise hmove)
      | log record next => exact inside_of_log hmove nofun
      | await request next => exact inside_of_await hmove nofun
  | cons event events ih =>
      cases hmove : move s with
      | done => exact inside_of_ends (show RunsFrom move s [] (ends none) from .done hmove)
      | raise error => exact inside_of_ends (show RunsFrom move s [] (ends (some error)) from .raise hmove)
      | log record next =>
          refine inside_of_log hmove fun rest heq => ?_
          obtain rfl := (List.cons.inj heq).2
          exact ih
      | await request next =>
          refine inside_of_await hmove fun answer rest heq => ?_
          obtain rfl := (List.cons.inj heq).2
          exact ih

-- A block runs its program, and when that has ended what it has decided.
theorem runs_guard : (guard observe finish seen p).Runs events outcome ↔
    (∃ request, outcome = .waiting request ∧ p.Runs events outcome) ∨
      ∃ before after result, events = before ++ after ∧ p.Runs before (ends result) ∧
        (finish (watched observe seen before) result).Runs after outcome :=
  runsFrom_inside

end Guard

end Program

end Scaffold
