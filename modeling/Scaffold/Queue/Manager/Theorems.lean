import Scaffold.Queue.Manager
import Scaffold.Resources.Lazy.Theorems
import Mathlib.Data.List.Nodup

namespace Scaffold.Queue

open Machine Resources

variable {J D F V C T : Type*} {settings : QueueSettings} {codecs : Codecs J D}

-- The consumer of a `consume` block that has been entered and has not finished exiting.
def Call.block : Call J D V C → Option C
  | .inBlock c => some c
  | .exiting c => some c
  | _ => none

-- The call is inside `aclose` or was an `aclose` that has ended.
def Call.closing : Call J D V C → Bool
  | .closingConsumers _ _ _ => true
  | .closingResources _ _ _ => true
  | .done .closed => true
  | .done (.closeFailed _) => true
  | _ => false

-- The call is inside a call on a lazy handle.
def Call.usesLazy : Call J D V C → Bool
  | .getting _ _ => true
  | .closingResources _ _ _ => true
  | _ => false

-- The handle whose `aclose` the call awaits.
def Call.closesBackend : Call J D V C → Option String
  | .closingResources name _ _ => some name
  | _ => none

-- The lazy part of a call is where the call says.
def CallOk (l : CallState J D V C) : Prop :=
  match l.call with
  | .getting name _ => l.lazy.task = .getLock name ∨ l.lazy.task = .factory name
  | .closingResources name _ _ =>
      l.lazy.task = .closeLock name .direct ∨ ∃ v, l.lazy.task = .closer name v .direct
  | _ => l.lazy.task.free = true

theorem CallOk.free {l : CallState J D V C} (h : CallOk l) (huses : l.call.usesLazy = false) :
    l.lazy.task.free = true := by
  cases hcall : l.call <;> simp_all [CallOk, Call.usesLazy]

theorem closesBackend_of_usesLazy {call : Call J D V C} (h : call.usesLazy = false) :
    call.closesBackend = none := by
  cases call <;> simp_all [Call.usesLazy, Call.closesBackend]

-- Only an `aclose` of the manager is ever inside a closer.
theorem CallOk.closer {l : CallState J D V C} (h : CallOk l) {name : String} {v : V}
    {frame : Frame String} (htask : l.lazy.task = .closer name v frame) :
    l.call.closesBackend = some name := by
  cases hcall : l.call <;> simp_all [CallOk, Call.closesBackend, Task.free]

theorem CallOk.of_free {l : CallState J D V C} (hfree : l.lazy.task.free = true)
    (huses : l.call.usesLazy = false) : CallOk l := by
  cases hcall : l.call <;> simp_all [CallOk, Call.usesLazy]

-- A move that has nothing to do with the shutdown.
structure Plain (s : ManagerState V C T) (l : CallState J D V C) (s' : ManagerState V C T)
    (l' : CallState J D V C) : Prop where
  closed : s'.closed = s.closed
  consumers : s'.consumers = s.consumers
  lazies : s'.lazies = s.lazies
  publishes : s.closed = true → s'.publishes = s.publishes
  returned : s'.returned = s.returned
  yielded : s'.yielded = s.yielded
  consumerCloses : s'.consumerCloses = s.consumerCloses
  backendCloses : s'.backendCloses = s.backendCloses
  lazy : l'.lazy = l.lazy
  attempted : l'.attempted = l.attempted
  attempts : l'.attempts = l.attempts
  block : l'.call.block = none
  closing : l'.call.closing = false

theorem raise_plain (s : ManagerState V C T) (l : CallState J D V C) (error : QueueFailure) :
    Plain s l (raise s l error).1 (raise s l error).2 := by
  constructor <;> simp [raise, Call.block, Call.closing]

theorem publishEnvelope_plain (s : ManagerState V C T) (l : CallState J D V C) (d : Dispatcher V)
    (message : MessageEnvelope D) (queue : Option String) :
    Plain s l (publishEnvelope codecs s l d message queue).1
      (publishEnvelope codecs s l d message queue).2 ∧
    (publishEnvelope codecs s l d message queue).2.call.usesLazy = false := by
  unfold publishEnvelope
  split_ifs with hclosed
  · exact ⟨raise_plain s l _, rfl⟩
  · split
    · exact ⟨raise_plain s l _, rfl⟩
    · exact ⟨raise_plain s l _, rfl⟩
    · refine ⟨?_, rfl⟩
      constructor <;> simp [Call.block, Call.closing, hclosed]

theorem dispatchJob_plain (codecs : Codecs J D) (s : ManagerState V C T) (l : CallState J D V C)
    (d : Dispatcher V) (job : J)
    (queue correlationId : Option String) (newId : Uuid) (now : D) :
    Plain s l (dispatchJob codecs s l d job queue correlationId newId now).1
      (dispatchJob codecs s l d job queue correlationId newId now).2 ∧
    (dispatchJob codecs s l d job queue correlationId newId now).2.call.usesLazy = false := by
  unfold dispatchJob
  split
  · exact ⟨raise_plain s l _, rfl⟩
  · exact publishEnvelope_plain s l d _ queue

theorem continueGet_plain (settings : QueueSettings) (codecs : Codecs J D) (s : ManagerState V C T)
    (l : CallState J D V C) (name : String)
    (backend : V) (after : AfterGet J D) :
    Plain s l (continueGet settings codecs s l name backend after).1
      (continueGet settings codecs s l name backend after).2 ∧
    (continueGet settings codecs s l name backend after).2.call.usesLazy = false := by
  cases after with
  | get =>
      refine ⟨?_, rfl⟩
      constructor <;> simp [continueGet, Call.block, Call.closing]
  | dispatch job queue correlationId newId now => exact dispatchJob_plain codecs s l _ job queue _ newId now
  | replay message queue => exact publishEnvelope_plain s l _ message _
  | consume target concurrency =>
      refine ⟨?_, rfl⟩
      constructor <;> simp [continueGet, Call.block, Call.closing]

section Effect

variable [DecidableEq V] [DecidableEq C]

omit [DecidableEq V] [DecidableEq C] in
-- A `get` under way waits for its lock or its factory until it ends.
theorem taskStep_get {t : T} {lazies : Handles String V T} {lazy : Local String V} {act : Act String V}
    {next : Handles String V T × Local String V} {name : String}
    (hwait : act = .get name ∧ lazy.task.free = true ∨
      isProgress act = true ∧ (lazy.task = .getLock name ∨ lazy.task = .factory name))
    (h : taskStep t lazies lazy act = some next) :
    (next.2.task = .getLock name ∨ next.2.task = .factory name) ∨
      (∃ v, next.2.task = .done (.value name v)) ∨ ∃ error, next.2.task = .done (.failed error) := by
  rcases hwait with ⟨rfl, hfree⟩ | ⟨hprogress, hwait⟩
  · simp only [taskStep, hfree, if_true] at h
    split_ifs at h <;> obtain rfl := Option.some.inj h <;> simp
  · cases act <;> rcases hwait with hwait | hwait <;>
      simp only [taskStep, hwait, isProgress, Bool.false_eq_true] at h hprogress <;> try cases h
    · obtain ⟨-, rfl⟩ := guarded h
      unfold getLocked
      split_ifs
      · simp
      · split <;> simp
    · simp
    · by_cases hclosed : (lazies name).closed = true <;> simp [factoryReturned, hclosed]
    · simp

omit [DecidableEq C] in
-- A call that waits for its backend goes on once its `get` has ended.
theorem resume_plain (settings : QueueSettings) (codecs : Codecs J D) (act : Act String V)
    (s : ManagerState V C T) (l : CallState J D V C)
    {name : String} {after : AfterGet J D} (hcall : l.call = .getting name after)
    (hwait : (l.lazy.task = .getLock name ∨ l.lazy.task = .factory name) ∨
      (∃ v, l.lazy.task = .done (.value name v)) ∨ ∃ error, l.lazy.task = .done (.failed error)) :
    Plain s l (resume settings codecs act s l).1 (resume settings codecs act s l).2 ∧
      CallOk (resume settings codecs act s l).2 := by
  rcases hwait with hwait | ⟨v, hdone⟩ | ⟨error, hdone⟩
  · have hstay : resume settings codecs act s l = (s, l) := by
      rcases hwait with hwait | hwait <;> simp [resume, hcall, hwait]
    rw [hstay]
    refine ⟨?_, by simpa [CallOk, hcall] using hwait⟩
    constructor <;> simp [hcall, Call.block, Call.closing]
  · have hgo : resume settings codecs act s l = continueGet settings codecs s l name v after := by
      simp [resume, hcall, hdone]
    obtain ⟨hplain, huses⟩ := continueGet_plain settings codecs s l name v after
    rw [hgo]
    exact ⟨hplain, .of_free (by rw [hplain.lazy, hdone]; rfl) huses⟩
  · have hgo : resume settings codecs act s l = raise s l (getFailure codecs s name error) := by
      simp [resume, hcall, hdone]
    rw [hgo]
    exact ⟨raise_plain s l _, .of_free (by simp [raise, hdone, Task.free]) rfl⟩

-- Everything a move of a call can do.
inductive Effect (settings : QueueSettings) (codecs : Codecs J D) (t : T) (s : ManagerState V C T)
    (l : CallState J D V C) : ManagerState V C T → CallState J D V C → Prop where
  | plain {s' l'} (hfrom : l.call.usesLazy = false) (hblock : l.call.block = none)
      (hto : l'.call.usesLazy = false) (h : Plain s l s' l') : Effect settings codecs t s l s' l'
  | get {act next s' l'} (hblock : l.call.block = none) (hopen : l.call.closesBackend = none)
      (hnext : taskStep t s.lazies l.lazy act = some next)
      (h : Plain { s with lazies := next.1 } { l with lazy := next.2 } s' l') (hok : CallOk l') :
      Effect settings codecs t s l s' l'
  | enter {name} (c : C) (hcall : l.call = .creating name) (hfresh : c ∉ s.returned)
      (hopen : s.closed = false) :
      Effect settings codecs t s l
        { s with
          returned := s.returned ++ [c], consumers := s.consumers ++ [c], yielded := s.yielded ++ [c] }
        { l with call := .inBlock c }
  | reject {name} (c : C) (hcall : l.call = .creating name) (hfresh : c ∉ s.returned)
      (hclosed : s.closed = true) :
      Effect settings codecs t s l
        { s with returned := s.returned ++ [c], consumerCloses := s.consumerCloses ++ [c] }
        { l with call := .rejecting c }
  | exit (c : C) (hcall : l.call = .inBlock c) :
      Effect settings codecs t s l { s with consumerCloses := s.consumerCloses ++ [c] }
        { l with call := .exiting c }
  | left (c : C) (result : CallEnd V) (hcall : l.call = .exiting c)
      (hresult : (Call.done (J := J) (D := D) (C := C) result).closing = false) :
      Effect settings codecs t s l { s with consumers := s.consumers.erase c }
        { l with call := .done result }
  | shut (hfree : l.call.free = true) :
      Effect settings codecs t s l
        (closeConsumers settings
          { s with closed := true, lazies := settings.names.foldl beginClose s.lazies }
          { l with snapshot := s.consumers, attempted := [], attempts := [] } [] s.consumers.reverse).1
        (closeConsumers settings
          { s with closed := true, lazies := settings.names.foldl beginClose s.lazies }
          { l with snapshot := s.consumers, attempted := [], attempts := [] } [] s.consumers.reverse).2
  | closeConsumer {c rest errors} (error : Option Failure)
      (hcall : l.call = .closingConsumers c rest errors) :
      Effect settings codecs t s l (closeConsumers settings s l (errors ++ error.toList) rest).1
        (closeConsumers settings s l (errors ++ error.toList) rest).2
  | closeResource {act lazies lazy name rest errors}
      (hcall : l.call = .closingResources name rest errors) (hprogress : isProgress act = true)
      (hnext : taskStep t s.lazies l.lazy act = some (lazies, lazy)) :
      Effect settings codecs t s l
        (resume settings codecs act { s with lazies := lazies } { l with lazy := lazy }).1
        (resume settings codecs act { s with lazies := lazies } { l with lazy := lazy }).2

omit [DecidableEq V] [DecidableEq C] in
theorem taskStep_of_free {t : T} {lazies : Handles String V T} {lazy : Local String V}
    {act : Act String V} (hfree : lazy.task.free = true) (hprogress : isProgress act = true) :
    taskStep t lazies lazy act = none := by
  cases act <;> cases htask : lazy.task <;> simp_all [isProgress, taskStep, Task.free]

omit [DecidableEq C] in
theorem startGet_effect [DecidableEq C] {t : T} {s s' : ManagerState V C T} {l l' : CallState J D V C}
    {name : String} {after : AfterGet J D} (hok : CallOk l)
    (hfrom : l.call.usesLazy = false ∧ l.call.block = none)
    (h : startGet settings codecs t s l name after = some (s', l')) :
    Effect settings codecs t s l s' l' := by
  obtain ⟨next, hnext, heq⟩ := Option.map_eq_some_iff.mp h
  have hwait := taskStep_get (.inl ⟨rfl, hok.free hfrom.1⟩) hnext
  obtain ⟨hplain, hok'⟩ := resume_plain settings codecs (.get name)
    { s with lazies := next.1 } { l with call := .getting name after, lazy := next.2 } rfl hwait
  rw [heq] at hplain hok'
  exact .get hfrom.2 (closesBackend_of_usesLazy hfrom.1) hnext { hplain with } hok'

omit [DecidableEq V] [DecidableEq C] in
theorem free_block {call : Call J D V C} (h : call.free = true) :
    call.usesLazy = false ∧ call.block = none := by
  cases call <;> simp_all [Call.free, Call.usesLazy, Call.block]

theorem Effect.of_eq {t : T} {s s' : ManagerState V C T} {l l' : CallState J D V C}
    {next : ManagerState V C T × CallState J D V C} (heq : next = (s', l'))
    (h : Effect settings codecs t s l next.1 next.2) : Effect settings codecs t s l s' l' := by
  subst heq
  exact h

theorem raise_effect {t : T} {s s' : ManagerState V C T} {l l' : CallState J D V C}
    {error : QueueFailure} (hfrom : l.call.usesLazy = false ∧ l.call.block = none)
    (h : some (raise s l error) = some (s', l')) : Effect settings codecs t s l s' l' := by
  exact .of_eq (Option.some.inj h) (.plain hfrom.1 hfrom.2 rfl (raise_plain s l error))

theorem callStep_effect {t : T} {s s' : ManagerState V C T} {l l' : CallState J D V C}
    {act : ManagerAct J D F V C} (hok : CallOk l)
    (h : callStep settings codecs t s l act = some (s', l')) : Effect settings codecs t s l s' l' := by
  cases act with
  | get name =>
      obtain ⟨hfree, h⟩ := Option.ite_none_right_eq_some.mp h
      have hfrom := free_block hfree
      split at h
      · exact raise_effect hfrom h
      · exact startGet_effect hok hfrom h
  | dispatch job connection queue correlationId newId now =>
      obtain ⟨hfree, h⟩ := Option.ite_none_right_eq_some.mp h
      have hfrom := free_block hfree
      split at h
      · exact raise_effect hfrom h
      · exact startGet_effect hok hfrom h
  | dispatchWith d job queue correlationId newId now =>
      obtain ⟨⟨hfree, -⟩, h⟩ := guarded h
      have hfrom := free_block hfree
      obtain ⟨hplain, huses⟩ := dispatchJob_plain codecs s l d job queue correlationId newId now
      rw [h] at hplain huses
      exact .plain hfrom.1 hfrom.2 huses hplain
  | replay failureId newId now =>
      obtain ⟨hfree, h⟩ := guarded h
      have hfrom := free_block hfree
      obtain ⟨rfl, rfl⟩ := Prod.mk.inj h
      refine .plain hfrom.1 hfrom.2 rfl ?_
      constructor <;> simp [Call.block, Call.closing]
  | findReturns record =>
      simp only [callStep] at h
      split at h
      · rename_i newId now hcall
        have hfrom : l.call.usesLazy = false ∧ l.call.block = none := by
          simp [hcall, Call.usesLazy, Call.block]
        split at h
        · exact raise_effect hfrom h
        · split at h
          · exact raise_effect hfrom h
          · split at h
            · exact raise_effect hfrom h
            · exact startGet_effect hok hfrom h
      · cases h
  | findRaises error =>
      simp only [callStep] at h
      split at h
      · rename_i hcall
        exact raise_effect (by simp [hcall, Call.usesLazy, Call.block]) h
      · cases h
  | consume connection queue concurrency =>
      obtain ⟨hfree, h⟩ := Option.ite_none_right_eq_some.mp h
      have hfrom := free_block hfree
      split at h
      · exact raise_effect hfrom h
      · split at h
        · exact startGet_effect hok hfrom h
        · exact raise_effect hfrom h
  | consumerReturns c =>
      simp only [callStep] at h
      split at h
      · rename_i name hcall
        split_ifs at h with hreturned hclosed
        · obtain ⟨rfl, rfl⟩ := Prod.mk.inj (Option.some.inj h)
          exact .reject c hcall hreturned hclosed
        · obtain ⟨rfl, rfl⟩ := Prod.mk.inj (Option.some.inj h)
          exact .enter c hcall hreturned (by simpa using hclosed)
      · cases h
  | consumerRaises error =>
      simp only [callStep] at h
      split at h
      · rename_i name hcall
        have hfrom : l.call.usesLazy = false ∧ l.call.block = none := by
          simp [hcall, Call.usesLazy, Call.block]
        split at h
        · split_ifs at h
          · exact raise_effect hfrom h
          · exact raise_effect hfrom h
        · exact raise_effect hfrom h
      · cases h
  | exitBlock =>
      simp only [callStep] at h
      split at h
      · rename_i c hcall
        obtain ⟨rfl, rfl⟩ := Prod.mk.inj (Option.some.inj h)
        exact .exit c hcall
      · cases h
  | consumerCloseEnds error =>
      simp only [callStep] at h
      split at h
      · rename_i c hcall
        have hfrom : l.call.usesLazy = false ∧ l.call.block = none := by
          simp [hcall, Call.usesLazy, Call.block]
        split at h
        · exact raise_effect hfrom h
        · exact raise_effect hfrom h
      · rename_i c hcall
        split at h
        · obtain ⟨rfl, rfl⟩ := Prod.mk.inj (Option.some.inj h)
          exact .left c .left hcall rfl
        · obtain ⟨rfl, rfl⟩ := Prod.mk.inj (Option.some.inj h)
          exact .left c _ hcall rfl
      · rename_i c rest errors hcall
        exact .of_eq (Option.some.inj h) (.closeConsumer error hcall)
      · cases h
  | publishEnds error =>
      simp only [callStep] at h
      split at h
      · rename_i hcall
        have hfrom : l.call.usesLazy = false ∧ l.call.block = none := by
          simp [hcall, Call.usesLazy, Call.block]
        split at h
        · obtain ⟨rfl, rfl⟩ := Prod.mk.inj (Option.some.inj h)
          refine .plain hfrom.1 hfrom.2 rfl ?_
          constructor <;> simp [Call.block, Call.closing]
        · exact raise_effect hfrom h
        · exact raise_effect hfrom h
      · cases h
  | aclose =>
      obtain ⟨hfree, heq⟩ := guarded h
      exact .of_eq heq (.shut hfree)
  | lazy act =>
      obtain ⟨hprogress, h⟩ := Option.ite_none_right_eq_some.mp h
      obtain ⟨⟨lazies, lazy⟩, hnext, heq⟩ := Option.map_eq_some_iff.mp h
      by_cases huses : l.call.usesLazy = true
      · cases hcall : l.call with
        | getting name after =>
            have hwait := taskStep_get (.inr ⟨hprogress, by simpa [CallOk, hcall] using hok⟩) hnext
            obtain ⟨hplain, hok'⟩ := resume_plain settings codecs act
              { s with lazies := lazies } { l with lazy := lazy } hcall hwait
            rw [heq] at hplain hok'
            exact .get (by simp [hcall, Call.block]) (by simp [hcall, Call.closesBackend]) hnext hplain hok'
        | closingResources name rest errors =>
            exact .of_eq heq (.closeResource hcall hprogress hnext)
        | _ => simp [hcall, Call.usesLazy] at huses
      · have hfree := hok.free (by simpa using huses)
        rw [taskStep_of_free hfree hprogress] at hnext
        cases hnext

abbrev LazyPath (t : T) : Handles String V T × Local String V →
    Handles String V T × Local String V → Prop :=
  Reaches (Pool.soloStep taskStep envStep t)

omit [DecidableEq V] in
theorem lazyPath_single {t : T} {lazies : Handles String V T} {lazy : Local String V}
    {a : Act String V} {next : Handles String V T × Local String V}
    (h : taskStep t lazies lazy a = some next) : LazyPath t (lazies, lazy) next :=
  .single (a := .inl a) h

omit [DecidableEq V] in
theorem lazyPath_beginClose {t : T} (names : List String) (lazies : Handles String V T)
    (lazy : Local String V) : LazyPath t (lazies, lazy) (names.foldl beginClose lazies, lazy) := by
  induction names generalizing lazies with
  | nil => exact .refl
  | cons name names ih =>
      have hone : LazyPath t (lazies, lazy) (beginClose lazies name, lazy) :=
        .single (a := .inr name) rfl
      exact hone.trans (ih _)

-- A move inside `aclose`.
structure Shut (t : T) (s : ManagerState V C T) (l : CallState J D V C) (s' : ManagerState V C T)
    (l' : CallState J D V C) : Prop where
  closed : s'.closed = s.closed
  consumers : s'.consumers = s.consumers ∨ s'.consumers = []
  publishes : s'.publishes = s.publishes
  returned : s'.returned = s.returned
  yielded : s'.yielded = s.yielded
  consumerCloses : s.consumerCloses ⊆ s'.consumerCloses
  backendCloses : s.backendCloses ⊆ s'.backendCloses
  path : LazyPath t (s.lazies, l.lazy) (s'.lazies, l'.lazy)
  sealed : Sealed s.lazies s'.lazies
  block : l'.call.block = none
  closing : l'.call.closing = true
  ok : CallOk l'
  closer : ∀ name v frame, l'.lazy.task = .closer name v frame → (name, v) ∈ s'.backendCloses

omit [DecidableEq V] [DecidableEq C] in
theorem closeResources_shut (t : T) (s : ManagerState V C T) (l : CallState J D V C)
    (errors : List Failure) (rest : List String) (hfree : l.lazy.task.free = true) :
    Shut t s l (closeResources s l errors rest).1 (closeResources s l errors rest).2 := by
  cases rest with
  | nil =>
      have hnot : ∀ name v frame, l.lazy.task ≠ .closer name v frame := by
        intro name v frame htask
        simp [htask, Task.free] at hfree
      by_cases herrors : errors = []
      · constructor <;>
          simp_all [closeResources, Call.block, Call.closing, CallOk, Reaches.refl, Sealed.refl]
      · constructor <;>
          simp_all [closeResources, Call.block, Call.closing, CallOk, Reaches.refl, Sealed.refl]
  | cons name rest =>
      have hpath : LazyPath t (s.lazies, l.lazy) (startAclose s.lazies l.lazy name .direct) :=
        lazyPath_single (a := .aclose name) (by simp [taskStep, hfree])
      exact {
        closed := rfl, consumers := .inl rfl, publishes := rfl, returned := rfl, yielded := rfl
        consumerCloses := List.Subset.refl _
        backendCloses := List.Subset.refl _
        path := hpath
        sealed := sealed_beginClose s.lazies name
        block := rfl, closing := rfl
        ok := .inl rfl
        closer := by simp [closeResources, startAclose] }

omit [DecidableEq V] [DecidableEq C] in
theorem closeConsumers_shut (settings : QueueSettings) (t : T) (s : ManagerState V C T)
    (l : CallState J D V C)
    (errors : List Failure) (rest : List C) (hfree : l.lazy.task.free = true) :
    Shut t s l (closeConsumers settings s l errors rest).1 (closeConsumers settings s l errors rest).2 := by
  cases rest with
  | nil =>
      have hshut := closeResources_shut t { s with consumers := [] } l errors settings.names.reverse hfree
      exact { hshut with consumers := .inr (by rcases hshut.consumers with h | h <;> exact h) }
  | cons c rest =>
      exact {
        closed := rfl, consumers := .inl rfl, publishes := rfl, returned := rfl, yielded := rfl
        consumerCloses := List.subset_append_left _ _
        backendCloses := List.Subset.refl _
        path := .refl
        sealed := .refl _
        block := rfl, closing := rfl
        ok := hfree
        closer := by
          intro name v frame htask
          have htask : l.lazy.task = .closer name v frame := htask
          simp [htask, Task.free] at hfree }

omit [DecidableEq V] [DecidableEq C] in
-- An `aclose` under way waits for its lock or its closer until it ends.
theorem taskStep_close {t : T} {lazies : Handles String V T} {lazy : Local String V}
    {act : Act String V} {lazies' : Handles String V T} {lazy' : Local String V} {name : String}
    (hprogress : isProgress act = true)
    (hwait : lazy.task = .closeLock name .direct ∨ ∃ v, lazy.task = .closer name v .direct)
    (h : taskStep t lazies lazy act = some (lazies', lazy')) :
    (∃ v, lazy'.task = .closer name v .direct) ∨ lazy'.task = .done (.closed name) ∨
      (act = .cancelWait ∧ lazy'.task = .done (.failed .cancelled)) ∨
      ∃ v error, lazy.task = .closer name v .direct ∧ act = .closerRaises error ∧
        lazy'.task = .done (.failed error) := by
  cases act <;> rcases hwait with hwait | ⟨v, hwait⟩ <;>
    simp only [taskStep, hwait, isProgress, Bool.false_eq_true] at h hprogress <;> try cases h
  · obtain ⟨-, h⟩ := guarded h
    unfold acloseLocked at h
    split at h
    · obtain ⟨-, rfl⟩ := Prod.mk.inj h
      exact .inr (.inl rfl)
    · rename_i v _
      obtain ⟨-, rfl⟩ := Prod.mk.inj h
      exact .inl ⟨v, rfl⟩
  · exact .inr (.inr (.inl ⟨rfl, rfl⟩))
  · exact .inr (.inl rfl)
  · exact .inr (.inr (.inr ⟨v, _, hwait, rfl, rfl⟩))

omit [DecidableEq V] [DecidableEq C] in
theorem attempted_shut (t : T) (s : ManagerState V C T) (l : CallState J D V C) (name : String)
    (attempt : Attempt) (errors : List Failure) (rest : List String) (hfree : l.lazy.task.free = true) :
    Shut t s l (attempted s l name attempt errors rest).1 (attempted s l name attempt errors rest).2 :=
  { closeResources_shut t s { l with attempts := l.attempts ++ [(name, attempt)] } errors rest hfree with }

-- What `aclose` does when the `aclose` of its current handle has moved.
inductive Closing (act : Act String V) (s : ManagerState V C T) (l : CallState J D V C)
    (name : String) (rest : List String) (errors : List Failure) :
    ManagerState V C T → CallState J D V C → Prop where
  | calls (v : V) (htask : l.lazy.task = .closer name v .direct) :
      Closing act s l name rest errors
        { s with backendCloses := s.backendCloses ++ [(name, v)] } l
  | ends (attempt : Attempt) (errors' : List Failure) (hfree : l.lazy.task.free = true)
      (hattempt : attempt = .closed ∧ l.lazy.task = .done (.closed name) ∨
        attempt = .waitCancelled ∨ ∃ error, attempt = .failed error ∧ act = .closerRaises error) :
      Closing act s l name rest errors (attempted s l name attempt errors' rest).1
        (attempted s l name attempt errors' rest).2

omit [DecidableEq C] in
theorem resume_closing (settings : QueueSettings) (codecs : Codecs J D) {t : T}
    {lazies : Handles String V T} {lazy : Local String V} {act : Act String V}
    {s₀ : ManagerState V C T} {l₀ : CallState J D V C} {name : String} {rest : List String}
    {errors : List Failure} (hok : CallOk l₀) (hcall₀ : l₀.call = .closingResources name rest errors)
    (hprogress : isProgress act = true)
    (h : taskStep t s₀.lazies l₀.lazy act = some (lazies, lazy)) :
    Closing act { s₀ with lazies := lazies } { l₀ with lazy := lazy } name rest errors
      (resume settings codecs act { s₀ with lazies := lazies } { l₀ with lazy := lazy }).1
      (resume settings codecs act { s₀ with lazies := lazies } { l₀ with lazy := lazy }).2 := by
  have hwait := hok
  rw [CallOk, hcall₀] at hwait
  generalize hs : { s₀ with lazies := lazies } = s
  generalize hl : { l₀ with lazy := lazy } = l
  have hcall : l.call = .closingResources name rest errors := by rw [← hl]; exact hcall₀
  have hlazy : l.lazy = lazy := by rw [← hl]
  rw [← hlazy] at h
  rcases taskStep_close hprogress hwait h with ⟨v, htask⟩ | htask | ⟨rfl, htask⟩ | ⟨v, error, -, rfl, htask⟩
  · have hgo : resume settings codecs act s l =
        ({ s with backendCloses := s.backendCloses ++ [(name, v)] }, l) := by
      simp [resume, hcall, htask]
    rw [hgo]
    exact .calls v htask
  · have hgo : resume settings codecs act s l = attempted s l name .closed errors rest := by
      simp [resume, hcall, htask]
    rw [hgo]
    exact .ends .closed errors (by simp [htask, Task.free]) (.inl ⟨rfl, htask⟩)
  · have hgo : resume settings codecs .cancelWait s l =
        attempted s l name .waitCancelled (errors ++ [.cancelled]) rest := by
      simp [resume, hcall, htask]
    rw [hgo]
    exact .ends .waitCancelled _ (by simp [htask, Task.free]) (.inr (.inl rfl))
  · have hgo : resume settings codecs (.closerRaises error) s l =
        attempted s l name (.failed error) (errors ++ [error]) rest := by
      simp [resume, hcall, htask]
    rw [hgo]
    exact .ends (.failed error) _ (by simp [htask, Task.free]) (.inr (.inr ⟨error, rfl, rfl⟩))

omit [DecidableEq V] [DecidableEq C] in
theorem Closing.shut {t : T} {act : Act String V} {s s' : ManagerState V C T}
    {l l' : CallState J D V C} {name : String} {rest : List String} {errors : List Failure}
    (h : Closing act s l name rest errors s' l')
    (hcall : l.call = .closingResources name rest errors) : Shut t s l s' l' := by
  cases h with
  | calls v htask =>
      exact {
        closed := rfl, consumers := .inl rfl, publishes := rfl, returned := rfl, yielded := rfl
        consumerCloses := List.Subset.refl _
        backendCloses := List.subset_append_left _ _
        path := .refl
        sealed := .refl _
        block := by simp [hcall, Call.block]
        closing := by simp [hcall, Call.closing]
        ok := by
          rw [CallOk, hcall]
          exact .inr ⟨v, htask⟩
        closer := by
          intro name' v' frame htask'
          rw [htask] at htask'
          obtain ⟨rfl, rfl, -⟩ := Task.closer.inj htask'
          simp }
  | ends attempt errors' hfree _ => exact attempted_shut t s l name attempt errors' rest hfree

-- The moves that no `consume` block takes part in.
structure Steady (s : ManagerState V C T) (l : CallState J D V C) (s' : ManagerState V C T)
    (l' : CallState J D V C) : Prop where
  closed : s.closed = true → s'.closed = true
  consumers : s'.consumers = s.consumers ∨ s'.consumers = [] ∧ s'.closed = true
  publishes : s.closed = true → s'.publishes = s.publishes
  returned : s'.returned = s.returned
  yielded : s'.yielded = s.yielded
  consumerCloses : s.consumerCloses ⊆ s'.consumerCloses
  backendCloses : s.backendCloses ⊆ s'.backendCloses
  block : l.call.block = none
  block' : l'.call.block = none
  closing : l'.call.closing = true → s'.closed = true

omit [DecidableEq V] [DecidableEq C] in
theorem Plain.steady {s s' : ManagerState V C T} {l l' : CallState J D V C} (h : Plain s l s' l')
    (hblock : l.call.block = none) : Steady s l s' l' where
  closed hc := h.closed.trans hc
  consumers := .inl h.consumers
  publishes := h.publishes
  returned := h.returned
  yielded := h.yielded
  consumerCloses := by rw [h.consumerCloses]; exact List.Subset.refl _
  backendCloses := by rw [h.backendCloses]; exact List.Subset.refl _
  block := hblock
  block' := h.block
  closing := by simp [h.closing]

omit [DecidableEq V] [DecidableEq C] in
theorem Shut.steady {t : T} {s s' : ManagerState V C T} {l l' : CallState J D V C}
    (h : Shut t s l s' l') (hblock : l.call.block = none) (hclosed : s.closed = true) :
    Steady s l s' l' where
  closed hc := h.closed.trans hc
  consumers := h.consumers.imp_right fun he => ⟨he, h.closed.trans hclosed⟩
  publishes _ := h.publishes
  returned := h.returned
  yielded := h.yielded
  consumerCloses := h.consumerCloses
  backendCloses := h.backendCloses
  block := hblock
  block' := h.block
  closing _ := h.closed.trans hclosed

-- A move either leaves the `consume` blocks alone or is one of the four moves of a block.
theorem Effect.steady_or_block {t : T} {s s' : ManagerState V C T} {l l' : CallState J D V C}
    (hok : CallOk l) (hclosing : l.call.closing = true → s.closed = true)
    (h : Effect settings codecs t s l s' l') :
    Steady s l s' l' ∨
    (∃ c name, l.call = .creating name ∧ c ∉ s.returned ∧ s.closed = false ∧
      s' = { s with
        returned := s.returned ++ [c], consumers := s.consumers ++ [c], yielded := s.yielded ++ [c] } ∧
      l' = { l with call := .inBlock c }) ∨
    (∃ c name, l.call = .creating name ∧ c ∉ s.returned ∧ s.closed = true ∧
      s' = { s with returned := s.returned ++ [c], consumerCloses := s.consumerCloses ++ [c] } ∧
      l' = { l with call := .rejecting c }) ∨
    (∃ c, l.call = .inBlock c ∧ s' = { s with consumerCloses := s.consumerCloses ++ [c] } ∧
      l' = { l with call := .exiting c }) ∨
    ∃ c result, l.call = .exiting c ∧ (Call.done (J := J) (D := D) (C := C) result).closing = false ∧
      s' = { s with consumers := s.consumers.erase c } ∧ l' = { l with call := .done result } := by
  cases h with
  | plain _ hblock _ h => exact .inl (h.steady hblock)
  | get hblock _ _ h _ => exact .inl { h.steady hblock with }
  | enter c hcall hfresh hopen => exact .inr (.inl ⟨c, _, hcall, hfresh, hopen, rfl, rfl⟩)
  | reject c hcall hfresh hclosed => exact .inr (.inr (.inl ⟨c, _, hcall, hfresh, hclosed, rfl, rfl⟩))
  | exit c hcall => exact .inr (.inr (.inr (.inl ⟨c, hcall, rfl, rfl⟩)))
  | left c result hcall hresult => exact .inr (.inr (.inr (.inr ⟨c, result, hcall, hresult, rfl, rfl⟩)))
  | shut hfree =>
      obtain ⟨huses, hblock⟩ := free_block hfree
      have hshut := closeConsumers_shut settings t
        { s with closed := true, lazies := settings.names.foldl beginClose s.lazies }
        { l with snapshot := s.consumers, attempted := [], attempts := [] } [] s.consumers.reverse
        (hok.free huses)
      exact .inl { hshut.steady hblock rfl with
        closed := fun _ => hshut.closed
        publishes := fun _ => hshut.publishes }
  | @closeConsumer c rest errors error hcall =>
      have hshut := closeConsumers_shut settings t s l (errors ++ error.toList) rest
        (hok.free (by simp [hcall, Call.usesLazy]))
      exact .inl (hshut.steady (by simp [hcall, Call.block]) (hclosing (by simp [hcall, Call.closing])))
  | @closeResource act lazies lazy name rest errors hcall hprogress hnext =>
      have hshut := (resume_closing settings codecs hok hcall hprogress
        hnext).shut (t := t) hcall
      exact .inl { hshut.steady (by simp [hcall, Call.block])
        (hclosing (by simp [hcall, Call.closing])) with }

-- The lazy part of every move is a run of the lazy handles.
theorem Effect.path {t : T} {s s' : ManagerState V C T} {l l' : CallState J D V C} (hok : CallOk l)
    (h : Effect settings codecs t s l s' l') :
    LazyPath t (s.lazies, l.lazy) (s'.lazies, l'.lazy) ∧ CallOk l' := by
  have hsame : l.call.usesLazy = false → ∀ call : Call J D V C, call.usesLazy = false →
      CallOk { l with call := call } := fun huses call hcall => .of_free (hok.free huses) hcall
  cases h with
  | plain hfrom _ hto h =>
      rw [h.lazies, h.lazy]
      exact ⟨.refl, .of_free (by rw [h.lazy]; exact hok.free hfrom) hto⟩
  | get _ _ hnext h hok' =>
      rw [h.lazies, h.lazy]
      exact ⟨lazyPath_single hnext, hok'⟩
  | enter c hcall => exact ⟨.refl, hsame (by simp [hcall, Call.usesLazy]) _ rfl⟩
  | reject c hcall => exact ⟨.refl, hsame (by simp [hcall, Call.usesLazy]) _ rfl⟩
  | exit c hcall => exact ⟨.refl, hsame (by simp [hcall, Call.usesLazy]) _ rfl⟩
  | left c result hcall => exact ⟨.refl, hsame (by simp [hcall, Call.usesLazy]) _ rfl⟩
  | shut hfree =>
      have hshut := closeConsumers_shut settings t
        { s with closed := true, lazies := settings.names.foldl beginClose s.lazies }
        { l with snapshot := s.consumers, attempted := [], attempts := [] } [] s.consumers.reverse
        (hok.free (free_block hfree).1)
      exact ⟨(lazyPath_beginClose settings.names s.lazies l.lazy).trans hshut.path, hshut.ok⟩
  | @closeConsumer c rest errors error hcall =>
      have hshut := closeConsumers_shut settings t s l (errors ++ error.toList) rest
        (hok.free (by simp [hcall, Call.usesLazy]))
      exact ⟨hshut.path, hshut.ok⟩
  | @closeResource act lazies lazy name rest errors hcall hprogress hnext =>
      have hshut := (resume_closing settings codecs hok hcall hprogress
        hnext).shut (t := t) hcall
      exact ⟨(lazyPath_single hnext).trans hshut.path, hshut.ok⟩

-- What an `aclose` has attempted so far, in its order.
def LogOk (settings : QueueSettings) (l : CallState J D V C) : Prop :=
  match l.call with
  | .closingConsumers _ rest _ => l.attempts = [] ∧ l.attempted ++ rest = l.snapshot.reverse
  | .closingResources name rest _ =>
      l.attempted = l.snapshot.reverse ∧ l.attempts.map Prod.fst ++ name :: rest = settings.names.reverse
  | .done .closed | .done (.closeFailed _) =>
      l.attempted = l.snapshot.reverse ∧ l.attempts.map Prod.fst = settings.names.reverse
  | _ => True

omit [DecidableEq V] [DecidableEq C] in
theorem LogOk.of_closing {l : CallState J D V C} (h : l.call.closing = false) : LogOk settings l := by
  unfold LogOk
  split
  case h_5 => trivial
  all_goals
    rename_i hcall
    simp [hcall, Call.closing] at h

omit [DecidableEq V] [DecidableEq C] in
theorem closeResources_log (s : ManagerState V C T) (l : CallState J D V C) (errors : List Failure)
    (rest : List String) (hconsumers : l.attempted = l.snapshot.reverse)
    (hrest : l.attempts.map Prod.fst ++ rest = settings.names.reverse) :
    LogOk settings (closeResources s l errors rest).2 := by
  cases rest with
  | nil =>
      rw [List.append_nil] at hrest
      by_cases herrors : errors = []
      · simpa [closeResources, herrors, LogOk] using ⟨hconsumers, hrest⟩
      · simpa [closeResources, herrors, LogOk] using ⟨hconsumers, hrest⟩
  | cons name rest => exact ⟨hconsumers, hrest⟩

omit [DecidableEq V] [DecidableEq C] in
theorem closeConsumers_log (s : ManagerState V C T) (l : CallState J D V C) (errors : List Failure)
    (rest : List C) (hempty : l.attempts = []) (hrest : l.attempted ++ rest = l.snapshot.reverse) :
    LogOk settings (closeConsumers settings s l errors rest).2 := by
  cases rest with
  | nil =>
      rw [List.append_nil] at hrest
      exact closeResources_log _ _ _ _ hrest (by simp [hempty])
  | cons c rest => exact ⟨hempty, by simpa [closeConsumers] using hrest⟩

theorem Effect.log {t : T} {s s' : ManagerState V C T} {l l' : CallState J D V C} (hok : CallOk l)
    (hlog : LogOk settings l) (h : Effect settings codecs t s l s' l') : LogOk settings l' := by
  cases h with
  | plain _ _ _ h => exact .of_closing h.closing
  | get _ _ _ h _ => exact .of_closing h.closing
  | enter c _ _ _ => exact .of_closing rfl
  | reject c _ _ _ => exact .of_closing rfl
  | exit c _ => exact .of_closing rfl
  | left c result _ hresult => exact .of_closing hresult
  | shut hfree => exact closeConsumers_log _ _ _ _ rfl (by simp)
  | @closeConsumer c rest errors error hcall =>
      rw [LogOk, hcall] at hlog
      exact closeConsumers_log s l _ rest hlog.1 hlog.2
  | @closeResource act lazies lazy name rest errors hcall hprogress hnext =>
      rw [LogOk, hcall] at hlog
      have hclosing := resume_closing settings codecs hok hcall hprogress hnext
      generalize resume settings codecs act { s with lazies := lazies }
        { l with lazy := lazy } = next at hclosing
      obtain ⟨s', l'⟩ := next
      cases hclosing with
      | calls v htask =>
          simp only [LogOk, hcall]
          exact hlog
      | ends attempt errors' hfree _ =>
          exact closeResources_log _ _ _ _ hlog.1 (by simpa using hlog.2)

omit [DecidableEq V] [DecidableEq C] in
theorem closeResources_attempts (s : ManagerState V C T) (l : CallState J D V C) (errors : List Failure)
    (rest : List String) : (closeResources s l errors rest).2.attempts = l.attempts := by
  cases rest <;> rfl

omit [DecidableEq V] [DecidableEq C] in
theorem closeConsumers_attempts (s : ManagerState V C T) (l : CallState J D V C) (errors : List Failure)
    (rest : List C) : (closeConsumers settings s l errors rest).2.attempts = l.attempts := by
  cases rest with
  | nil => exact closeResources_attempts _ _ _ _
  | cons c rest => rfl

omit [DecidableEq V] [DecidableEq C] in
theorem closeResources_attempted (s : ManagerState V C T) (l : CallState J D V C) (errors : List Failure)
    (rest : List String) : (closeResources s l errors rest).2.attempted = l.attempted := by
  cases rest <;> rfl

omit [DecidableEq V] [DecidableEq C] in
theorem closeConsumers_attempted (s : ManagerState V C T) (l : CallState J D V C) (errors : List Failure)
    (rest : List C) (c : C) (hc : c ∈ (closeConsumers settings s l errors rest).2.attempted) :
    c ∈ l.attempted ∨ c ∈ (closeConsumers settings s l errors rest).1.consumerCloses := by
  cases rest with
  | nil => exact .inl (closeResources_attempted _ _ _ _ ▸ hc)
  | cons d rest =>
      rcases List.mem_append.mp hc with hc | hc
      · exact .inl hc
      · exact .inr (List.mem_append_right _ hc)

theorem Effect.attempted_closed {t : T} {s s' : ManagerState V C T} {l l' : CallState J D V C}
    (hok : CallOk l)
    (h : Effect settings codecs t s l s' l') (c : C) (hc : c ∈ l'.attempted) :
    c ∈ l.attempted ∨ c ∈ s'.consumerCloses := by
  cases h with
  | plain _ _ _ h => exact .inl (h.attempted ▸ hc)
  | get _ _ _ h _ => exact .inl (h.attempted ▸ hc)
  | enter c _ _ _ => exact .inl hc
  | reject c _ _ _ => exact .inl hc
  | exit c _ => exact .inl hc
  | left c result _ _ => exact .inl hc
  | shut hfree =>
      rcases closeConsumers_attempted _ _ _ _ c hc with hc | hc
      · simp at hc
      · exact .inr hc
  | closeConsumer error hcall => exact closeConsumers_attempted _ _ _ _ c hc
  | @closeResource act lazies lazy name rest errors hcall hprogress hnext =>
      have hclosing := resume_closing settings codecs hok hcall hprogress hnext
      generalize resume settings codecs act { s with lazies := lazies } { l with lazy := lazy } = next
        at hclosing hc ⊢
      obtain ⟨s', l'⟩ := next
      cases hclosing with
      | calls v _ => exact .inl hc
      | ends attempt errors' _ _ =>
          simp only [attempted, closeResources_attempted] at hc
          exact .inl hc

-- Every backend that a handle has made has been passed to its closer, and no other will be made.
def Settled (s : ManagerState V C T) (name : String) : Prop :=
  (s.lazies name).Retired ∨ ∃ v, (s.lazies name).made = [v] ∧ (name, v) ∈ s.backendCloses

omit [DecidableEq V] [DecidableEq C] in
theorem Settled.grows {s s' : ManagerState V C T} {name : String} (h : Settled s name)
    (hgrows : (s.lazies name).Grows (s'.lazies name)) (hcloses : s.backendCloses ⊆ s'.backendCloses) :
    Settled s' name := by
  rcases h with hretired | ⟨v, hmade, hclose⟩
  · exact .inl (hgrows.retired hretired)
  · exact .inr ⟨v, hgrows.made v hmade, hcloses hclose⟩

theorem Effect.freed {t : T} {s s' : ManagerState V C T} {l l' : CallState J D V C} (hok : CallOk l)
    (h : Effect settings codecs t s l s' l') (name : String) (v : V)
    (hv : v ∈ (s'.lazies name).freed) :
    v ∈ (s.lazies name).freed ∨ ∃ frame, l.lazy.task = .closer name v frame := by
  have hsealed : ∀ {lazies lazies' : Handles String V T}, Sealed lazies lazies' →
      v ∈ (lazies' name).freed → v ∈ (lazies name).freed := fun hs hv => hs.freed name ▸ hv
  cases h with
  | plain _ _ _ h => exact .inl (by simpa [h.lazies] using hv)
  | get _ _ hnext h _ => exact taskStep_freed hnext name v (by simpa [h.lazies] using hv)
  | enter c _ _ _ => exact .inl hv
  | reject c _ _ _ => exact .inl hv
  | exit c _ => exact .inl hv
  | left c result _ _ => exact .inl hv
  | shut hfree =>
      have hshut := closeConsumers_shut settings t
        { s with closed := true, lazies := settings.names.foldl beginClose s.lazies }
        { l with snapshot := s.consumers, attempted := [], attempts := [] } [] s.consumers.reverse
        (hok.free (free_block hfree).1)
      exact .inl (hsealed (sealed_foldl settings.names s.lazies) (hsealed hshut.sealed hv))
  | @closeConsumer c rest errors error hcall =>
      have hshut := closeConsumers_shut settings t s l (errors ++ error.toList) rest
        (hok.free (by simp [hcall, Call.usesLazy]))
      exact .inl (hsealed hshut.sealed hv)
  | @closeResource act lazies lazy name' rest errors hcall hprogress hnext =>
      have hshut := (resume_closing settings codecs hok hcall hprogress
        hnext).shut (t := t) hcall
      exact taskStep_freed hnext name v (hsealed hshut.sealed hv)

theorem Effect.closers {t : T} {s s' : ManagerState V C T} {l l' : CallState J D V C} (hok : CallOk l)
    (h : Effect settings codecs t s l s' l')
    (hl : ∀ name v frame, l.lazy.task = .closer name v frame → (name, v) ∈ s.backendCloses)
    (name : String) (v : V) (frame : Frame String) (htask : l'.lazy.task = .closer name v frame) :
    (name, v) ∈ s'.backendCloses := by
  cases h with
  | plain _ _ _ h =>
      rw [h.backendCloses]
      exact hl name v frame (by rw [← h.lazy]; exact htask)
  | get _ _ _ h hok' =>
      have hcloses := hok'.closer htask
      have hclosing := h.closing
      cases hcall : l'.call <;> simp_all [Call.closesBackend, Call.closing]
  | enter c _ _ _ => exact hl name v frame htask
  | reject c _ _ _ => exact hl name v frame htask
  | exit c _ => exact hl name v frame htask
  | left c result _ _ => exact hl name v frame htask
  | shut hfree =>
      have hshut := closeConsumers_shut settings t
        { s with closed := true, lazies := settings.names.foldl beginClose s.lazies }
        { l with snapshot := s.consumers, attempted := [], attempts := [] } [] s.consumers.reverse
        (hok.free (free_block hfree).1)
      exact hshut.closer name v frame htask
  | @closeConsumer c rest errors error hcall =>
      have hshut := closeConsumers_shut settings t s l (errors ++ error.toList) rest
        (hok.free (by simp [hcall, Call.usesLazy]))
      exact hshut.closer name v frame htask
  | @closeResource act lazies lazy name' rest errors hcall hprogress hnext =>
      have hshut := (resume_closing settings codecs hok hcall hprogress
        hnext).shut (t := t) hcall
      exact hshut.closer name v frame htask

-- A new attempt whose wait was not cancelled settles its handle.
theorem Effect.settled {t : T} {s s' : ManagerState V C T} {l l' : CallState J D V C} (hok : CallOk l)
    (hgood : ∀ name, (s.lazies name).Good) (htask : TaskOk t s.lazies l.lazy)
    (hl : ∀ name v frame, l.lazy.task = .closer name v frame → (name, v) ∈ s.backendCloses)
    (h : Effect settings codecs t s l s' l') (entry : String × Attempt) (hentry : entry ∈ l'.attempts) :
    entry ∈ l.attempts ∨ entry.2 = .waitCancelled ∨ Settled s' entry.1 := by
  cases h with
  | plain _ _ _ h => exact .inl (h.attempts ▸ hentry)
  | get _ _ _ h _ => exact .inl (h.attempts ▸ hentry)
  | enter c _ _ _ => exact .inl hentry
  | reject c _ _ _ => exact .inl hentry
  | exit c _ => exact .inl hentry
  | left c result _ _ => exact .inl hentry
  | shut hfree =>
      rw [closeConsumers_attempts] at hentry
      simp at hentry
  | @closeConsumer c rest errors error hcall =>
      rw [closeConsumers_attempts] at hentry
      exact .inl hentry
  | @closeResource act lazies lazy name rest errors hcall hprogress hnext =>
      have hguarantee := taskStep_guarantee hgood htask hnext
      have hclosing := resume_closing settings codecs hok hcall hprogress hnext
      have hshut := hclosing.shut (t := t) hcall
      generalize resume settings codecs act { s with lazies := lazies } { l with lazy := lazy } = next
        at hclosing hshut hentry ⊢
      obtain ⟨s', l'⟩ := next
      cases hclosing with
      | calls v _ => exact .inl hentry
      | ends attempt errors' _ hattempt =>
          simp only [attempted, closeResources_attempts, List.mem_append, List.mem_singleton] at hentry
          rcases hentry with hentry | rfl
          · exact .inl hentry
          rcases hattempt with ⟨rfl, hdone⟩ | rfl | ⟨error, rfl, rfl⟩
          · have hawait := hguarantee.ok.await
            have hdone : lazy.task = .done (.closed name) := hdone
            rw [hdone] at hawait
            exact .inr (.inr (.inl ((hshut.sealed.grows name).retired hawait)))
          · exact .inr (.inl rfl)
          · have hcloser : ∃ v, l.lazy.task = .closer name v .direct := by
              rw [CallOk, hcall] at hok
              rcases hok with hlock | hcloser
              · simp [taskStep, hlock] at hnext
              · exact hcloser
            obtain ⟨v, hcloser⟩ := hcloser
            have hawait := htask.await
            rw [hcloser] at hawait
            have hmade := ((hgood name).alive v hawait.2.1).1
            have hgrows := (hguarantee.grows name).trans (hshut.sealed.grows name)
            exact .inr (.inr (.inr ⟨v, hgrows.made v hmade, hshut.backendCloses (hl name v _ hcloser)⟩))

end Effect

section Runs

variable [DecidableEq V] [DecidableEq C] [DecidableEq T]

-- The lazy handles under the manager.
def lazyPool (p : ManagerPool J D V C T) : LazyPool String V T where
  shared := p.shared.lazies
  loc t := (p.loc t).lazy

omit [DecidableEq V] [DecidableEq C] in
theorem lazyPool_move (p : ManagerPool J D V C T) (t : T) (s : ManagerState V C T)
    (l : CallState J D V C) : lazyPool (p.move t s l) = (lazyPool p).move t s.lazies l.lazy := by
  simp only [lazyPool, Pool.move, Pool.mk.injEq, true_and]
  funext u
  by_cases hu : u = t
  · simp [hu]
  · simp [hu]

structure BlocksOk (p : ManagerPool J D V C T) : Prop where
  closing : ∀ t, (p.loc t).call.closing = true → p.shared.closed = true
  registered : ∀ c ∈ p.shared.consumers, ∃ t, (p.loc t).call.block = some c
  complete : p.shared.closed = false → ∀ t c, (p.loc t).call.block = some c → c ∈ p.shared.consumers
  unique : ∀ t u c, (p.loc t).call.block = some c → (p.loc u).call.block = some c → t = u
  nodup : p.shared.consumers.Nodup
  known : ∀ t c, (p.loc t).call.block = some c → c ∈ p.shared.returned
  attended : ∀ c ∈ p.shared.returned,
    c ∈ p.shared.consumerCloses ∨ ∃ t, (p.loc t).call = .inBlock c

structure LaziesOk (settings : QueueSettings) (p : ManagerPool J D V C T) : Prop where
  lazy : Resources.Inv (lazyPool p)
  call : ∀ t, CallOk (p.loc t)
  log : ∀ t, LogOk settings (p.loc t)
  attempted : ∀ t, ∀ c ∈ (p.loc t).attempted, c ∈ p.shared.consumerCloses
  closers : ∀ t name v frame, (p.loc t).lazy.task = .closer name v frame →
    (name, v) ∈ p.shared.backendCloses
  freed : ∀ name v, v ∈ (p.shared.lazies name).freed → (name, v) ∈ p.shared.backendCloses
  settled : ∀ t, ∀ entry ∈ (p.loc t).attempts, entry.2 ≠ .waitCancelled → Settled p.shared entry.1

omit [DecidableEq V] [DecidableEq C] [DecidableEq T] in
theorem blocksOk_init : BlocksOk (.init J D V C T) := by
  constructor <;> simp [ManagerPool.init, Call.closing, Call.block]

omit [DecidableEq V] [DecidableEq C] [DecidableEq T] in
theorem laziesOk_init : LaziesOk settings (.init J D V C T) := by
  refine ⟨inv_init, ?_, ?_, ?_, ?_, ?_, ?_⟩ <;> simp [ManagerPool.init, CallOk, LogOk, Task.free]

theorem managerStep_effect {p q : ManagerPool J D V C T} {act : (T × ManagerAct J D F V C) ⊕ Empty}
    (hok : ∀ t, CallOk (p.loc t)) (h : managerStep settings codecs p act = some q) :
    ∃ t s l, q = p.move t s l ∧ Effect settings codecs t p.shared (p.loc t) s l := by
  cases act with
  | inl act =>
      obtain ⟨s, l, hl, rfl⟩ := Pool.step_task h
      exact ⟨act.1, s, l, rfl, callStep_effect (hok act.1) hl⟩
  | inr event => exact event.elim

-- The manager's moves are moves of the lazy handles, so every result about these applies.
theorem Effect.reaches {p : ManagerPool J D V C T} {t : T} {s : ManagerState V C T}
    {l : CallState J D V C} (hok : CallOk (p.loc t))
    (h : Effect settings codecs t p.shared (p.loc t) s l) :
    Reaches Resources.step (lazyPool p) (lazyPool (p.move t s l)) := by
  rw [lazyPool_move]
  exact Pool.reaches_of_solo (h.path hok).1

omit [DecidableEq V] [DecidableEq C] in
theorem block_move_ne {p : ManagerPool J D V C T} {t u : T} {s : ManagerState V C T}
    {l : CallState J D V C} (hu : u ≠ t) : ((p.move t s l).loc u).call = (p.loc u).call := by
  rw [Pool.move_loc_ne _ _ _ hu]

omit [DecidableEq V] [DecidableEq C] in
theorem BlocksOk.steady {p : ManagerPool J D V C T} (h : BlocksOk p) {t : T} {s : ManagerState V C T}
    {l : CallState J D V C} (hs : Steady p.shared (p.loc t) s l) : BlocksOk (p.move t s l) := by
  have hblock : ∀ u c, ((p.move t s l).loc u).call.block = some c ↔ (p.loc u).call.block = some c := by
    intro u c
    by_cases hu : u = t
    · subst hu
      simp [hs.block, hs.block']
    · rw [block_move_ne hu]
  exact {
    closing := by
      intro u hu
      by_cases hut : u = t
      · subst hut
        exact hs.closing (by simpa using hu)
      · rw [block_move_ne hut] at hu
        exact hs.closed (h.closing u hu)
    registered := by
      intro c hc
      have hold : c ∈ p.shared.consumers := by
        rcases hs.consumers with he | ⟨he, -⟩
        · exact he ▸ hc
        · rw [Pool.move_shared, he] at hc
          simp at hc
      obtain ⟨u, hu⟩ := h.registered c hold
      exact ⟨u, (hblock u c).mpr hu⟩
    complete := by
      intro hopen u c hu
      have hopen' : p.shared.closed = false := by
        by_contra hclosed
        have := hs.closed (by simpa using hclosed)
        simp [this] at hopen
      rcases hs.consumers with he | ⟨-, hclosed⟩
      · rw [Pool.move_shared, he]
        exact h.complete hopen' u c ((hblock u c).mp hu)
      · simp [hclosed] at hopen
    unique := fun u v c hu hv => h.unique u v c ((hblock u c).mp hu) ((hblock v c).mp hv)
    nodup := by
      rcases hs.consumers with he | ⟨he, -⟩
      · rw [Pool.move_shared, he]
        exact h.nodup
      · rw [Pool.move_shared, he]
        exact List.nodup_nil
    known := by
      intro u c hu
      rw [Pool.move_shared, hs.returned]
      exact h.known u c ((hblock u c).mp hu)
    attended := by
      intro c hc
      rw [Pool.move_shared, hs.returned] at hc
      rcases h.attended c hc with hclose | ⟨u, hu⟩
      · exact .inl (hs.consumerCloses hclose)
      · have hne : u ≠ t := by
          rintro rfl
          have := hs.block
          simp [hu, Call.block] at this
        exact .inr ⟨u, (block_move_ne hne).trans hu⟩ }

omit [DecidableEq V] [DecidableEq C] [DecidableEq T] in
-- A fresh consumer is in no block and not registered.
theorem BlocksOk.fresh {p : ManagerPool J D V C T} (h : BlocksOk p) {c : C}
    (hfresh : c ∉ p.shared.returned) : (∀ u, (p.loc u).call.block ≠ some c) ∧ c ∉ p.shared.consumers := by
  have hno : ∀ u, (p.loc u).call.block ≠ some c := fun u hu => hfresh (h.known u c hu)
  refine ⟨hno, fun hc => ?_⟩
  obtain ⟨u, hu⟩ := h.registered c hc
  exact hno u hu

omit [DecidableEq V] [DecidableEq C] in
theorem BlocksOk.enter {p : ManagerPool J D V C T} (h : BlocksOk p) {t : T} {c : C} {name : String}
    (hcall : (p.loc t).call = .creating name) (hfresh : c ∉ p.shared.returned)
    (hopen : p.shared.closed = false) :
    BlocksOk (p.move t
      { p.shared with
        returned := p.shared.returned ++ [c], consumers := p.shared.consumers ++ [c]
        yielded := p.shared.yielded ++ [c] }
      { p.loc t with call := .inBlock c }) := by
  obtain ⟨hno, hout⟩ := h.fresh hfresh
  have hblock : ∀ u d, ((p.move t
      { p.shared with
        returned := p.shared.returned ++ [c], consumers := p.shared.consumers ++ [c]
        yielded := p.shared.yielded ++ [c] }
      { p.loc t with call := .inBlock c }).loc u).call.block = some d ↔
      u = t ∧ d = c ∨ u ≠ t ∧ (p.loc u).call.block = some d := by
    intro u d
    by_cases hu : u = t
    · subst hu
      simp [Call.block, eq_comm]
    · simp [block_move_ne hu, hu]
  exact {
    closing := by
      intro u hu
      by_cases hut : u = t
      · subst hut
        simp [Call.closing] at hu
      · rw [block_move_ne hut] at hu
        exact h.closing u hu
    registered := by
      intro d hd
      rcases List.mem_append.mp hd with hd | hd
      · obtain ⟨u, hu⟩ := h.registered d hd
        have hne : u ≠ t := by
          rintro rfl
          simp [hcall, Call.block] at hu
        exact ⟨u, (hblock u d).mpr (.inr ⟨hne, hu⟩)⟩
      · exact ⟨t, (hblock t d).mpr (.inl ⟨rfl, List.mem_singleton.mp hd⟩)⟩
    complete := by
      intro _ u d hd
      rcases (hblock u d).mp hd with ⟨-, rfl⟩ | ⟨-, hd⟩
      · simp
      · simp [h.complete hopen u d hd]
    unique := by
      intro u v d hu hv
      rcases (hblock u d).mp hu with ⟨hut, hdc⟩ | ⟨-, hu'⟩
      · rcases (hblock v d).mp hv with ⟨hvt, -⟩ | ⟨-, hv'⟩
        · exact hut.trans hvt.symm
        · exact absurd (hdc ▸ hv') (hno v)
      · rcases (hblock v d).mp hv with ⟨-, hdc⟩ | ⟨-, hv'⟩
        · exact absurd (hdc ▸ hu') (hno u)
        · exact h.unique u v d hu' hv'
    nodup := by
      refine List.Nodup.append h.nodup (List.nodup_singleton c) ?_
      intro d hd hd'
      rw [List.mem_singleton.mp hd'] at hd
      exact hout hd
    known := by
      intro u d hd
      rcases (hblock u d).mp hd with ⟨-, rfl⟩ | ⟨-, hd⟩
      · simp
      · simp [h.known u d hd]
    attended := by
      intro d hd
      rcases List.mem_append.mp hd with hd | hd
      · rcases h.attended d hd with hclose | ⟨u, hu⟩
        · exact .inl hclose
        · have hne : u ≠ t := by
            rintro rfl
            simp [hcall] at hu
          exact .inr ⟨u, (block_move_ne hne).trans hu⟩
      · rw [List.mem_singleton.mp hd]
        exact .inr ⟨t, by simp⟩ }

omit [DecidableEq V] [DecidableEq C] in
-- A call outside every block that stays outside, with one consumer more that was closed.
theorem BlocksOk.reject {p : ManagerPool J D V C T} (h : BlocksOk p) {t : T} {c : C} {name : String}
    (hcall : (p.loc t).call = .creating name) :
    BlocksOk (p.move t
      { p.shared with
        returned := p.shared.returned ++ [c], consumerCloses := p.shared.consumerCloses ++ [c] }
      { p.loc t with call := .rejecting c }) := by
  have hsteady : Steady p.shared (p.loc t)
      { p.shared with consumerCloses := p.shared.consumerCloses ++ [c] }
      { p.loc t with call := .rejecting c } := {
    closed := id, consumers := .inl rfl, publishes := fun _ => rfl, returned := rfl, yielded := rfl
    consumerCloses := List.subset_append_left _ _
    backendCloses := List.Subset.refl _
    block := by simp [hcall, Call.block]
    block' := rfl
    closing := by simp [Call.closing] }
  have hmoved := h.steady hsteady
  exact { hmoved with
    known := fun u d hd => List.mem_append_left _ (hmoved.known u d hd)
    attended := by
      intro d hd
      rcases List.mem_append.mp hd with hd | hd
      · exact hmoved.attended d hd
      · exact .inl (List.mem_append_right _ hd) }

omit [DecidableEq V] [DecidableEq C] in
theorem BlocksOk.exit {p : ManagerPool J D V C T} (h : BlocksOk p) {t : T} {c : C}
    (hcall : (p.loc t).call = .inBlock c) :
    BlocksOk (p.move t { p.shared with consumerCloses := p.shared.consumerCloses ++ [c] }
      { p.loc t with call := .exiting c }) := by
  have hblock : ∀ u d, ((p.move t { p.shared with consumerCloses := p.shared.consumerCloses ++ [c] }
      { p.loc t with call := .exiting c }).loc u).call.block = some d ↔ (p.loc u).call.block = some d := by
    intro u d
    by_cases hu : u = t
    · subst hu
      simp [hcall, Call.block]
    · rw [block_move_ne hu]
  exact {
    closing := by
      intro u hu
      by_cases hut : u = t
      · subst hut
        simp [Call.closing] at hu
      · rw [block_move_ne hut] at hu
        exact h.closing u hu
    registered := by
      intro d hd
      obtain ⟨u, hu⟩ := h.registered d hd
      exact ⟨u, (hblock u d).mpr hu⟩
    complete := fun hopen u d hd => h.complete hopen u d ((hblock u d).mp hd)
    unique := fun u v d hu hv => h.unique u v d ((hblock u d).mp hu) ((hblock v d).mp hv)
    nodup := h.nodup
    known := fun u d hd => h.known u d ((hblock u d).mp hd)
    attended := by
      intro d hd
      rcases h.attended d hd with hclose | ⟨u, hu⟩
      · exact .inl (List.mem_append_left _ hclose)
      · by_cases hut : u = t
        · subst hut
          rw [hcall] at hu
          obtain rfl := Call.inBlock.inj hu
          exact .inl (by simp)
        · exact .inr ⟨u, (block_move_ne hut).trans hu⟩ }

omit [DecidableEq V] in
theorem BlocksOk.left {p : ManagerPool J D V C T} (h : BlocksOk p) {t : T} {c : C} {result : CallEnd V}
    (hcall : (p.loc t).call = .exiting c)
    (hresult : (Call.done (J := J) (D := D) (C := C) result).closing = false) :
    BlocksOk (p.move t { p.shared with consumers := p.shared.consumers.erase c }
      { p.loc t with call := .done result }) := by
  have hmine : (p.loc t).call.block = some c := by simp [hcall, Call.block]
  have hblock : ∀ u d, ((p.move t { p.shared with consumers := p.shared.consumers.erase c }
      { p.loc t with call := .done result }).loc u).call.block = some d ↔
      u ≠ t ∧ (p.loc u).call.block = some d := by
    intro u d
    by_cases hu : u = t
    · subst hu
      simp [Call.block]
    · simp [block_move_ne hu, hu]
  exact {
    closing := by
      intro u hu
      by_cases hut : u = t
      · subst hut
        rw [Pool.move_loc_self] at hu
        simp [hresult] at hu
      · rw [block_move_ne hut] at hu
        exact h.closing u hu
    registered := by
      intro d hd
      obtain ⟨hne, hd⟩ := (List.Nodup.mem_erase_iff h.nodup).mp hd
      obtain ⟨u, hu⟩ := h.registered d hd
      have hut : u ≠ t := by
        rintro rfl
        exact hne (Option.some.inj (hu.symm.trans hmine))
      exact ⟨u, (hblock u d).mpr ⟨hut, hu⟩⟩
    complete := by
      intro hopen u d hd
      obtain ⟨hut, hd'⟩ := (hblock u d).mp hd
      have hne : d ≠ c := fun hdc => hut (h.unique u t c (hdc ▸ hd') hmine)
      exact (List.mem_erase_of_ne hne).mpr (h.complete hopen u d hd')
    unique := fun u v d hu hv => h.unique u v d ((hblock u d).mp hu).2 ((hblock v d).mp hv).2
    nodup := h.nodup.erase c
    known := fun u d hd => h.known u d ((hblock u d).mp hd).2
    attended := by
      intro d hd
      rcases h.attended d hd with hclose | ⟨u, hu⟩
      · exact .inl hclose
      · have hut : u ≠ t := by
          rintro rfl
          simp [hcall] at hu
        exact .inr ⟨u, (block_move_ne hut).trans hu⟩ }

theorem BlocksOk.step {p : ManagerPool J D V C T} (h : BlocksOk p) {t : T} {s : ManagerState V C T}
    {l : CallState J D V C} (hok : CallOk (p.loc t))
    (heffect : Effect settings codecs t p.shared (p.loc t) s l) : BlocksOk (p.move t s l) := by
  rcases heffect.steady_or_block hok (h.closing t) with hs | ⟨c, name, hcall, hfresh, hopen, rfl, rfl⟩ |
    ⟨c, name, hcall, -, -, rfl, rfl⟩ | ⟨c, hcall, rfl, rfl⟩ | ⟨c, result, hcall, hresult, rfl, rfl⟩
  · exact h.steady hs
  · exact h.enter hcall hfresh hopen
  · exact h.reject hcall
  · exact h.exit hcall
  · exact h.left hcall hresult

-- What no move takes back.
structure Onward (s s' : ManagerState V C T) : Prop where
  closed : s.closed = true → s'.closed = true ∧ s'.publishes = s.publishes ∧ s'.yielded = s.yielded
  consumerCloses : s.consumerCloses ⊆ s'.consumerCloses
  backendCloses : s.backendCloses ⊆ s'.backendCloses

omit [DecidableEq T] in
theorem Effect.onward {t : T} {s s' : ManagerState V C T} {l l' : CallState J D V C} (hok : CallOk l)
    (hclosing : l.call.closing = true → s.closed = true) (h : Effect settings codecs t s l s' l') :
    Onward s s' := by
  rcases h.steady_or_block hok hclosing with hs | ⟨c, name, -, -, hopen, rfl, -⟩ |
    ⟨c, name, -, -, -, rfl, -⟩ | ⟨c, -, rfl, -⟩ | ⟨c, result, -, -, rfl, -⟩
  · exact ⟨fun hc => ⟨hs.closed hc, hs.publishes hc, hs.yielded⟩, hs.consumerCloses, hs.backendCloses⟩
  · exact ⟨fun hc => by simp [hopen] at hc, List.Subset.refl _, List.Subset.refl _⟩
  · exact ⟨fun hc => ⟨hc, rfl, rfl⟩, List.subset_append_left _ _, List.Subset.refl _⟩
  · exact ⟨fun hc => ⟨hc, rfl, rfl⟩, List.subset_append_left _ _, List.Subset.refl _⟩
  · exact ⟨fun hc => ⟨hc, rfl, rfl⟩, List.Subset.refl _, List.Subset.refl _⟩

theorem LaziesOk.step {p : ManagerPool J D V C T} (hb : BlocksOk p) (h : LaziesOk settings p) {t : T}
    {s : ManagerState V C T} {l : CallState J D V C}
    (heffect : Effect settings codecs t p.shared (p.loc t) s l) : LaziesOk settings (p.move t s l) := by
  have hok := h.call t
  have hreach := heffect.reaches hok
  have hgrows := (later_of_reaches h.lazy hreach).grows
  have honward := heffect.onward hok (hb.closing t)
  have hmove : ∀ u, u = t ∧ (p.move t s l).loc u = l ∨ u ≠ t ∧ (p.move t s l).loc u = p.loc u := by
    intro u
    by_cases hu : u = t
    · subst hu
      exact .inl ⟨rfl, by simp⟩
    · exact .inr ⟨hu, Pool.move_loc_ne _ _ _ hu⟩
  exact {
    lazy := discipline.inv_reaches hreach h.lazy
    call := by
      intro u
      rcases hmove u with ⟨-, he⟩ | ⟨-, he⟩ <;> rw [he]
      · exact (heffect.path hok).2
      · exact h.call u
    log := by
      intro u
      rcases hmove u with ⟨-, he⟩ | ⟨-, he⟩ <;> rw [he]
      · exact heffect.log hok (h.log t)
      · exact h.log u
    attempted := by
      intro u c hc
      rcases hmove u with ⟨-, he⟩ | ⟨-, he⟩ <;> rw [he] at hc
      · rcases heffect.attempted_closed hok c hc with hc | hc
        · exact honward.consumerCloses (h.attempted t c hc)
        · exact hc
      · exact honward.consumerCloses (h.attempted u c hc)
    closers := by
      intro u name v frame htask
      rcases hmove u with ⟨-, he⟩ | ⟨-, he⟩ <;> rw [he] at htask
      · exact heffect.closers hok (h.closers t) name v frame htask
      · exact honward.backendCloses (h.closers u name v frame htask)
    freed := by
      intro name v hv
      rcases heffect.freed hok name v hv with hv | ⟨frame, htask⟩
      · exact honward.backendCloses (h.freed name v hv)
      · exact honward.backendCloses (h.closers t name v frame htask)
    settled := by
      intro u entry hentry hwait
      have hkeep : Settled p.shared entry.1 → Settled s entry.1 := fun hs =>
        hs.grows (by simpa [lazyPool] using hgrows entry.1) honward.backendCloses
      rcases hmove u with ⟨-, he⟩ | ⟨-, he⟩ <;> rw [he] at hentry
      · rcases heffect.settled hok h.lazy.1 (h.lazy.2 t) (h.closers t) entry hentry with
          hentry | hcancel | hsettled
        · exact hkeep (h.settled t entry hentry hwait)
        · exact absurd hcancel hwait
        · exact hsettled
      · exact hkeep (h.settled u entry hentry hwait) }

def ManagerOk (settings : QueueSettings) (p : ManagerPool J D V C T) : Prop :=
  BlocksOk p ∧ LaziesOk settings p

theorem managerStep_ok (p : ManagerPool J D V C T) (act : (T × ManagerAct J D F V C) ⊕ Empty)
    (q : ManagerPool J D V C T) (h : ManagerOk settings p)
    (hstep : managerStep settings codecs p act = some q) : ManagerOk settings q := by
  obtain ⟨t, s, l, rfl, heffect⟩ := managerStep_effect h.2.call hstep
  exact ⟨h.1.step (h.2.call t) heffect, h.2.step h.1 heffect⟩

theorem onward_of_reaches {p q : ManagerPool J D V C T} (h : ManagerOk settings p)
    (hpq : Reaches (managerStep (F := F) settings codecs) p q) : Onward p.shared q.shared := by
  refine hpq.relation (r := fun p q => Onward p.shared q.shared) managerStep_ok h
    (fun p => ⟨fun hc => ⟨hc, rfl, rfl⟩, List.Subset.refl _, List.Subset.refl _⟩) ?_ ?_
  · intro p q r hpq hqr
    refine ⟨fun hc => ?_, List.Subset.trans hpq.consumerCloses hqr.consumerCloses,
      List.Subset.trans hpq.backendCloses hqr.backendCloses⟩
    obtain ⟨hq, hpub, hyield⟩ := hpq.closed hc
    obtain ⟨hr, hpub', hyield'⟩ := hqr.closed hq
    exact ⟨hr, hpub'.trans hpub, hyield'.trans hyield⟩
  · intro p act q hp hstep
    obtain ⟨t, s, l, rfl, heffect⟩ := managerStep_effect hp.2.call hstep
    exact heffect.onward (hp.2.call t) (hp.1.closing t)

-- Every run of the manager is a run of its lazy handles.
theorem lazyPool_reaches {p q : ManagerPool J D V C T} (h : ManagerOk settings p)
    (hpq : Reaches (managerStep (F := F) settings codecs) p q) :
    Reaches Resources.step (lazyPool p) (lazyPool q) := by
  refine hpq.relation (r := fun p q => Reaches Resources.step (lazyPool p) (lazyPool q))
    managerStep_ok h (fun p => .refl) (fun p q r => Reaches.trans) ?_
  intro p act q hp hstep
  obtain ⟨t, s, l, rfl, heffect⟩ := managerStep_effect hp.2.call hstep
  exact heffect.reaches (hp.2.call t)

omit [DecidableEq V] [DecidableEq C] [DecidableEq T] in
theorem LaziesOk.closed_of_settled {p : ManagerPool J D V C T} (h : LaziesOk settings p) {name : String}
    (hs : Settled p.shared name) (v : V) (hv : v ∈ (p.shared.lazies name).made) :
    (name, v) ∈ p.shared.backendCloses := by
  rcases hs with hretired | ⟨w, hmade, hclose⟩
  · have hgood : (p.shared.lazies name).Good := h.lazy.1 name
    exact h.freed name v (hgood.dead hretired.value ▸ hv)
  · rw [hmade] at hv
    rw [List.mem_singleton.mp hv]
    exact hclose

omit [DecidableEq V] [DecidableEq C] [DecidableEq T] in
theorem closeConsumers_snapshot (settings : QueueSettings) (s : ManagerState V C T)
    (l : CallState J D V C) (errors : List Failure)
    (rest : List C) : (closeConsumers settings s l errors rest).2.snapshot = l.snapshot := by
  rcases rest with _ | ⟨c, rest⟩
  · rcases hnames : settings.names.reverse with _ | ⟨name, names⟩ <;>
      simp [closeConsumers, closeResources, hnames]
  · rfl

omit [DecidableEq T] in
theorem aclose_begins {t : T} {s s' : ManagerState V C T} {l l' : CallState J D V C} (hok : CallOk l)
    (h : callStep (F := F) settings codecs t s l .aclose = some (s', l')) :
    s'.closed = true ∧ s'.publishes = s.publishes ∧ s'.yielded = s.yielded ∧
      l'.snapshot = s.consumers := by
  obtain ⟨hfree, heq⟩ := guarded h
  have hshut := closeConsumers_shut settings t
    { s with closed := true, lazies := settings.names.foldl beginClose s.lazies }
    { l with snapshot := s.consumers, attempted := [], attempts := [] } [] s.consumers.reverse
    (hok.free (free_block hfree).1)
  have hsnapshot := closeConsumers_snapshot settings
    { s with closed := true, lazies := settings.names.foldl beginClose s.lazies }
    { l with snapshot := s.consumers, attempted := [], attempts := [] } [] s.consumers.reverse
  rw [heq] at hshut hsnapshot
  exact ⟨hshut.closed, hshut.publishes, hshut.yielded, hsnapshot⟩

-- The shutdown of the manager, for every run from a fresh one.
theorem manager_shutdown {p : ManagerPool J D V C T}
    (hp : Reaches (managerStep (F := F) settings codecs) (.init J D V C T) p) :
    -- from the beginning of an `aclose` on, nothing is published and no block yields
    (∀ t q, managerStep (F := F) settings codecs p (.inl (t, .aclose)) = some q →
      ∀ r, Reaches (managerStep (F := F) settings codecs) q r →
        r.shared.publishes = p.shared.publishes ∧ r.shared.yielded = p.shared.yielded) ∧
    -- a consumer that a backend returned is closed unless its block has not begun to exit
    (∀ c ∈ p.shared.returned, c ∈ p.shared.consumerCloses ∨ ∃ t, (p.loc t).call = .inBlock c) ∧
    -- an `aclose` takes the consumers registered when it begins
    (∀ t q, managerStep (F := F) settings codecs p (.inl (t, .aclose)) = some q →
      (q.loc t).snapshot = p.shared.consumers) ∧
    -- it has attempted all of them when it calls the `aclose` of a backend
    (∀ t, ∀ c ∈ (p.loc t).attempted, c ∈ p.shared.consumerCloses) ∧
    (∀ t name v frame, (p.loc t).lazy.task = .closer name v frame →
      (p.loc t).attempted = (p.loc t).snapshot.reverse) ∧
    -- when it ends it has attempted all of them and then every handle, whatever failed
    (∀ t, (p.loc t).call = .done .closed ∨ (∃ errors, (p.loc t).call = .done (.closeFailed errors)) →
      (p.loc t).attempted = (p.loc t).snapshot.reverse ∧
        (p.loc t).attempts.map Prod.fst = settings.names.reverse) ∧
    -- every backend of an attempted handle, made before or after, has its `aclose` called
    (∀ t, ∀ entry ∈ (p.loc t).attempts, entry.2 ≠ .waitCancelled →
      ∀ q, Reaches (managerStep (F := F) settings codecs) p q →
        ∀ v ∈ (q.shared.lazies entry.1).made, (entry.1, v) ∈ q.shared.backendCloses) ∧
    -- what `_consumers` contains
    (∀ c ∈ p.shared.consumers, ∃ t, (p.loc t).call = .inBlock c ∨ (p.loc t).call = .exiting c) ∧
    (p.shared.closed = false →
      ∀ t c, (p.loc t).call = .inBlock c ∨ (p.loc t).call = .exiting c → c ∈ p.shared.consumers) := by
  have hok : ManagerOk settings p := hp.invariant managerStep_ok ⟨blocksOk_init, laziesOk_init⟩
  refine ⟨?_, hok.1.attended, ?_, hok.2.attempted, ?_, ?_, ?_, ?_, ?_⟩
  · intro t q hstep r hr
    have honward := onward_of_reaches (managerStep_ok _ _ _ hok hstep) hr
    obtain ⟨s, l, hl, rfl⟩ := Pool.step_task hstep
    obtain ⟨hclosed, hpublishes, hyielded, -⟩ := aclose_begins (hok.2.call t) hl
    obtain ⟨-, hpublishes', hyielded'⟩ := honward.closed hclosed
    exact ⟨hpublishes'.trans hpublishes, hyielded'.trans hyielded⟩
  · intro t q hstep
    obtain ⟨s, l, hl, rfl⟩ := Pool.step_task hstep
    rw [Pool.move_loc_self]
    exact (aclose_begins (hok.2.call t) hl).2.2.2
  · intro t name v frame htask
    have hcall := (hok.2.call t).closer htask
    have hlog := hok.2.log t
    cases hc : (p.loc t).call <;> simp_all [Call.closesBackend, LogOk]
  · intro t hend
    have hlog := hok.2.log t
    rcases hend with hend | ⟨errors, hend⟩ <;> rw [LogOk, hend] at hlog <;> exact hlog
  · intro t entry hentry hwait q hpq v hv
    have hokq : ManagerOk settings q := hpq.invariant managerStep_ok hok
    have hgrows := (later_of_reaches hok.2.lazy (lazyPool_reaches hok hpq)).grows entry.1
    have hsettled := (hok.2.settled t entry hentry hwait).grows hgrows
      (onward_of_reaches hok hpq).backendCloses
    exact hokq.2.closed_of_settled hsettled v hv
  · intro c hc
    obtain ⟨t, ht⟩ := hok.1.registered c hc
    refine ⟨t, ?_⟩
    cases hcall : (p.loc t).call <;> simp_all [Call.block]
  · intro hopen t c hcall
    refine hok.1.complete hopen t c ?_
    rcases hcall with hcall | hcall <;> simp [hcall, Call.block]

end Runs

def mainSettings : QueueSettings where
  default := some "main"
  configs := [("main", {})]
  distinct := List.nodup_singleton "main"

def plainCodecs : Codecs Unit Unit where
  encodeJob _ := some ("report", 1, [])
  encode _ := some [1]
  decode _ := none
  isQueueError _ := false

-- A worker is consuming and a Dispatcher is held when the manager closes: the consumer's close
-- fails, the backend is closed after it, and the later dispatch publishes nothing.
theorem manager_shutdown_consuming : ∃ p : ManagerPool Unit Unit Nat Nat Nat,
    Reaches (managerStep (F := Unit) mainSettings plainCodecs) (.init Unit Unit Nat Nat Nat) p ∧
      p.shared.closed = true ∧ (p.loc 2).attempts = [("main", .closed)] ∧ p.shared.publishes = [] ∧
      ∀ q, Reaches (managerStep (F := Unit) mainSettings plainCodecs) p q →
        ∀ v ∈ (q.shared.lazies "main").made, ("main", v) ∈ q.shared.backendCloses := by
  let acts : List ((Nat × ManagerAct Unit Unit Unit Nat Nat) ⊕ Empty) :=
    [.inl (0, .consume none none 1), .inl (0, .lazy .acquire), .inl (0, .lazy (.factoryReturns 5)),
      .inl (0, .consumerReturns 9), .inl (1, .get none), .inl (1, .lazy .acquire), .inl (2, .aclose),
      .inl (1, .dispatchWith ⟨5, "default"⟩ () none none 0 ()),
      .inl (2, .consumerCloseEnds (some (.raised 1))), .inl (2, .lazy .acquire),
      .inl (2, .lazy .closerReturns), .inl (0, .exitBlock), .inl (0, .consumerCloseEnds none)]
  refine ⟨_, ⟨acts, rfl⟩, rfl, rfl, rfl, fun q hq => ?_⟩
  exact (manager_shutdown ⟨acts, rfl⟩).2.2.2.2.2.2.1 2 ("main", .closed) (by decide) (by decide) q hq

end Scaffold.Queue
