import Scaffold.Raising
import Scaffold.Vector.Milvus

namespace Scaffold.Vector.Milvus

open Machine Pool Python Raising

section Calls

def Check.modifies : Check → Bool
  | .describe _ => false
  | _ => true

-- A call of `create_collection` or `delete_collection` for `name` that has not ended.
def Task.modifies (name : String) : Task → Prop
  | .waiting (.hasCollection target check _) => target = name ∧ check.modifies
  | .waiting (.createCollection spec _) => spec.name = name
  | .waiting (.dropCollection target _) => target = name
  | _ => False

-- A creation that has taken effect and has not been answered.
def Task.creates (name : String) : Task → Prop
  | .waiting (.createCollection spec (some true)) => spec.name = name
  | _ => False

theorem modifies_of_creates {name : String} {task : Task} (h : task.creates name) : task.modifies name := by
  unfold Task.creates at h
  split at h
  · exact h
  · exact h.elim

variable {ι : Type}

def Quiet (name : String) (client : Client ι) : Prop := ∀ i, ¬ (client.loc i).modifies name

-- The collection that the server has under `name`, if it has one, uses `metric`.
def Shared.agrees (s : Shared) (name : String) (metric : VectorMetric) : Prop :=
  ∀ collection, s.server name = some collection → collection.metric = some metric

-- An answer that goes into the cache is not processed after the collection was replaced by one
-- of another metric, and a creation that has taken effect does not fail and is not cancelled
-- while the cache still has another metric for its name.
def Phase.timely (s : Shared) : Phase → Act → Prop
  | .createCollection spec (some true), .deliver => s.agrees spec.name spec.metric
  | .describeIndex name description _ (some (some text)), .deliver =>
      ∀ dimension metric, milvusDimension description = .ok dimension →
        metricFromMilvus text = some metric →
        s.agrees name metric
  | .createCollection spec (some true), .fail _ =>
      ∀ metric, s.metrics spec.name = some metric → s.agrees spec.name metric
  | .createCollection spec (some true), .cancel =>
      ∀ metric, s.metrics spec.name = some metric → s.agrees spec.name metric
  | _, _ => True

def timely (client : Client ι) : (ι × Act) ⊕ Empty → Prop
  | .inl (i, act) =>
      match client.loc i with
      | .waiting phase => phase.timely client.shared act
      | _ => True
  | .inr event => event.elim

end Calls

section Moves

variable {isLocal : Bool} {s s' : Shared} {l l' : Task} {ι : Type} {i : ι}

-- The moves of a call, each with the state that it leaves.
inductive TaskMove (isLocal : Bool) (s : Shared) : Task → Act → Shared → Task → Prop
  | called (operation : Operation) : TaskMove isLocal s .idle (.call operation) s (start s operation)
  | performed (phase : Phase) (found : List (List Hit)) {server : Server} {next : Phase}
      (hperform : perform s.server found phase = some (server, next)) :
    TaskMove isLocal s (.waiting phase) (.perform found) { s with server } (.waiting next)
  | delivered (phase : Phase) {s' : Shared} {l' : Task} (hdeliver : deliver s phase = some (s', l')) :
    TaskMove isLocal s (.waiting phase) .deliver s' l'
  | failed (phase : Phase) (failure : Failure) :
    TaskMove isLocal s (.waiting phase) (.fail failure) s (failed (raiseMilvusError isLocal failure) phase)
  | cancelled (phase : Phase) : TaskMove isLocal s (.waiting phase) .cancel s (.ended .cancelled)

theorem taskMove_of_step {act : Act} (h : taskStep isLocal i s l act = some (s', l')) :
    TaskMove isLocal s l act s' l' := by
  cases l with
  | idle =>
      cases act with
      | call operation =>
          obtain ⟨rfl, rfl⟩ := Prod.mk.inj (Option.some.inj h)
          exact .called operation
      | _ => cases h
  | ended outcome => cases h
  | waiting phase =>
      cases act with
      | call operation => cases h
      | perform found =>
          obtain ⟨⟨server, next⟩, hperform, heq⟩ := Option.map_eq_some_iff.mp h
          obtain ⟨rfl, rfl⟩ := Prod.mk.inj heq
          exact .performed phase found hperform
      | deliver => exact .delivered phase h
      | fail failure =>
          obtain ⟨rfl, rfl⟩ := Prod.mk.inj (Option.some.inj h)
          exact .failed phase failure
      | cancel =>
          obtain ⟨rfl, rfl⟩ := Prod.mk.inj (Option.some.inj h)
          exact .cancelled phase

theorem call_eq {operation : Operation} (h : taskStep isLocal i s l (.call operation) = some (s', l')) :
    s' = s ∧ l' = start s operation := by
  cases taskMove_of_step h with
  | called => exact ⟨rfl, rfl⟩

theorem deliver_eq (h : taskStep isLocal i s l .deliver = some (s', l')) :
    ∃ phase, l = .waiting phase ∧ deliver s phase = some (s', l') := by
  cases taskMove_of_step h with
  | delivered phase hdeliver => exact ⟨phase, rfl, hdeliver⟩

end Moves

section Cache

variable {s s' : Shared} {l l' : Task} {name : String} {metric : VectorMetric}

-- What one step does to the entries of the cache: an entry afterwards agrees with the server, or
-- it was there before and the step neither ends a creation of that name nor breaks its agreement.
def Keeps (s : Shared) (l : Task) (s' : Shared) (l' : Task) : Prop :=
  ∀ name metric, s'.metrics name = some metric → s'.agrees name metric ∨ l'.creates name ∨
    s.metrics name = some metric ∧ (s.agrees name metric → s'.agrees name metric) ∧ ¬ l.creates name

theorem keeps_same (h : ∀ name, ¬ l.creates name) : Keeps s l s l' :=
  fun name _ hmetric => .inr (.inr ⟨hmetric, id, h name⟩)

theorem keeps_forget (h : ∀ name, ¬ l.creates name) : Keeps s l (s.forget name) l' := by
  intro other metric hmetric
  by_cases hname : other = name
  · simp [Shared.forget, hname] at hmetric
  · have hsame : s.metrics other = some metric := by simpa [Shared.forget, hname] using hmetric
    exact .inr (.inr ⟨hsame, id, h other⟩)

theorem keeps_remember (hagrees : s.agrees name metric) (h : ∀ other, other ≠ name → ¬ l.creates other) :
    Keeps s l (s.remember name metric) l' := by
  intro other metric' hmetric
  by_cases hname : other = name
  · subst hname
    obtain rfl : metric = metric' := by simpa [Shared.remember] using hmetric
    exact .inl hagrees
  · have hsame : s.metrics other = some metric' := by simpa [Shared.remember, hname] using hmetric
    exact .inr (.inr ⟨hsame, id, h other hname⟩)

-- A step that ends a creation without a new entry keeps the old one, which agrees.
theorem keeps_ended {spec : VectorCollectionSpec}
    (hagrees : ∀ metric, s.metrics spec.name = some metric → s.agrees spec.name metric) :
    Keeps s (.waiting (.createCollection spec (some true))) s l' := by
  intro other metric hmetric
  by_cases hname : other = spec.name
  · subst hname
    exact .inl (hagrees metric hmetric)
  · exact .inr (.inr ⟨hmetric, id, fun h => hname h.symm⟩)

-- A call that the server performs makes a collection, drops one or changes nothing.
theorem perform_cases {server server' : Server} {found : List (List Hit)} {phase next : Phase}
    (h : perform server found phase = some (server', next)) :
    (∃ spec, phase = .createCollection spec none ∧ next = .createCollection spec (some true) ∧
      server' = Function.update server spec.name (some (created spec))) ∨
    (∃ name, phase = .dropCollection name none ∧ server' = Function.update server name none) ∨
    (server' = server ∧ ∀ name, ¬ (Task.waiting phase).creates name) := by
  unfold perform at h
  split at h
  · obtain ⟨rfl, rfl⟩ := Prod.mk.inj (Option.some.inj h)
    exact .inr (.inr ⟨rfl, fun _ => id⟩)
  · split at h
    · obtain ⟨rfl, rfl⟩ := Prod.mk.inj (Option.some.inj h)
      exact .inr (.inr ⟨rfl, fun _ => id⟩)
    · obtain ⟨rfl, rfl⟩ := Prod.mk.inj (Option.some.inj h)
      exact .inl ⟨_, rfl, rfl, rfl⟩
  · obtain ⟨rfl, rfl⟩ := Prod.mk.inj (Option.some.inj h)
    exact .inr (.inr ⟨rfl, fun _ => id⟩)
  · obtain ⟨rfl, rfl⟩ := Prod.mk.inj (Option.some.inj h)
    exact .inr (.inr ⟨rfl, fun _ => id⟩)
  · obtain ⟨rfl, rfl⟩ := Prod.mk.inj (Option.some.inj h)
    exact .inr (.inl ⟨_, rfl, rfl⟩)
  · obtain ⟨rfl, rfl⟩ := Prod.mk.inj (Option.some.inj h)
    exact .inr (.inr ⟨rfl, fun _ => id⟩)
  · cases h

theorem keeps_perform {server : Server} {found : List (List Hit)} {phase next : Phase}
    (h : perform s.server found phase = some (server, next)) :
    Keeps s (.waiting phase) { s with server } (.waiting next) := by
  obtain ⟨spec, rfl, rfl, rfl⟩ | ⟨name, rfl, rfl⟩ | ⟨rfl, hcreates⟩ := perform_cases h
  · intro other metric hmetric
    by_cases hname : spec.name = other
    · exact .inr (.inl hname)
    · refine .inr (.inr ⟨hmetric, fun hagrees collection hcollection => ?_, id⟩)
      exact hagrees collection (by simpa [Ne.symm hname] using hcollection)
  · intro other metric hmetric
    refine .inr (.inr ⟨hmetric, fun hagrees collection hcollection => ?_, id⟩)
    by_cases hname : other = name
    · simp [hname] at hcollection
    · exact hagrees collection (by simpa [hname] using hcollection)
  · exact keeps_same hcreates

theorem keeps_checked {check : Check} {found : Bool} (h : ∀ name, ¬ l.creates name) :
    Keeps s l (checked s name check found).1 (checked s name check found).2 := by
  cases check with
  | deleteFailed error =>
      cases found with
      | true => exact keeps_same h
      | false => exact keeps_forget h
  | _ => exact keeps_same h

theorem keeps_described {description : Description} {caller : Option SearchArgs} {text : String}
    (hagrees : ∀ dimension metric, milvusDimension description = .ok dimension →
      metricFromMilvus text = some metric → s.agrees name metric)
    (h : ∀ name, ¬ l.creates name) :
    Keeps s l (described s name description caller text).1
      (described s name description caller text).2 := by
  unfold described
  split
  · exact keeps_same h
  · split
    · exact keeps_same h
    · exact keeps_remember (hagrees _ _ ‹_› ‹_›) fun other _ => h other

theorem keeps_deliver {phase : Phase} (htimely : phase.timely s .deliver)
    (h : deliver s phase = some (s', l')) :
    Keeps s (.waiting phase) s' l' := by
  unfold deliver at h
  split at h
  · obtain ⟨rfl, rfl⟩ := Prod.mk.inj (Option.some.inj h)
    exact keeps_checked fun _ => id
  · obtain ⟨rfl, rfl⟩ := Prod.mk.inj (Option.some.inj h)
    exact keeps_remember htimely fun other hother hname => hother hname.symm
  · obtain ⟨rfl, rfl⟩ := Prod.mk.inj (Option.some.inj h)
    exact keeps_same fun _ => id
  · obtain ⟨rfl, rfl⟩ := Prod.mk.inj (Option.some.inj h)
    exact keeps_described htimely fun _ => id
  · obtain ⟨rfl, rfl⟩ := Prod.mk.inj (Option.some.inj h)
    exact keeps_forget fun _ => id
  · obtain ⟨rfl, rfl⟩ := Prod.mk.inj (Option.some.inj h)
    exact keeps_same fun _ => id
  · cases h

-- The steps that end a call without a look at an answer.
theorem keeps_abandoned {phase : Phase} {act : Act} (hact : act = .cancel ∨ ∃ failure, act = .fail failure)
    (htimely : phase.timely s act) : Keeps s (.waiting phase) s l' := by
  cases phase with
  | createCollection spec reply =>
      match reply with
      | some true =>
          obtain rfl | ⟨failure, rfl⟩ := hact
          · exact keeps_ended htimely
          · exact keeps_ended htimely
      | some false => exact keeps_same fun _ => id
      | none => exact keeps_same fun _ => id
  | _ => exact keeps_same fun _ => id

theorem keeps_step {isLocal : Bool} {ι : Type} {i : ι} {act : Act}
    (htimely : ∀ phase, l = .waiting phase → phase.timely s act)
    (h : taskStep isLocal i s l act = some (s', l')) : Keeps s l s' l' := by
  cases taskMove_of_step h with
  | called operation => exact keeps_same fun _ => id
  | performed phase found hperform => exact keeps_perform hperform
  | delivered phase hdeliver => exact keeps_deliver (htimely phase rfl) hdeliver
  | failed phase failure => exact keeps_abandoned (.inr ⟨failure, rfl⟩) (htimely phase rfl)
  | cancelled phase => exact keeps_abandoned (.inl rfl) (htimely phase rfl)

end Cache

section Coherence

variable {ι : Type} [DecidableEq ι] {isLocal : Bool} {p q : Client ι}

-- An entry of the cache agrees with the server unless a creation is about to replace it.
def Coherent (client : Client ι) : Prop :=
  ∀ name metric, client.shared.metrics name = some metric →
    client.shared.agrees name metric ∨ ∃ i, (client.loc i).creates name

theorem coherent_step {act : (ι × Act) ⊕ Empty} (hp : Coherent p) (htimely : timely p act)
    (h : step isLocal p act = some q) : Coherent q := by
  cases act with
  | inr event => exact event.elim
  | inl act =>
      obtain ⟨i, act⟩ := act
      obtain ⟨s, l, hstep, rfl⟩ := step_task h
      have hkeeps : Keeps p.shared (p.loc i) s l := by
        refine keeps_step (fun phase hphase => ?_) hstep
        simpa only [timely, hphase] using htimely
      intro name metric hmetric
      obtain hagrees | hcreates | ⟨hbefore, hagrees, hnot⟩ := hkeeps name metric hmetric
      · exact .inl hagrees
      · exact .inr ⟨i, by simpa using hcreates⟩
      · obtain hold | ⟨j, hj⟩ := hp name metric hbefore
        · exact .inl (hagrees hold)
        · have hne : j ≠ i := fun heq => hnot (heq ▸ hj)
          exact .inr ⟨j, by simpa only [move_loc_ne _ _ _ hne] using hj⟩

theorem coherent_reaches {server : Server} (h : Reaches (restrict timely (step isLocal)) (fresh server) p) :
    Coherent p := by
  refine h.invariant (fun s act t hs hstep => ?_) fun name metric hmetric => nomatch hmetric
  obtain ⟨htimely, hstep⟩ := restrict_eq_some.mp hstep
  exact coherent_step hs htimely hstep

-- The cache has a metric for a collection that is not the metric of the collection.
def Stale (s : Shared) : Prop := ∃ name metric, s.metrics name = some metric ∧ ¬ s.agrees name metric

omit [DecidableEq ι] in
theorem stale_of_phase {i : ι} {s s' : Shared} {l' : Task} {phase : Phase} {act : Act}
    (h : ¬ phase.timely s act)
    (hstep : taskStep isLocal i s (.waiting phase) act = some (s', l')) : Stale s' := by
  unfold Phase.timely at h
  split at h
  · rename_i spec
    obtain ⟨rfl, -⟩ := Prod.mk.inj (Option.some.inj hstep)
    exact ⟨spec.name, spec.metric, Function.update_self _ _ _, h⟩
  · rename_i name description caller text
    have heq : (described s name description caller text).1 = s' :=
      congrArg Prod.fst (Option.some.inj hstep)
    push Not at h
    obtain ⟨dimension, metric, hdimension, hmetric, hagrees⟩ := h
    simp only [described, hdimension, hmetric] at heq
    subst heq
    exact ⟨name, metric, Function.update_self _ _ _, hagrees⟩
  · obtain ⟨rfl, -⟩ := Prod.mk.inj (Option.some.inj hstep)
    push Not at h
    exact ⟨_, h⟩
  · obtain ⟨rfl, -⟩ := Prod.mk.inj (Option.some.inj hstep)
    push Not at h
    exact ⟨_, h⟩
  · exact absurd trivial h

-- Nothing less will do: a step that does not meet the condition leaves such an entry behind.
theorem stale_of_not_timely {act : (ι × Act) ⊕ Empty} (htimely : ¬ timely p act)
    (h : step isLocal p act = some q) : Stale q.shared := by
  cases act with
  | inr event => exact event.elim
  | inl act =>
      obtain ⟨i, act⟩ := act
      obtain ⟨s, l, hstep, rfl⟩ := step_task h
      simp only [timely] at htimely
      split at htimely
      · rename_i phase hphase
        rw [hphase] at hstep
        exact stale_of_phase htimely hstep
      · exact absurd trivial htimely

omit [DecidableEq ι] in
theorem agrees_of_quiet {name : String} {metric : VectorMetric} (hp : Coherent p) (hquiet : Quiet name p)
    (h : p.shared.metrics name = some metric) : p.shared.agrees name metric := by
  obtain hagrees | ⟨i, hi⟩ := hp name metric h
  · exact hagrees
  · exact absurd (modifies_of_creates hi) (hquiet i)

end Coherence

section Search

variable {ι : Type} [DecidableEq ι] {isLocal : Bool} {p q : Client ι} {name : String} {args : SearchArgs}
  {s s' : Shared} {l l' : Task}

theorem checked_server (check : Check) (found : Bool) :
    (checked s name check found).1.server = s.server := by
  cases check with
  | deleteFailed error => cases found <;> rfl
  | _ => rfl

theorem described_server (description : Description) (caller : Option SearchArgs) (text : String) :
    (described s name description caller text).1.server = s.server := by
  unfold described
  split
  · rfl
  · split <;> rfl

theorem deliver_server {phase : Phase} (h : deliver s phase = some (s', l')) : s'.server = s.server := by
  unfold deliver at h
  split at h
  · obtain ⟨rfl, rfl⟩ := Prod.mk.inj (Option.some.inj h)
    exact checked_server _ _
  · obtain ⟨rfl, rfl⟩ := Prod.mk.inj (Option.some.inj h)
    rfl
  · obtain ⟨rfl, rfl⟩ := Prod.mk.inj (Option.some.inj h)
    rfl
  · obtain ⟨rfl, rfl⟩ := Prod.mk.inj (Option.some.inj h)
    exact described_server _ _ _
  · obtain ⟨rfl, rfl⟩ := Prod.mk.inj (Option.some.inj h)
    rfl
  · obtain ⟨rfl, rfl⟩ := Prod.mk.inj (Option.some.inj h)
    rfl
  · cases h

omit [DecidableEq ι] in
-- Only calls that create or delete a collection change what the server has under its name.
theorem server_step {i : ι} {act : Act} (hquiet : ¬ l.modifies name)
    (h : taskStep isLocal i s l act = some (s', l')) : s'.server name = s.server name := by
  cases taskMove_of_step h with
  | called operation => rfl
  | performed phase found hperform =>
      obtain ⟨spec, rfl, rfl, rfl⟩ | ⟨target, rfl, rfl⟩ | ⟨rfl, -⟩ := perform_cases hperform
      · exact Function.update_of_ne (fun h => hquiet h.symm) _ _
      · exact Function.update_of_ne (fun h => hquiet h.symm) _ _
      · rfl
  | delivered phase hdeliver => rw [deliver_server hdeliver]
  | failed phase failure => rfl
  | cancelled phase => rfl

-- A search of a collection, which the server has as `found` all the time.
def Searching (args : SearchArgs) (found : Option Collection) : Task → Prop
  | .waiting (.hasCollection target (.describe (some caller)) _) => target = args.collection ∧ caller = args
  | .waiting (.describeCollection target (some caller) _) => target = args.collection ∧ caller = args
  | .waiting (.describeIndex target _ (some caller) reply) =>
      target = args.collection ∧ caller = args ∧
        ∀ text, reply = some (some text) → found.map Collection.metricType = some text
  | .waiting (.search caller metric reply) =>
      caller = args ∧ (∀ collection, found = some collection → collection.metric = some metric) ∧
        ∀ result, reply = some (some result) → found.isSome
  | .ended _ => True
  | _ => False

theorem searching_start (hagrees : ∀ metric, s.metrics args.collection = some metric →
    s.agrees args.collection metric) : Searching args (s.server args.collection)
      (start s (.search args)) := by
  simp only [start, hasCollection]
  split
  · trivial
  · split
    · exact ⟨rfl, hagrees _ ‹_›, fun _ h => nomatch h⟩
    · split
      · trivial
      · exact ⟨rfl, rfl⟩

theorem searching_perform {server : Server} {found : List (List Hit)} {phase next : Phase}
    (hl : Searching args (s.server args.collection) (.waiting phase))
    (h : perform s.server found phase = some (server, next)) :
      Searching args (s.server args.collection) (.waiting next) := by
  unfold perform at h
  split at h
  · rename_i target check
    obtain ⟨rfl, rfl⟩ := Prod.mk.inj (Option.some.inj h)
    match check, hl with
    | .describe (some caller), hl => exact hl
  · exact hl.elim
  · rename_i target caller
    obtain ⟨rfl, rfl⟩ := Prod.mk.inj (Option.some.inj h)
    match caller, hl with
    | some caller, hl => exact hl
  · rename_i target description caller
    obtain ⟨rfl, rfl⟩ := Prod.mk.inj (Option.some.inj h)
    cases caller with
    | none => exact hl.elim
    | some caller =>
        obtain ⟨rfl, rfl, -⟩ := hl
        exact ⟨rfl, rfl, fun text htext => Option.some.inj htext⟩
  · exact hl.elim
  · obtain ⟨rfl, rfl⟩ := Prod.mk.inj (Option.some.inj h)
    obtain ⟨rfl, hmetric, -⟩ := hl
    refine ⟨rfl, hmetric, fun result hresult => ?_⟩
    obtain ⟨collection, hcollection, -⟩ := Option.map_eq_some_iff.mp (Option.some.inj hresult)
    simp [hcollection]
  · cases h

theorem searching_described {description : Description} {text : String}
    (htext : (s.server args.collection).map Collection.metricType = some text) :
    Searching args (s.server args.collection)
      (described s args.collection description (some args) text).2 := by
  unfold described
  split
  · trivial
  · split
    · trivial
    · rename_i metric hmetric
      refine ⟨rfl, fun collection hcollection => ?_, fun _ h => nomatch h⟩
      -- the answer is the metric of the collection that the server still has
      have hsame : collection.metricType = text := by simpa [hcollection] using htext
      rw [Collection.metric, hsame, hmetric]

theorem searching_deliver {phase : Phase} (hl : Searching args (s.server args.collection) (.waiting phase))
    (h : deliver s phase = some (s', l')) : Searching args (s.server args.collection) l' := by
  unfold deliver at h
  split at h
  · rename_i target check found
    obtain ⟨rfl, rfl⟩ := Prod.mk.inj (Option.some.inj h)
    match check, hl with
    | .describe (some caller), hl =>
        cases found with
        | false => trivial
        | true => exact hl
  · exact hl.elim
  · rename_i target caller description
    obtain ⟨rfl, rfl⟩ := Prod.mk.inj (Option.some.inj h)
    cases caller with
    | none => exact hl.elim
    | some caller => exact ⟨hl.1, hl.2, fun _ h => nomatch h⟩
  · rename_i target description caller text
    obtain ⟨rfl, rfl⟩ := Prod.mk.inj (Option.some.inj h)
    cases caller with
    | none => exact hl.elim
    | some caller =>
        obtain ⟨rfl, rfl, htext⟩ := hl
        exact searching_described (htext text rfl)
  · exact hl.elim
  · obtain ⟨rfl, rfl⟩ := Prod.mk.inj (Option.some.inj h)
    unfold searched
    split <;> trivial
  · cases h

theorem searching_failed {phase : Phase} {error : Raised} {found : Option Collection}
    (hl : Searching args found (.waiting phase)) : Searching args found (failed error phase) := by
  cases phase with
  | createCollection spec reply => exact hl.elim
  | dropCollection target reply => exact hl.elim
  | _ => trivial

omit [DecidableEq ι] in
theorem searching_step {i : ι} {act : Act} (hl : Searching args (s.server args.collection) l)
    (h : taskStep isLocal i s l act = some (s', l')) : Searching args (s.server args.collection) l' := by
  cases taskMove_of_step h with
  | called operation => exact hl.elim
  | performed phase found hperform => exact searching_perform hl hperform
  | delivered phase hdeliver => exact searching_deliver hl hdeliver
  | failed phase failure => exact searching_failed hl
  | cancelled phase => trivial

-- The steps that are taken while no creation and no deletion of the collection is going on.
noncomputable def quietStep (isLocal : Bool) (name : String) :
    Client ι → (ι × Act) ⊕ Empty → Option (Client ι) :=
  restrict (fun client _ => Quiet name client) (step isLocal)

theorem searching_reaches {t : ι} {found : Option Collection}
    (h : Reaches (quietStep isLocal args.collection) p q)
    (hp : p.shared.server args.collection = found ∧ Searching args found (p.loc t)) :
    q.shared.server args.collection = found ∧ Searching args found (q.loc t) := by
  have hkeep : ∀ (r : Client ι) act r', r.shared.server args.collection = found ∧
    Searching args found (r.loc t) →
      quietStep isLocal args.collection r act = some r' →
      r'.shared.server args.collection = found ∧ Searching args found (r'.loc t) := by
    rintro r act r' ⟨hserver, hsearch⟩ hstep
    obtain ⟨hquiet, hstep⟩ := restrict_eq_some.mp hstep
    cases act with
    | inr event => exact event.elim
    | inl act =>
        obtain ⟨i, act⟩ := act
        obtain ⟨s, l, htask, rfl⟩ := step_task hstep
        refine ⟨(server_step (hquiet i) htask).trans hserver, ?_⟩
        by_cases hi : t = i
        · subst hi
          subst hserver
          simpa using searching_step hsearch htask
        · simpa only [move_loc_ne _ _ _ hi] using hsearch
  exact h.invariant hkeep hp

-- The order in which the server returns the hits for a metric, and the order of the matches.
def BestFirst (metric : VectorMetric) (hits : List Hit) : Prop :=
  hits.Pairwise fun a b => ∀ x y, a.distance = some x → b.distance = some y →
    if metric = .l2 then x.le y else y.le x

def Descending (found : List VectorMatch) : Prop := found.Pairwise fun a b => b.score.le a.score

theorem milvusMatch_score {metric : VectorMetric} {hit : Hit} {found : VectorMatch}
    (h : milvusMatch metric hit = .ok found) :
    ∃ x, hit.distance = some x ∧ found.score = if metric = .l2 then x.neg else x := by
  unfold milvusMatch at h
  split at h
  · rename_i entity id distance _ _ hdistance
    obtain rfl := Except.ok.inj h
    exact ⟨distance, hdistance, rfl⟩
  · cases h

theorem descending_of_bestFirst {metric : VectorMetric} {hits : List Hit} {found : List VectorMatch}
    (hfound : hits.mapM (milvusMatch metric) = .ok found) (h : BestFirst metric hits) :
      Descending found := by
  induction hits generalizing found with
  | nil =>
      obtain rfl := Except.ok.inj hfound
      exact .nil
  | cons hit hits ih =>
      obtain ⟨first, rest, hfirst, hrest, rfl⟩ := mapM_cons_ok.mp hfound
      obtain ⟨hhead, htail⟩ := List.pairwise_cons.mp h
      refine List.pairwise_cons.mpr ⟨fun other hother => ?_, ih hrest htail⟩
      obtain ⟨hit', hhit', hmatch⟩ := mem_of_mapM_ok hrest other hother
      obtain ⟨x, hx, hscore⟩ := milvusMatch_score hfirst
      obtain ⟨y, hy, hscore'⟩ := milvusMatch_score hmatch
      have hle := hhead hit' hhit' x y hx hy
      rw [hscore, hscore']
      by_cases hmetric : metric = .l2
      · simpa [hmetric, PyFloat.le_neg] using hle
      · simpa [hmetric] using hle

-- Every search that does not overlap with a creation or a deletion of its collection converts the
-- answer of the server with the metric of the collection. `ok` is what all steps before it meet.
def SearchesConvert (isLocal : Bool) (ok : Client ι → (ι × Act) ⊕ Empty → Prop) : Prop :=
  ∀ (server : Server) (p p₁ p₂ p₃ : Client ι) (t : ι) (args : SearchArgs) (found : List VectorMatch),
    Reaches (restrict ok (step isLocal)) (fresh server) p →
    quietStep isLocal args.collection p (.inl (t, .call (.search args))) = some p₁ →
    Reaches (quietStep isLocal args.collection) p₁ p₂ →
    quietStep isLocal args.collection p₂ (.inl (t, .deliver)) = some p₃ →
    p₃.loc t = .ended (.matches found) →
    ∃ metric result collection,
      p₂.loc t = .waiting (.search args metric (some (some result))) ∧
      p₂.shared.server args.collection = some collection ∧ collection.metric = some metric ∧
      (result.headD []).mapM (milvusMatch metric) = .ok found ∧
      (BestFirst metric (result.headD []) → Descending found)

-- A search returns only from its last await, and it converts the answer to that call.
theorem deliver_matches {phase : Phase} {found : List VectorMatch}
    (hl : Searching args (s.server args.collection) (.waiting phase))
    (h : deliver s phase = some (s', .ended (.matches found))) :
    ∃ metric result, phase = .search args metric (some (some result)) ∧
      (result.headD []).mapM (milvusMatch metric) = .ok found := by
  unfold deliver at h
  split at h
  · rename_i target check found'
    have htask : (checked s target check found').2 = .ended (.matches found) :=
      congrArg Prod.snd (Option.some.inj h)
    match check, hl with
    | .describe (some caller), hl => cases found' <;> cases htask
  · exact hl.elim
  · cases h
  · rename_i target description caller text
    have htask : (described s target description caller text).2 = .ended (.matches found) :=
      congrArg Prod.snd (Option.some.inj h)
    match caller, hl with
    | some caller, hl =>
        unfold described at htask
        split at htask
        · cases htask
        · split at htask <;> cases htask
  · exact hl.elim
  · rename_i caller metric result
    have htask : searched metric result = .ended (.matches found) := congrArg Prod.snd (Option.some.inj h)
    unfold searched at htask
    split at htask
    · cases htask
    · rename_i found' hfound
      obtain rfl : found' = found := by injection htask with h; injection h
      exact ⟨metric, result, by rw [hl.1], hfound⟩
  · cases h

theorem search_converts : SearchesConvert isLocal (timely : Client ι → (ι × Act) ⊕ Empty → Prop) := by
  intro server p p₁ p₂ p₃ t args found hp hcall hrun hdeliver hfound
  obtain ⟨hquiet, hcall⟩ := restrict_eq_some.mp hcall
  obtain ⟨-, hdeliver⟩ := restrict_eq_some.mp hdeliver
  obtain ⟨s, l, hstart, rfl⟩ := step_task hcall
  obtain ⟨rfl, rfl⟩ := call_eq hstart
  -- the entry that the search reads agrees with the server when it starts
  have hfirst : Searching args (p.shared.server args.collection) (start p.shared (.search args)) :=
    searching_start fun _ => agrees_of_quiet (coherent_reaches hp) hquiet
  obtain ⟨hserver, hsearching⟩ := searching_reaches (t := t) hrun ⟨rfl, by simpa using hfirst⟩
  obtain ⟨s', l', htask, rfl⟩ := step_task hdeliver
  obtain rfl : l' = .ended (.matches found) := by simpa using hfound
  obtain ⟨phase, hphase, hlast⟩ := deliver_eq htask
  rw [← hserver, hphase] at hsearching
  obtain ⟨metric, result, rfl, hmatches⟩ := deliver_matches hsearching hlast
  obtain ⟨-, hmetric, hsome⟩ := hsearching
  obtain ⟨collection, hcollection⟩ := Option.isSome_iff_exists.mp (hsome result rfl)
  exact ⟨metric, result, collection, hphase, hcollection, hmetric collection hcollection, hmatches,
    descending_of_bestFirst hmatches⟩

-- A search that finds the metric of its collection in the cache.
theorem cached_search (isLocal : Bool) (args : SearchArgs) (t : ι) (result : List (List Hit))
    {metric : VectorMetric} {collection : Collection} {found : List VectorMatch}
    (hquiet : Quiet args.collection p) (hidle : p.loc t = .idle)
    (hvalid : validateSearch args = .ok ()) (hmetric : p.shared.metrics args.collection = some metric)
    (hcollection : p.shared.server args.collection = some collection)
    (hfound : (result.headD []).mapM (milvusMatch metric) = .ok found) :
    ∃ p₁ p₂ p₃, quietStep isLocal args.collection p (.inl (t, .call (.search args))) = some p₁ ∧
      Reaches (quietStep isLocal args.collection) p₁ p₂ ∧
      quietStep isLocal args.collection p₂ (.inl (t, .deliver)) = some p₃ ∧
      p₂ = p.move t p.shared (.waiting (.search args metric (some (some result)))) ∧
      p₃.loc t = .ended (.matches found) := by
  have hquiet' :
    ∀ reply, Quiet args.collection (p.move t p.shared (.waiting (.search args metric reply))) := by
    intro reply i
    by_cases hi : i = t
    · subst hi
      simp [Task.modifies]
    · simpa only [move_loc_ne _ _ _ hi] using hquiet i
  have hcall : step isLocal p (.inl (t, .call (.search args))) =
      some (p.move t p.shared (.waiting (.search args metric none))) := by
    refine step_of_task ?_
    simp [hidle, taskStep, start, hvalid, hmetric]
  have hperform : step isLocal (p.move t p.shared (.waiting (.search args metric none)))
    (.inl (t, .perform result)) =
      some (p.move t p.shared (.waiting (.search args metric (some (some result))))) := by
    rw [← move_move p t p.shared p.shared (.waiting (.search args metric none))
      (.waiting (.search args metric (some (some result))))]
    refine step_of_task ?_
    simp [taskStep, perform, hcollection]
  have hdeliver : step isLocal (p.move t p.shared (.waiting (.search args metric (some (some result)))))
      (.inl (t, .deliver)) = some (p.move t p.shared (.ended (.matches found))) := by
    rw [← move_move p t p.shared p.shared (.waiting (.search args metric (some (some result)))) (.ended _)]
    refine step_of_task ?_
    simp only [move_loc_self, move_shared, taskStep, deliver, searched, hfound]
  exact ⟨_, _, _, restrict_eq_some.mpr ⟨hquiet, hcall⟩,
    .single (restrict_eq_some.mpr ⟨hquiet' none, hperform⟩),
    restrict_eq_some.mpr ⟨hquiet' (some (some result)), hdeliver⟩, rfl, move_loc_self _ _ _ _⟩

end Search

section Histories

theorem restrict_true {σ α : Type} (step : σ → α → Option σ) : restrict (fun _ _ => True) step = step := by
  funext s a
  simp [restrict]

def docs (metric : VectorMetric) : VectorCollectionSpec where
  name := "docs"
  dimension := 2
  metric := metric
  valid := rfl
  bounds := by decide

def query : SearchArgs where
  collection := "docs"
  vector := [.finite false 1 representable_one, .finite false 0 representable_zero]
  limit := 2

-- Two hits in the order of a cosine index, best first.
def hits : List Hit :=
  [⟨some [], some "a", some (.finite false (9 * 2 ^ 1070) (by decide +kernel))⟩,
    ⟨some [], some "b", some (.finite false (2 ^ 1073) (by decide +kernel))⟩]

-- A backend call that is performed and answered.
def served : List Act := [.perform [], .deliver]

def actsOf (i : Nat) (acts : List Act) : List ((Nat × Act) ⊕ Empty) := acts.map fun act => .inl (i, act)

-- A description has its last answer before the collection is deleted and created again with
-- another metric, and processes it afterwards.
def overtaken : List ((Nat × Act) ⊕ Empty) :=
  actsOf 0 (.call (.create (docs .l2)) :: served ++ served) ++
  actsOf 1 (.call (.describe "docs") :: served ++ served ++ [.perform []]) ++
  actsOf 2 (.call (.delete "docs") :: served ++ served) ++
  actsOf 3 (.call (.create (docs .cosine)) :: served ++ served) ++
  actsOf 1 [.deliver]

theorem overtaken_stale : ∃ p : Client Nat, Reaches (step false) (fresh fun _ => none) p ∧
    (∀ i < 4, ∃ outcome, p.loc i = .ended outcome) ∧ (∀ i, 4 ≤ i → p.loc i = .idle) ∧
    p.shared.metrics "docs" = some .l2 ∧ p.shared.server "docs" = some (created (docs .cosine)) := by
  refine ⟨_, ⟨overtaken, rfl⟩, ?_, ?_, rfl, rfl⟩
  · intro i hi
    match i, hi with
    | 0, _ => exact ⟨_, rfl⟩
    | 1, _ => exact ⟨_, rfl⟩
    | 2, _ => exact ⟨_, rfl⟩
    | 3, _ => exact ⟨_, rfl⟩
  · intro i hi
    match i, hi with
    | i + 4, _ => rfl

theorem quiet_of_ended {n : Nat} {name : String} {p : Client Nat}
    (hended : ∀ i < n, ∃ outcome, p.loc i = .ended outcome) (hidle : ∀ i, n ≤ i → p.loc i = .idle) :
    Quiet name p := by
  intro i
  by_cases hi : i < n
  · obtain ⟨outcome, houtcome⟩ := hended i hi
    simp [houtcome, Task.modifies]
  · simp [hidle i (Nat.le_of_not_lt hi), Task.modifies]

-- The search that follows converts the cosine similarities as distances.
theorem stale_metric_after_describe :
    ¬ SearchesConvert false fun (_ : Client Nat) (_ : (Nat × Act) ⊕ Empty) => True := by
  intro h
  obtain ⟨p, hp, hended, hidle, hmetric, hserver⟩ := overtaken_stale
  rw [← restrict_true (step false)] at hp
  obtain ⟨p₁, p₂, p₃, hcall, hrun, hdeliver, rfl, hfound⟩ := cached_search false query 4 [hits]
    (quiet_of_ended hended hidle) (hidle 4 (Nat.le_refl 4)) rfl hmetric hserver rfl
  obtain ⟨metric, result, collection, hphase, hcollection, hactual, -⟩ :=
    h _ p p₁ _ p₃ 4 query _ hp hcall hrun hdeliver hfound
  obtain rfl : .l2 = metric := by
    rw [move_loc_self] at hphase
    injection hphase with hphase
    injection hphase
  obtain rfl : created (docs .cosine) = collection := Option.some.inj (hserver.symm.trans hcollection)
  exact absurd hactual (by decide)

-- A creation and a search after it.
theorem search_converts_after_create : ∃ (p₂ : Client Nat) (metric : VectorMetric)
    (result : List (List Hit))
    (collection : Collection), p₂.loc 1 = .waiting (.search query metric (some (some result))) ∧
      p₂.shared.server "docs" = some collection ∧ collection.metric = some metric := by
  obtain ⟨p, hp, hended, hidle, hmetric, hserver⟩ : ∃ p : Client Nat,
      Reaches (restrict timely (step false)) (fresh fun _ => none) p ∧
      (∀ i < 1, ∃ outcome, p.loc i = .ended outcome) ∧ (∀ i, 1 ≤ i → p.loc i = .idle) ∧
      p.shared.metrics "docs" = some .cosine ∧ p.shared.server "docs" = some (created (docs .cosine)) := by
    refine ⟨_, ⟨actsOf 0 (.call (.create (docs .cosine)) :: served ++ served), run_restrict ?_ rfl⟩,
      ?_, ?_, rfl, rfl⟩
    · refine ⟨trivial, fun _ hcall => ?_⟩
      obtain rfl := Option.some.inj hcall
      refine ⟨trivial, fun _ hcheck => ?_⟩
      obtain rfl := Option.some.inj hcheck
      refine ⟨trivial, fun _ habsent => ?_⟩
      obtain rfl := Option.some.inj habsent
      refine ⟨trivial, fun _ hcreate => ?_⟩
      obtain rfl := Option.some.inj hcreate
      refine ⟨fun collection hcollection => ?_, fun _ _ => trivial⟩
      obtain rfl := Option.some.inj hcollection
      rfl
    · intro i hi
      match i, hi with
      | 0, _ => exact ⟨_, rfl⟩
    · intro i hi
      match i, hi with
      | i + 1, _ => rfl
  obtain ⟨p₁, p₂, p₃, hcall, hrun, hdeliver, -, hfound⟩ := cached_search false query 1 [hits]
    (quiet_of_ended hended hidle) (hidle 1 (Nat.le_refl 1)) rfl hmetric hserver rfl
  obtain ⟨metric, result, collection, hphase, hcollection, hactual, -⟩ :=
    search_converts _ p p₁ p₂ p₃ 1 query _ hp hcall hrun hdeliver hfound
  exact ⟨p₂, metric, result, collection, hphase, hcollection, hactual⟩

end Histories

end Scaffold.Vector.Milvus
