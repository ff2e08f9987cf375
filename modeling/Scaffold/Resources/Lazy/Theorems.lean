import Scaffold.Resources.Lazy

namespace Scaffold.Resources

open Machine

variable {H V T : Type*} [DecidableEq H]

-- A resource is alive from the return of its factory until its closer succeeds.
def AsyncLazy.Alive (lazy : AsyncLazy V T) (v : V) : Prop := v ∈ lazy.made ∧ v ∉ lazy.freed

-- A handle that holds no resource and never will again.
structure AsyncLazy.Retired (lazy : AsyncLazy V T) : Prop where
  closed : lazy.closed = true
  value : lazy.value = none
  lock : lazy.lock = none

structure AsyncLazy.Good (lazy : AsyncLazy V T) : Prop where
  alive : ∀ v, lazy.value = some v → lazy.made = [v] ∧ lazy.freed = []
  dead : lazy.value = none → lazy.made = lazy.freed
  short : lazy.made.length ≤ 1
  freed : lazy.freed ≠ [] → lazy.closed = true

-- What no step of any task undoes.
structure AsyncLazy.Grows (lazy next : AsyncLazy V T) : Prop where
  closed : lazy.closed = true → next.closed = true
  retired : lazy.Retired → next.Retired
  made : ∀ v, lazy.made = [v] → next.made = [v]
  freed : lazy.freed ≠ [] → next.freed ≠ []

-- What the other tasks may do to a handle while task `t` is suspended. Nothing but the
-- sealing of the handle happens to it while `t` holds its lock.
structure AsyncLazy.Keeps (t : T) (lazy next : AsyncLazy V T) : Prop extends lazy.Grows next where
  locked : lazy.lock = some t →
    next.lock = some t ∧ next.value = lazy.value ∧ next.made = lazy.made

-- The loop state of `close_lazy_resources` while it awaits the `aclose` of `h`.
def FrameOk (s : Handles H V T) (l : Local H V) (h : H) : Frame H → Prop
  | .direct => True
  | .group hs rest errors =>
      l.results.map Prod.fst ++ h :: rest = hs.reverse ∧
      errors = l.results.filterMap Prod.snd ∧ ∀ h ∈ hs, (s h).closed = true

def OutcomeOk (s : Handles H V T) (l : Local H V) : Outcome H V → Prop
  | .value h v => (s h).made = [v]
  | .closed h => (s h).Retired
  | .failed _ => True
  | .groupClosed hs =>
      l.results.map Prod.fst = hs.reverse ∧ l.results.filterMap Prod.snd = [] ∧
        ∀ h ∈ hs, (s h).closed = true
  | .groupFailed hs errors =>
      l.results.map Prod.fst = hs.reverse ∧ errors = l.results.filterMap Prod.snd ∧ errors ≠ [] ∧
        ∀ h ∈ hs, (s h).closed = true

def AwaitOk (t : T) (s : Handles H V T) (l : Local H V) : Task H V → Prop
  | .idle => True
  | .getLock _ => True
  | .factory h => (s h).lock = some t ∧ (s h).value = none ∧ (s h).made = []
  | .closeLock h frame => (s h).closed = true ∧ FrameOk s l h frame
  | .closer h v frame =>
      (s h).lock = some t ∧ (s h).value = some v ∧ (s h).closed = true ∧ FrameOk s l h frame
  | .done outcome => OutcomeOk s l outcome

structure TaskOk (t : T) (s : Handles H V T) (l : Local H V) : Prop where
  await : AwaitOk t s l l.task
  results : ∀ h, (h, none) ∈ l.results → (s h).Retired

theorem AsyncLazy.Grows.refl (lazy : AsyncLazy V T) : lazy.Grows lazy :=
  ⟨id, id, fun _ h => h, id⟩

theorem AsyncLazy.Grows.trans {lazy next last : AsyncLazy V T} (h : lazy.Grows next)
    (h' : next.Grows last) : lazy.Grows last :=
  ⟨fun hc => h'.closed (h.closed hc), fun hr => h'.retired (h.retired hr),
    fun v hm => h'.made v (h.made v hm), fun hf => h'.freed (h.freed hf)⟩

theorem AsyncLazy.Keeps.refl (t : T) (lazy : AsyncLazy V T) : lazy.Keeps t lazy :=
  ⟨.refl lazy, fun h => ⟨h, rfl, rfl⟩⟩

theorem AsyncLazy.Keeps.trans {t : T} {lazy next last : AsyncLazy V T} (h : lazy.Keeps t next)
    (h' : next.Keeps t last) : lazy.Keeps t last := by
  refine ⟨h.toGrows.trans h'.toGrows, fun hl => ?_⟩
  obtain ⟨hl', hv, hm⟩ := h.locked hl
  obtain ⟨hl'', hv', hm'⟩ := h'.locked hl'
  exact ⟨hl'', hv'.trans hv, hm'.trans hm⟩

omit [DecidableEq H] in
theorem FrameOk.stable {s s' : Handles H V T} {l next : Local H V} {h : H} {frame : Frame H}
    (hc : ∀ h, (s h).closed = true → (s' h).closed = true) (hr : next.results = l.results)
    (hf : FrameOk s l h frame) : FrameOk s' next h frame := by
  cases frame with
  | direct => trivial
  | group hs rest errors =>
      rw [FrameOk, hr]
      exact ⟨hf.1, hf.2.1, fun h hm => hc h (hf.2.2 h hm)⟩

omit [DecidableEq H] in
theorem OutcomeOk.stable {s s' : Handles H V T} {l : Local H V} {outcome : Outcome H V}
    (hk : ∀ h, (s h).Grows (s' h)) (ho : OutcomeOk s l outcome) : OutcomeOk s' l outcome := by
  cases outcome with
  | value h v => exact (hk h).made v ho
  | closed h => exact (hk h).retired ho
  | failed error => trivial
  | groupClosed hs => exact ⟨ho.1, ho.2.1, fun h hm => (hk h).closed (ho.2.2 h hm)⟩
  | groupFailed hs errors =>
      exact ⟨ho.1, ho.2.1, ho.2.2.1, fun h hm => (hk h).closed (ho.2.2.2 h hm)⟩

omit [DecidableEq H] in
theorem TaskOk.stable {t : T} {s s' : Handles H V T} {l : Local H V}
    (hk : ∀ h, (s h).Keeps t (s' h)) (ht : TaskOk t s l) : TaskOk t s' l := by
  refine ⟨?_, fun h hm => (hk h).retired (ht.results h hm)⟩
  have ha := ht.await
  cases htask : l.task with
  | idle => trivial
  | getLock h => trivial
  | factory h =>
      rw [htask] at ha
      obtain ⟨hl, hv, hm⟩ := ha
      obtain ⟨hl', hv', hm'⟩ := (hk h).locked hl
      exact ⟨hl', hv'.trans hv, hm'.trans hm⟩
  | closeLock h frame =>
      rw [htask] at ha
      exact ⟨(hk h).closed ha.1, ha.2.stable (fun h => (hk h).closed) rfl⟩
  | closer h v frame =>
      rw [htask] at ha
      obtain ⟨hl, hv, hc, hf⟩ := ha
      obtain ⟨hl', hv', _⟩ := (hk h).locked hl
      exact ⟨hl', hv'.trans hv, (hk h).closed hc, hf.stable (fun h => (hk h).closed) rfl⟩
  | done outcome =>
      rw [htask] at ha
      exact OutcomeOk.stable (fun h => (hk h).toGrows) ha

-- Handles that differ at most in having been sealed.
def Sealed (s s' : Handles H V T) : Prop :=
  ∀ h, s' h = s h ∨ s' h = { s h with closed := true }

omit [DecidableEq H] in
theorem Sealed.refl (s : Handles H V T) : Sealed s s := fun _ => .inl rfl

omit [DecidableEq H] in
theorem Sealed.trans {s s' s'' : Handles H V T} (h : Sealed s s') (h' : Sealed s' s'') :
    Sealed s s'' := by
  intro key
  rcases h key with e | e <;> rcases h' key with e' | e' <;> simp [e, e']

omit [DecidableEq H] in
theorem Sealed.good {s s' : Handles H V T} (hs : Sealed s s') (hg : ∀ h, (s h).Good) (h : H) :
    (s' h).Good := by
  rcases hs h with e | e
  · rw [e]; exact hg h
  · rw [e]; exact ⟨(hg h).alive, (hg h).dead, (hg h).short, fun _ => rfl⟩

omit [DecidableEq H] in
theorem Sealed.grows {s s' : Handles H V T} (hs : Sealed s s') (h : H) : (s h).Grows (s' h) := by
  rcases hs h with e | e
  · rw [e]; exact .refl _
  · rw [e]
    exact ⟨fun _ => rfl, fun hr => ⟨rfl, hr.value, hr.lock⟩, fun _ hm => hm, id⟩

omit [DecidableEq H] in
theorem Sealed.keeps {s s' : Handles H V T} (hs : Sealed s s') (t : T) (h : H) :
    (s h).Keeps t (s' h) := by
  refine ⟨hs.grows h, fun hl => ?_⟩
  rcases hs h with e | e <;> rw [e] <;> exact ⟨hl, rfl, rfl⟩

theorem modify_self (s : Handles H V T) (h : H) (f : AsyncLazy V T → AsyncLazy V T) :
    Handles.modify s h f h = f (s h) := by
  simp [Handles.modify]

theorem modify_ne (s : Handles H V T) {h key : H} (f : AsyncLazy V T → AsyncLazy V T)
    (hne : key ≠ h) : Handles.modify s h f key = s key := by
  simp [Handles.modify, hne]

theorem good_modify {s : Handles H V T} {h : H} {f : AsyncLazy V T → AsyncLazy V T}
    (hg : ∀ h, (s h).Good) (hf : (f (s h)).Good) (key : H) : (Handles.modify s h f key).Good := by
  by_cases he : key = h
  · subst he; rw [modify_self]; exact hf
  · rw [modify_ne s f he]; exact hg key

theorem keeps_modify {t : T} {s : Handles H V T} {h : H} {f : AsyncLazy V T → AsyncLazy V T}
    (hf : (s h).Keeps t (f (s h))) (key : H) : (s key).Keeps t (Handles.modify s h f key) := by
  by_cases he : key = h
  · subst he; rw [modify_self]; exact hf
  · rw [modify_ne s f he]; exact .refl t _

theorem sealed_beginClose (s : Handles H V T) (h : H) : Sealed s (beginClose s h) := by
  intro key
  by_cases he : key = h
  · subst he; exact .inr (modify_self _ _ _)
  · exact .inl (modify_ne _ _ he)

theorem beginClose_closed (s : Handles H V T) (h : H) : (beginClose s h h).closed = true := by
  simp [beginClose, modify_self]

theorem sealed_foldl (hs : List H) (s : Handles H V T) : Sealed s (hs.foldl beginClose s) := by
  induction hs generalizing s with
  | nil => exact .refl s
  | cons h hs ih => exact (sealed_beginClose s h).trans (ih _)

-- `close_lazy_resources` seals its whole group before it awaits anything.
theorem foldl_beginClose_closed (hs : List H) (s : Handles H V T) (h : H) (hm : h ∈ hs) :
    (hs.foldl beginClose s h).closed = true := by
  induction hs generalizing s with
  | nil => simp at hm
  | cons first hs ih =>
      rcases List.mem_cons.mp hm with rfl | hm
      · rcases sealed_foldl hs (beginClose s h) h with e | e
        · rw [List.foldl_cons, e]; exact beginClose_closed s h
        · rw [List.foldl_cons, e]
      · exact ih _ hm

theorem sealed_closeNext (s : Handles H V T) (l : Local H V) (hs rest : List H)
    (errors : List Failure) : Sealed s (closeNext s l hs errors rest).1 := by
  cases rest with
  | nil => exact .refl s
  | cons h rest => exact sealed_beginClose s h

theorem sealed_finishAclose (s : Handles H V T) (l : Local H V) (h : H) (error : Option Failure)
    (frame : Frame H) : Sealed s (finishAclose s l h error frame).1 := by
  cases frame with
  | direct => exact .refl s
  | group hs rest errors => exact sealed_closeNext _ _ _ _ _

theorem taskOk_closeNext {t : T} {s : Handles H V T} {l : Local H V} {hs rest : List H}
    {errors : List Failure} (hrest : l.results.map Prod.fst ++ rest = hs.reverse)
    (herrors : errors = l.results.filterMap Prod.snd) (hclosed : ∀ h ∈ hs, (s h).closed = true)
    (hresults : ∀ h, (h, none) ∈ l.results → (s h).Retired) :
    TaskOk t (closeNext s l hs errors rest).1 (closeNext s l hs errors rest).2 := by
  have hk := (sealed_closeNext s l hs rest errors).keeps t
  cases rest with
  | nil =>
      rw [List.append_nil] at hrest
      refine ⟨?_, hresults⟩
      by_cases he : errors = []
      · simp only [closeNext, he, if_true]
        exact ⟨hrest, herrors ▸ he, hclosed⟩
      · simp only [closeNext, he, if_false]
        exact ⟨hrest, herrors, he, hclosed⟩
  | cons h rest =>
      exact ⟨⟨beginClose_closed s h, hrest, herrors, fun key hm => (hk key).closed (hclosed key hm)⟩,
        fun key hm => (hk key).retired (hresults key hm)⟩

-- An `aclose` that ended normally leaves its handle retired; one that raised leaves nothing
-- to show. Both continue the loop that awaited it.
theorem taskOk_finishAclose {t : T} {s : Handles H V T} {l : Local H V} {h : H} {frame : Frame H}
    {error : Option Failure} (hf : FrameOk s l h frame) (hretired : error = none → (s h).Retired)
    (hresults : ∀ h, (h, none) ∈ l.results → (s h).Retired) :
    TaskOk t (finishAclose s l h error frame).1 (finishAclose s l h error frame).2 := by
  cases frame with
  | direct =>
      refine ⟨?_, hresults⟩
      cases error with
      | none => exact hretired rfl
      | some error => trivial
  | group hs rest errors =>
      obtain ⟨hrest, herrors, hclosed⟩ := hf
      apply taskOk_closeNext
      · simpa using hrest
      · cases error <;> simp [herrors]
      · exact hclosed
      · intro key hm
        rcases List.mem_append.mp hm with hm | hm
        · exact hresults key hm
        · simp only [List.mem_singleton, Prod.mk.injEq] at hm
          obtain ⟨rfl, he⟩ := hm
          exact hretired he.symm

omit [DecidableEq H] in
theorem Sealed.freed {s s' : Handles H V T} (hs : Sealed s s') (h : H) : (s' h).freed = (s h).freed := by
  rcases hs h with e | e <;> rw [e]

theorem modify_freed {s : Handles H V T} {h : H} {f : AsyncLazy V T → AsyncLazy V T}
    (hf : (f (s h)).freed = (s h).freed) (key : H) : (Handles.modify s h f key).freed = (s key).freed := by
  by_cases he : key = h
  · subst he; rw [modify_self, hf]
  · rw [modify_ne s f he]

theorem hold_freed (s : Handles H V T) (h key : H) (t : T) : (hold s h t key).freed = (s key).freed :=
  modify_freed (f := fun lazy => { lazy with lock := some t }) rfl key

theorem release_freed (s : Handles H V T) (h key : H) : (release s h key).freed = (s key).freed :=
  modify_freed (f := fun lazy => { lazy with lock := none }) rfl key

-- The moves of a task, each with the await that it leaves and what it requires.
inductive TaskMove (t : T) (s : Handles H V T) (l : Local H V) : Act H V → Handles H V T × Local H V → Prop
  | refused (h : H) (hfree : l.task.free = true) (hclosed : (s h).closed = true) :
    TaskMove t s l (.get h) (s, { l with task := .done (.failed .closed) })
  | get (h : H) (hfree : l.task.free = true) (hopen : ¬ (s h).closed = true) :
    TaskMove t s l (.get h) (s, { l with task := .getLock h })
  | aclose (h : H) (hfree : l.task.free = true) :
    TaskMove t s l (.aclose h) (startAclose s l h .direct)
  | closeLazyResources (hs : List H) (hfree : l.task.free = true) :
    TaskMove t s l (.closeLazyResources hs)
      (closeNext (hs.foldl beginClose s) { l with results := [] } hs [] hs.reverse)
  | getLocked (h : H) (htask : l.task = .getLock h) (hlock : (s h).lock = none) :
    TaskMove t s l .acquire (getLocked t s l h)
  | acloseLocked (h : H) (frame : Frame H) (htask : l.task = .closeLock h frame)
      (hlock : (s h).lock = none) :
    TaskMove t s l .acquire (acloseLocked t s l h frame)
  | cancelGet (h : H) (htask : l.task = .getLock h) :
    TaskMove t s l .cancelWait (s, { l with task := .done (.failed .cancelled) })
  | cancelAclose (h : H) (frame : Frame H) (htask : l.task = .closeLock h frame) :
    TaskMove t s l .cancelWait (finishAclose s l h (some .cancelled) frame)
  | factoryReturns (h : H) (v : V) (htask : l.task = .factory h) :
    TaskMove t s l (.factoryReturns v) (factoryReturned s l h v)
  | factoryRaises (h : H) (error : Failure) (htask : l.task = .factory h) :
    TaskMove t s l (.factoryRaises error) (release s h, { l with task := .done (.failed error) })
  | closerReturns (h : H) (v : V) (frame : Frame H) (htask : l.task = .closer h v frame) :
    TaskMove t s l .closerReturns (closerReturned s l h v frame)
  | closerRaises (h : H) (v : V) (frame : Frame H) (error : Failure) (htask : l.task = .closer h v frame) :
    TaskMove t s l (.closerRaises error) (finishAclose (release s h) l h (some error) frame)

theorem taskMove_of_step {t : T} {s : Handles H V T} {l : Local H V} {act : Act H V}
    {next : Handles H V T × Local H V} (h : taskStep t s l act = some next) : TaskMove t s l act next := by
  cases act with
  | get key =>
      simp only [taskStep] at h
      split_ifs at h with hfree hclosed
      · obtain rfl := Option.some.inj h
        exact .refused key hfree hclosed
      · obtain rfl := Option.some.inj h
        exact .get key hfree hclosed
  | aclose key =>
      obtain ⟨hfree, rfl⟩ := guarded h
      exact .aclose key hfree
  | closeLazyResources hs =>
      obtain ⟨hfree, rfl⟩ := guarded h
      exact .closeLazyResources hs hfree
  | acquire =>
      simp only [taskStep] at h
      split at h
      · rename_i key htask
        obtain ⟨hlock, rfl⟩ := guarded h
        exact .getLocked key htask (Option.isNone_iff_eq_none.mp hlock)
      · rename_i key frame htask
        obtain ⟨hlock, rfl⟩ := guarded h
        exact .acloseLocked key frame htask (Option.isNone_iff_eq_none.mp hlock)
      · cases h
  | cancelWait =>
      simp only [taskStep] at h
      split at h
      · rename_i key htask
        obtain rfl := Option.some.inj h
        exact .cancelGet key htask
      · rename_i key frame htask
        obtain rfl := Option.some.inj h
        exact .cancelAclose key frame htask
      · cases h
  | factoryReturns v =>
      simp only [taskStep] at h
      split at h
      · rename_i key htask
        obtain rfl := Option.some.inj h
        exact .factoryReturns key v htask
      · cases h
  | factoryRaises error =>
      simp only [taskStep] at h
      split at h
      · rename_i key htask
        obtain rfl := Option.some.inj h
        exact .factoryRaises key error htask
      · cases h
  | closerReturns =>
      simp only [taskStep] at h
      split at h
      · rename_i key v frame htask
        obtain rfl := Option.some.inj h
        exact .closerReturns key v frame htask
      · cases h
  | closerRaises error =>
      simp only [taskStep] at h
      split at h
      · rename_i key v frame htask
        obtain rfl := Option.some.inj h
        exact .closerRaises key v frame error htask
      · cases h

-- Only the return of a closer adds to what a handle has freed.
theorem taskStep_freed {t : T} {s : Handles H V T} {l : Local H V} {act : Act H V}
    {next : Handles H V T × Local H V} (h : taskStep t s l act = some next) (key : H) (v : V)
    (hv : v ∈ (next.1 key).freed) : v ∈ (s key).freed ∨ ∃ frame, l.task = .closer key v frame := by
  have hsealed : ∀ {s' : Handles H V T}, Sealed s' next.1 → (s' key).freed = (s key).freed →
      v ∈ (s key).freed := fun hs he => he ▸ hs.freed key ▸ hv
  cases taskMove_of_step h with
  | refused other hfree hclosed => exact .inl hv
  | get other hfree hopen => exact .inl hv
  | aclose other hfree => exact .inl (hsealed (sealed_beginClose s other) rfl)
  | closeLazyResources hs hfree =>
      exact .inl (hsealed ((sealed_foldl hs s).trans (sealed_closeNext _ _ _ _ _)) rfl)
  | getLocked other htask hlock =>
      unfold getLocked at hv
      split_ifs at hv
      · exact .inl hv
      · split at hv
        · exact .inl (hold_freed s _ key t ▸ hv)
        · exact .inl hv
  | acloseLocked other frame htask hlock =>
      unfold acloseLocked at hv
      split at hv
      · exact .inl ((sealed_finishAclose s l _ none _).freed key ▸ hv)
      · exact .inl (hold_freed s _ key t ▸ hv)
  | cancelGet other htask => exact .inl hv
  | cancelAclose other frame htask => exact .inl (hsealed (sealed_finishAclose s l _ _ _) rfl)
  | factoryReturns other v' htask =>
      have he := modify_freed (s := s) (h := other) (f := fun lazy =>
        { lazy with value := some v', lock := none, made := lazy.made ++ [v'] }) rfl key
      exact .inl (he ▸ hv)
  | factoryRaises other error htask => exact .inl (release_freed s _ key ▸ hv)
  | closerReturns other v' frame htask =>
      rw [closerReturned, (sealed_finishAclose _ l other none frame).freed key] at hv
      by_cases he : key = other
      · subst he
        rw [modify_self] at hv
        rcases List.mem_append.mp hv with hv | hv
        · exact .inl hv
        · rw [List.mem_singleton.mp hv]
          exact .inr ⟨frame, htask⟩
      · rw [modify_ne _ _ he] at hv
        exact .inl hv
  | closerRaises other v' frame error htask =>
      exact .inl (hsealed (sealed_finishAclose _ l _ _ _) (release_freed s _ key))

-- What one step of task `t` guarantees.
structure Guarantee (t : T) (s : Handles H V T) (next : Handles H V T × Local H V) : Prop where
  good : ∀ h, (next.1 h).Good
  ok : TaskOk t next.1 next.2
  grows : ∀ h, (s h).Grows (next.1 h)
  keeps : ∀ other, other ≠ t → ∀ h, (s h).Keeps other (next.1 h)

omit [DecidableEq H] in
theorem Sealed.guarantee {t : T} {s : Handles H V T} {next : Handles H V T × Local H V}
    (hs : Sealed s next.1) (hg : ∀ h, (s h).Good) (hok : TaskOk t next.1 next.2) :
    Guarantee t s next :=
  ⟨hs.good hg, hok, hs.grows, fun other _ h => hs.keeps other h⟩

theorem keeps_hold {t other : T} {lazy : AsyncLazy V T} (hfree : lazy.lock = none)
    (hlive : ¬ lazy.Retired) : lazy.Keeps other { lazy with lock := some t } :=
  ⟨⟨id, fun hr => absurd hr hlive, fun _ hm => hm, id⟩, fun hl => by simp [hfree] at hl⟩

-- Taking the free lock of a handle that is not retired.
theorem hold_guarantee {t : T} {s : Handles H V T} {h : H} {next : Local H V}
    (hg : ∀ h, (s h).Good) (hfree : (s h).lock = none) (hlive : ¬ (s h).Retired)
    (hawait : AwaitOk t (hold s h t) next next.task)
    (hresults : ∀ h, (h, none) ∈ next.results → (s h).Retired) :
    Guarantee t s (hold s h t, next) := by
  have hk : ∀ other key, (s key).Keeps other (hold s h t key) := fun _ =>
    keeps_modify (keeps_hold hfree hlive)
  have hgood : ∀ key, (hold s h t key).Good :=
    good_modify (h := h) (f := fun lazy => { lazy with lock := some t }) hg
      ⟨(hg h).alive, (hg h).dead, (hg h).short, (hg h).freed⟩
  exact ⟨hgood, ⟨hawait, fun key hm => (hk t key).retired (hresults key hm)⟩,
    fun key => (hk t key).toGrows, fun other _ => hk other⟩

theorem getLocked_guarantee {t : T} {s : Handles H V T} {l : Local H V} {h : H}
    (hg : ∀ h, (s h).Good) (ht : TaskOk t s l) (hfree : (s h).lock = none) :
    Guarantee t s (getLocked t s l h) := by
  unfold getLocked
  split_ifs with hc
  · exact (Sealed.refl s).guarantee hg ⟨trivial, ht.results⟩
  · have hlive : ¬ (s h).Retired := fun hr => hc hr.closed
    split
    · rename_i hv
      have hmade : (s h).made = [] := by
        rw [(hg h).dead hv]
        by_contra hn
        exact hc ((hg h).freed hn)
      exact hold_guarantee hg hfree hlive ⟨by simp [hold, modify_self], by simp [hold, modify_self, hv],
        by simp [hold, modify_self, hmade]⟩ ht.results
    · rename_i v hv
      exact (Sealed.refl s).guarantee hg ⟨((hg h).alive v hv).1, ht.results⟩

theorem acloseLocked_guarantee {t : T} {s : Handles H V T} {l : Local H V} {h : H}
    {frame : Frame H} (hg : ∀ h, (s h).Good) (ht : TaskOk t s l)
    (htask : l.task = .closeLock h frame) (hfree : (s h).lock = none) :
    Guarantee t s (acloseLocked t s l h frame) := by
  have ha := ht.await
  rw [htask] at ha
  obtain ⟨hc, hframe⟩ := ha
  unfold acloseLocked
  split
  · rename_i hv
    exact (sealed_finishAclose s l h none frame).guarantee hg
      (taskOk_finishAclose hframe (fun _ => ⟨hc, hv, hfree⟩) ht.results)
  · rename_i v hv
    have hlive : ¬ (s h).Retired := fun hr => by rw [hr.value] at hv; cases hv
    have hk : ∀ key, (s key).Keeps t (hold s h t key) := keeps_modify (keeps_hold hfree hlive)
    exact hold_guarantee hg hfree hlive ⟨by simp [hold, modify_self], by simp [hold, modify_self, hv],
      (hk h).closed hc, hframe.stable (fun key => (hk key).closed) rfl⟩ ht.results

-- The holder of a lock replaces its handle and gives the lock back. What follows in the same
-- step only seals handles.
theorem unlock_guarantee {t : T} {s : Handles H V T} {h : H}
    {f : AsyncLazy V T → AsyncLazy V T} {next : Handles H V T × Local H V}
    (hs : Sealed (Handles.modify s h f) next.1) (hg : ∀ h, (s h).Good) (hf : (f (s h)).Good)
    (hl : (s h).lock = some t) (hgrows : (s h).Grows (f (s h))) (hok : TaskOk t next.1 next.2) :
    Guarantee t s next := by
  have hgrow : ∀ key, (s key).Grows (Handles.modify s h f key) := by
    intro key
    by_cases he : key = h
    · subst he; rw [modify_self]; exact hgrows
    · rw [modify_ne s f he]; exact .refl _
  refine ⟨hs.good (good_modify hg hf), hok, fun key => (hgrow key).trans (hs.grows key),
    fun other hne key => ?_⟩
  have hk : (s h).Keeps other (f (s h)) :=
    ⟨hgrows, fun ho => absurd (Option.some.inj (ho.symm.trans hl)) hne⟩
  exact (keeps_modify hk key).trans (hs.keeps other key)

-- The grown handle of a holder: the handle was not retired, since its lock was held.
theorem grows_of_locked {t : T} {lazy next : AsyncLazy V T} (hl : lazy.lock = some t)
    (hc : next.closed = lazy.closed) (hm : ∀ v, lazy.made = [v] → next.made = [v])
    (hf : lazy.freed ≠ [] → next.freed ≠ []) : lazy.Grows next :=
  ⟨fun h => hc.trans h, fun hr => absurd (hr.lock.symm.trans hl) (by simp), hm, hf⟩

-- A retired handle is not the one whose lock is held.
theorem retired_modify {t : T} {s : Handles H V T} {h : H} {f : AsyncLazy V T → AsyncLazy V T}
    (hl : (s h).lock = some t) {key : H} (hr : (s key).Retired) :
    (Handles.modify s h f key).Retired := by
  have hne : key ≠ h := by
    rintro rfl
    exact absurd (hr.lock.symm.trans hl) (by simp)
  rwa [modify_ne s f hne]

theorem closed_modify {s : Handles H V T} {h : H} {f : AsyncLazy V T → AsyncLazy V T}
    (hf : (f (s h)).closed = (s h).closed) (key : H) (hc : (s key).closed = true) :
    (Handles.modify s h f key).closed = true := by
  by_cases he : key = h
  · subst he; rw [modify_self, hf]; exact hc
  · rwa [modify_ne s f he]

theorem factoryReturned_guarantee {t : T} {s : Handles H V T} {l : Local H V} {h : H} (v : V)
    (hg : ∀ h, (s h).Good) (ht : TaskOk t s l) (htask : l.task = .factory h) :
    Guarantee t s (factoryReturned s l h v) := by
  have ha := ht.await
  rw [htask] at ha
  obtain ⟨hl, hv, hm⟩ := ha
  have hfreed : (s h).freed = [] := ((hg h).dead hv).symm.trans hm
  let f : AsyncLazy V T → AsyncLazy V T := fun lazy =>
    { lazy with value := some v, lock := none, made := lazy.made ++ [v] }
  refine unlock_guarantee (f := f) (.refl _) hg ?_ hl
    (grows_of_locked hl rfl (by simp [hm]) (by simp [hfreed]))
    ⟨?_, fun key hr => retired_modify (f := f) hl (ht.results key hr)⟩
  · exact ⟨by simp [f, hm, hfreed], by simp [f], by simp [f, hm], by simp [f, hfreed]⟩
  · unfold factoryReturned
    by_cases hc : (s h).closed = true
    · simp [hc, AwaitOk, OutcomeOk]
    · simp [hc, AwaitOk, OutcomeOk, modify_self, hm]

-- The closer returned: the handle is empty again and stays sealed.
theorem closerReturned_guarantee {t : T} {s : Handles H V T} {l : Local H V} {h : H} {v : V}
    {frame : Frame H} (hg : ∀ h, (s h).Good) (ht : TaskOk t s l)
    (htask : l.task = .closer h v frame) : Guarantee t s (closerReturned s l h v frame) := by
  have ha := ht.await
  rw [htask] at ha
  obtain ⟨hl, hv, hc, hframe⟩ := ha
  obtain ⟨hm, hfreed⟩ := (hg h).alive v hv
  let f : AsyncLazy V T → AsyncLazy V T := fun lazy =>
    { lazy with value := none, lock := none, freed := lazy.freed ++ [v] }
  have hgood : (f (s h)).Good := ⟨by simp [f], by simp [f, hm, hfreed], (hg h).short, fun _ => hc⟩
  refine unlock_guarantee (f := f) (sealed_finishAclose _ l h none frame) hg hgood hl
    (grows_of_locked hl rfl (fun _ hm => hm) (by simp [hfreed]))
    (taskOk_finishAclose (hframe.stable (closed_modify (f := f) rfl) rfl) (fun _ => ?_)
      fun key hr => retired_modify hl (ht.results key hr))
  rw [modify_self]
  exact ⟨hc, rfl, rfl⟩

-- The closer raised: the resource stays in the handle for the next `aclose`.
theorem closerRaised_guarantee {t : T} {s : Handles H V T} {l : Local H V} {h : H} {v : V}
    {frame : Frame H} (error : Failure) (hg : ∀ h, (s h).Good) (ht : TaskOk t s l)
    (htask : l.task = .closer h v frame) :
    Guarantee t s (finishAclose (release s h) l h (some error) frame) := by
  have ha := ht.await
  rw [htask] at ha
  obtain ⟨hl, hv, hc, hframe⟩ := ha
  let f : AsyncLazy V T → AsyncLazy V T := fun lazy => { lazy with lock := none }
  have hgood : (f (s h)).Good := ⟨(hg h).alive, (hg h).dead, (hg h).short, (hg h).freed⟩
  exact unlock_guarantee (f := f) (sealed_finishAclose _ l h (some error) frame) hg hgood hl
    (grows_of_locked hl rfl (fun _ hm => hm) id)
    (taskOk_finishAclose (hframe.stable (closed_modify (f := f) rfl) rfl) (by simp)
      fun key hr => retired_modify hl (ht.results key hr))

theorem factoryRaised_guarantee {t : T} {s : Handles H V T} {l : Local H V} {h : H}
    (error : Failure) (hg : ∀ h, (s h).Good) (ht : TaskOk t s l) (htask : l.task = .factory h) :
    Guarantee t s (release s h, { l with task := .done (.failed error) }) := by
  have ha := ht.await
  rw [htask] at ha
  let f : AsyncLazy V T → AsyncLazy V T := fun lazy => { lazy with lock := none }
  have hgood : (f (s h)).Good := ⟨(hg h).alive, (hg h).dead, (hg h).short, (hg h).freed⟩
  exact unlock_guarantee (f := f) (.refl _) hg hgood ha.1
    (grows_of_locked ha.1 rfl (fun _ hm => hm) id)
    ⟨trivial, fun key hr => retired_modify (f := f) ha.1 (ht.results key hr)⟩

theorem taskStep_guarantee {t : T} {s : Handles H V T} {l : Local H V} {act : Act H V}
    {next : Handles H V T × Local H V} (hg : ∀ h, (s h).Good) (ht : TaskOk t s l)
    (h : taskStep t s l act = some next) : Guarantee t s next := by
  cases taskMove_of_step h with
  | refused key hfree hclosed => exact (Sealed.refl s).guarantee hg ⟨trivial, ht.results⟩
  | get key hfree hopen => exact (Sealed.refl s).guarantee hg ⟨trivial, ht.results⟩
  | aclose key hfree =>
      have hs := sealed_beginClose s key
      exact hs.guarantee hg ⟨⟨beginClose_closed s key, trivial⟩,
        fun other hr => (hs.keeps t other).retired (ht.results other hr)⟩
  | closeLazyResources hs hfree =>
      exact ((sealed_foldl hs s).trans (sealed_closeNext _ _ _ _ _)).guarantee hg
        (taskOk_closeNext (by simp) (by simp) (fun key hm => foldl_beginClose_closed hs s key hm)
          (by simp))
  | getLocked key htask hlock => exact getLocked_guarantee hg ht hlock
  | acloseLocked key frame htask hlock => exact acloseLocked_guarantee hg ht htask hlock
  | cancelGet key htask => exact (Sealed.refl s).guarantee hg ⟨trivial, ht.results⟩
  | cancelAclose key frame htask =>
      have ha := ht.await
      rw [htask] at ha
      exact (sealed_finishAclose s l key _ frame).guarantee hg
        (taskOk_finishAclose ha.2 (by simp) ht.results)
  | factoryReturns key v htask => exact factoryReturned_guarantee v hg ht htask
  | factoryRaises key error htask => exact factoryRaised_guarantee error hg ht htask
  | closerReturns key v frame htask => exact closerReturned_guarantee hg ht htask
  | closerRaises key v frame error htask => exact closerRaised_guarantee error hg ht htask

variable [DecidableEq T]

-- Every step of every task keeps every handle good and leaves to the other tasks what they
-- rely on, so both hold in every schedule.
def discipline : Pool.Discipline (taskStep (H := H) (V := V) (T := T)) envStep where
  good s := ∀ h, (s h).Good
  ok := TaskOk
  rely t s s' := ∀ h, (s h).Keeps t (s' h)
  stable _ _ _ _ := TaskOk.stable
  task_good _ _ _ _ _ _ hg ht h := (taskStep_guarantee hg ht h).good
  task_ok _ _ _ _ _ _ hg ht h := (taskStep_guarantee hg ht h).ok
  task_rely _ _ _ _ _ _ hg ht h other hne := (taskStep_guarantee hg ht h).keeps other hne
  env_good s h s' hg he := by
    obtain rfl := Option.some.inj he
    exact (sealed_beginClose s h).good hg
  env_rely s h s' hg he other := by
    obtain rfl := Option.some.inj he
    exact (sealed_beginClose s h).keeps other

abbrev Inv (p : LazyPool H V T) : Prop := discipline.Inv p

omit [DecidableEq T] in
theorem inv_init : Inv (.init H V T) := by
  refine ⟨fun h => ⟨?_, ?_, ?_, ?_⟩, fun t => ⟨trivial, ?_⟩⟩ <;> simp [LazyPool.init]

theorem inv_of_reaches {p : LazyPool H V T} (hp : Reaches step (.init H V T) p) : Inv p :=
  discipline.inv_reaches hp inv_init

omit [DecidableEq T] in
theorem finishAclose_ne_value (s : Handles H V T) (l : Local H V) (h key : H) (v : V)
    (error : Option Failure) (frame : Frame H) :
    (finishAclose s l h error frame).2.task ≠ .done (.value key v) := by
  cases frame with
  | direct => cases error <;> simp [finishAclose]
  | group hs rest errors =>
      cases rest with
      | nil => simp only [finishAclose, closeNext]; split_ifs <;> simp
      | cons next rest => simp [finishAclose, closeNext, startAclose]

omit [DecidableEq T] in
-- A `get` returns a value only while its handle is open.
theorem open_of_value {t : T} {s : Handles H V T} {l : Local H V} {act : Act H V}
    {next : Handles H V T × Local H V} {h : H} {v : V} (hstep : taskStep t s l act = some next)
    (hv : next.2.task = .done (.value h v)) : (s h).closed = false := by
  cases taskMove_of_step hstep with
  | refused key hfree hclosed => simp at hv
  | get key hfree hopen => simp at hv
  | aclose key hfree => simp [startAclose] at hv
  | closeLazyResources hs hfree => cases hr : hs.reverse <;> simp [hr, closeNext, startAclose] at hv
  | getLocked key htask hlock =>
      unfold getLocked at hv
      split_ifs at hv with hc
      · simp at hv
      · split at hv <;> simp at hv
        obtain ⟨rfl, rfl⟩ := hv
        simpa using hc
  | acloseLocked key frame htask hlock =>
      unfold acloseLocked at hv
      split at hv
      · exact absurd hv (finishAclose_ne_value _ _ _ _ _ _ _)
      · simp at hv
  | cancelGet key htask => simp at hv
  | cancelAclose key frame htask => exact absurd hv (finishAclose_ne_value _ _ _ _ _ _ _)
  | factoryReturns key w htask =>
      simp only [factoryReturned, Task.done.injEq] at hv
      split_ifs at hv with hc
      obtain ⟨rfl, rfl⟩ := Outcome.value.inj hv
      simpa using hc
  | factoryRaises key error htask => simp at hv
  | closerReturns key w frame htask => exact absurd hv (finishAclose_ne_value _ _ _ _ _ _ _)
  | closerRaises key w frame error htask => exact absurd hv (finishAclose_ne_value _ _ _ _ _ _ _)

-- What every later state keeps. A sealed handle gives out no further value.
structure Later (p q : LazyPool H V T) : Prop where
  grows : ∀ h, (p.shared h).Grows (q.shared h)
  got : ∀ h, (p.shared h).closed = true → ∀ t v,
    (q.loc t).task = .done (.value h v) → (p.loc t).task = .done (.value h v)

omit [DecidableEq H] [DecidableEq T] in
theorem Later.refl (p : LazyPool H V T) : Later p p :=
  ⟨fun _ => .refl _, fun _ _ _ _ hv => hv⟩

omit [DecidableEq H] [DecidableEq T] in
theorem Later.trans (p q r : LazyPool H V T) (hpq : Later p q) (hqr : Later q r) : Later p r :=
  ⟨fun h => (hpq.grows h).trans (hqr.grows h), fun h hc t v hv =>
    hpq.got h hc t v (hqr.got h ((hpq.grows h).closed hc) t v hv)⟩

theorem later_step (p : LazyPool H V T) (act : (T × Act H V) ⊕ H) (q : LazyPool H V T)
    (hp : Inv p) (h : step p act = some q) : Later p q := by
  cases act with
  | inl act =>
      obtain ⟨t, act⟩ := act
      obtain ⟨s, l, hl, rfl⟩ := Pool.step_task h
      refine ⟨(taskStep_guarantee hp.1 (hp.2 t) hl).grows, fun key hc other v hv => ?_⟩
      by_cases ho : other = t
      · subst ho
        rw [Pool.move_loc_self] at hv
        rw [open_of_value hl hv] at hc
        cases hc
      · rwa [Pool.move_loc_ne _ _ _ ho] at hv
  | inr key =>
      obtain ⟨s, hs, rfl⟩ := Pool.step_env h
      obtain rfl := Option.some.inj hs
      exact ⟨(sealed_beginClose p.shared key).grows, fun _ _ _ _ hv => hv⟩

theorem later_of_reaches {p q : LazyPool H V T} (hp : Inv p) (h : Reaches step p q) : Later p q :=
  h.relation discipline.inv_step hp Later.refl Later.trans later_step

-- The task is inside `close_lazy_resources hs` or has ended it.
def Task.InGroup (hs : List H) : Task H V → Prop
  | .closeLock _ (.group all _ _) => all = hs
  | .closer _ _ (.group all _ _) => all = hs
  | .done (.groupClosed all) => all = hs
  | .done (.groupFailed all _) => all = hs
  | _ => False

omit [DecidableEq T] in
theorem inGroup_closed {p : LazyPool H V T} (hp : Inv p) {t : T} {hs : List H}
    (h : (p.loc t).task.InGroup hs) : ∀ key ∈ hs, (p.shared key).closed = true := by
  have ha := (hp.2 t).await
  cases htask : (p.loc t).task with
  | closeLock key frame =>
      cases frame <;> simp only [htask, Task.InGroup] at h
      subst h
      rw [htask] at ha
      exact ha.2.2.2
  | closer key v frame =>
      cases frame <;> simp only [htask, Task.InGroup] at h
      subst h
      rw [htask] at ha
      exact ha.2.2.2.2.2
  | done outcome =>
      cases outcome <;> simp only [htask, Task.InGroup] at h
      · subst h
        rw [htask] at ha
        exact ha.2.2
      · subst h
        rw [htask] at ha
        exact ha.2.2.2
  | _ => simp [htask, Task.InGroup] at h

omit [DecidableEq H] [DecidableEq T] in
theorem not_alive_of_retired {lazy : AsyncLazy V T} (hg : lazy.Good) (hr : lazy.Retired) (v : V) :
    ¬ lazy.Alive v := by
  rintro ⟨hm, hf⟩
  rw [hg.dead hr.value] at hm
  exact hf hm

omit [DecidableEq H] [DecidableEq T] in
-- The resource of a handle stays in it until its closer has succeeded.
theorem value_of_alive {lazy : AsyncLazy V T} (hg : lazy.Good) {v : V} (ha : lazy.Alive v) :
    lazy.value = some v := by
  cases hv : lazy.value with
  | none => exact absurd (hg.dead hv ▸ ha.1) ha.2
  | some w =>
      have hm := ha.1
      rw [(hg.alive w hv).1] at hm
      rw [List.mem_singleton.mp hm]

omit [DecidableEq T] in
-- The closer is not running and never runs again once it has succeeded.
theorem not_closer_of_freed {p : LazyPool H V T} (hp : Inv p) {h : H}
    (hf : (p.shared h).freed ≠ []) (t : T) (v : V) (frame : Frame H) :
    (p.loc t).task ≠ .closer h v frame := by
  intro htask
  have ha := (hp.2 t).await
  rw [htask] at ha
  exact hf ((hp.1 h).alive v ha.2.1).2

omit [DecidableEq T] in
theorem closer_unique {p : LazyPool H V T} (hp : Inv p) {t t' : T} {h : H} {v v' : V}
    {frame frame' : Frame H} (ht : (p.loc t).task = .closer h v frame)
    (ht' : (p.loc t').task = .closer h v' frame') : t = t' := by
  have ha := (hp.2 t).await
  have ha' := (hp.2 t').await
  rw [ht] at ha
  rw [ht'] at ha'
  exact Option.some.inj (ha.1.symm.trans ha'.1)

-- An `aclose` that takes the lock calls the closer on the resource that is alive.
theorem acquire_closer {p q : LazyPool H V T} (hp : Inv p) {t : T} {h : H} {v : V}
    {frame : Frame H} (ha : (p.shared h).Alive v) (ht : (p.loc t).task = .closeLock h frame)
    (hstep : step p (.inl (t, .acquire)) = some q) : (q.loc t).task = .closer h v frame := by
  obtain ⟨s, l, hl, rfl⟩ := Pool.step_task hstep
  simp only [taskStep, ht] at hl
  split_ifs at hl
  simp only [acloseLocked, value_of_alive (hp.1 h) ha, Option.some.injEq, Prod.mk.injEq] at hl
  rw [Pool.move_loc_self, ← hl.2]

-- A closer that raises, or is cancelled, leaves its resource alive.
theorem closerRaises_alive {p q : LazyPool H V T} (hp : Inv p) {t : T} {h : H} {v : V}
    {frame : Frame H} {error : Failure} (ht : (p.loc t).task = .closer h v frame)
    (hstep : step p (.inl (t, .closerRaises error)) = some q) : (q.shared h).Alive v := by
  have ha := (hp.2 t).await
  rw [ht] at ha
  obtain ⟨hm, hf⟩ := (hp.1 h).alive v ha.2.1
  obtain ⟨s, l, hl, rfl⟩ := Pool.step_task hstep
  simp only [taskStep, ht, Option.some.injEq] at hl
  have hs := sealed_finishAclose (release p.shared h) (p.loc t) h (some error) frame h
  have hr : release p.shared h h = { p.shared h with lock := none } := modify_self _ _ _
  rw [hl, hr] at hs
  simp only at hs
  rcases hs with e | e <;> simp [AsyncLazy.Alive, e, hm, hf]

-- The lifecycle of a group of handles in every schedule. The first part is about the state
-- `p` itself, the last part about every later state `q`.
theorem lazy_lifecycle {p : LazyPool H V T} (hp : Reaches step (.init H V T) p) :
    -- one successful factory call at most, whose value every successful `get` gives
    (∀ h, (p.shared h).made.length ≤ 1) ∧
    (∀ t h v, (p.loc t).task = .done (.value h v) → (p.shared h).made = [v]) ∧
    -- closer calls do not overlap
    (∀ t t' h v v' frame frame', (p.loc t).task = .closer h v frame →
      (p.loc t').task = .closer h v' frame' → t = t') ∧
    -- a failed closer keeps the resource, and the next `aclose` calls the closer on it again
    (∀ t h v frame error q, (p.loc t).task = .closer h v frame →
      step p (.inl (t, .closerRaises error)) = some q → (q.shared h).Alive v) ∧
    (∀ t h v frame q, (p.shared h).Alive v → (p.loc t).task = .closeLock h frame →
      step p (.inl (t, .acquire)) = some q → (q.loc t).task = .closer h v frame) ∧
    -- `close_lazy_resources` attempts all of its group in reverse order and raises the errors
    (∀ t hs, (p.loc t).task = .done (.groupClosed hs) →
      (p.loc t).results.map Prod.fst = hs.reverse ∧ (p.loc t).results.filterMap Prod.snd = []) ∧
    (∀ t hs errors, (p.loc t).task = .done (.groupFailed hs errors) →
      (p.loc t).results.map Prod.fst = hs.reverse ∧
        errors = (p.loc t).results.filterMap Prod.snd ∧ errors ≠ []) ∧
    ∀ q, Reaches step p q →
      -- no value after the sealing, alone or by a group call
      (∀ h, (p.shared h).closed = true ∨ (∃ t hs, (p.loc t).task.InGroup hs ∧ h ∈ hs) →
        ∀ t v, (q.loc t).task = .done (.value h v) → (p.loc t).task = .done (.value h v)) ∧
      -- no closer call after one has succeeded
      (∀ h, (p.shared h).freed ≠ [] → ∀ t v frame, (q.loc t).task ≠ .closer h v frame) ∧
      -- no resource is alive after an `aclose` has returned, alone or in a group call
      (∀ t h, (p.loc t).task = .done (.closed h) ∨ (h, none) ∈ (p.loc t).results →
        ∀ v, ¬ (q.shared h).Alive v) := by
  have hi := inv_of_reaches hp
  have hawait := fun t => (hi.2 t).await
  refine ⟨fun h => (hi.1 h).short, fun t h v ht => ?_, fun _ _ _ _ _ _ _ => closer_unique hi,
    fun _ _ _ _ _ _ => closerRaises_alive hi, fun _ _ _ _ _ => acquire_closer hi,
    fun t hs ht => ?_, fun t hs errors ht => ?_, fun q hq => ?_⟩
  · simpa [ht, AwaitOk, OutcomeOk] using hawait t
  · have ha := hawait t
    rw [ht] at ha
    exact ⟨ha.1, ha.2.1⟩
  · have ha := hawait t
    rw [ht] at ha
    exact ⟨ha.1, ha.2.1, ha.2.2.1⟩
  · have hlater := later_of_reaches hi hq
    have hiq := discipline.inv_reaches hq hi
    refine ⟨fun h hc => ?_, fun h hf => ?_, fun t h hr v => ?_⟩
    · rcases hc with hc | ⟨t, hs, hg, hm⟩
      · exact hlater.got h hc
      · exact hlater.got h (inGroup_closed hi hg h hm)
    · exact not_closer_of_freed hiq ((hlater.grows h).freed hf)
    · have hret : (p.shared h).Retired := by
        rcases hr with ht | hm
        · simpa [ht, AwaitOk, OutcomeOk] using hawait t
        · exact (hi.2 t).results h hm
      exact not_alive_of_retired (hiq.1 h) ((hlater.grows h).retired hret) v

-- A `get` waits for the factory while a group call seals the handle: the factory's resource
-- is not given out, its first close fails and the second group call closes it.
theorem lazy_lifecycle_sealed_get : ∃ p : LazyPool Bool Nat Nat,
    Reaches step (.init Bool Nat Nat) p ∧ (p.loc 0).task = .done (.failed .closed) ∧
      (p.shared true).made = [7] ∧ ∀ q, Reaches step p q → ¬ (q.shared true).Alive 7 := by
  let acts : List ((Nat × Act Bool Nat) ⊕ Bool) :=
    [.inl (0, .get true), .inl (0, .acquire), .inl (1, .closeLazyResources [false, true]),
      .inl (0, .factoryReturns 7), .inl (1, .acquire), .inl (1, .closerRaises (.raised 1)),
      .inl (1, .acquire), .inl (2, .aclose true), .inl (2, .acquire), .inl (2, .closerReturns)]
  refine ⟨_, ⟨acts, rfl⟩, rfl, rfl, fun q hq => ?_⟩
  exact ((lazy_lifecycle ⟨acts, rfl⟩).2.2.2.2.2.2.2 q hq).2.2 2 true (.inl rfl) 7

end Scaffold.Resources
