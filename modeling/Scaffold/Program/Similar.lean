import Mathlib.Data.Option.Basic
import Scaffold.Program

namespace Scaffold.Program

-- Programs that cannot be told apart by their requests: they go on alike after every answer and end
-- with related exceptions, whatever they write to the log.

variable {Q : Type} {R : Q → Type} {L X : Type}

inductive MoveLike {S T : Type} (E : X → X → Prop) (B : S → T → Prop) :
    Move Q R L X S → Move Q R L X T → Prop
  | done : MoveLike E B .done .done
  | raise {error error' : X} (h : E error error') : MoveLike E B (.raise error) (.raise error')
  | log {record record' : L} {next : S} {next' : T} (h : B next next') :
      MoveLike E B (.log record next) (.log record' next')
  | await {request : Q} {next : Except X (R request) → S} {next' : Except X (R request) → T}
      (h : ∀ answer, B (next answer) (next' answer)) :
      MoveLike E B (.await request next) (.await request next')

-- A relation that the moves keep.
def Closed (E : X → X → Prop) (p p' : Program Q R L X) (B : p.State → p'.State → Prop) : Prop :=
  ∀ s s', B s s' → MoveLike E B (p.move s) (p'.move s')

def Similar (E : X → X → Prop) (p p' : Program Q R L X) : Prop :=
  ∃ B, Closed E p p' B ∧ B p.start p'.start

def Event.exchange : Event Q R L X → Option (Σ request, Except X (R request))
  | .asked request answer => some ⟨request, answer⟩
  | .logged _ => none

-- The requests with their answers.
def exchanges (events : List (Event Q R L X)) : List (Σ request, Except X (R request)) :=
  events.filterMap Event.exchange

theorem exchanges_asked {request : Q} {answer : Except X (R request)} {events : List (Event Q R L X)} :
    exchanges (.asked request answer :: events) = ⟨request, answer⟩ :: exchanges events := rfl

inductive OutcomeLike (E : X → X → Prop) : Outcome Q X → Outcome Q X → Prop
  | returned : OutcomeLike E .returned .returned
  | raised {error error' : X} (h : E error error') : OutcomeLike E (.raised error) (.raised error')
  | waiting (request : Q) : OutcomeLike E (.waiting request) (.waiting request)

variable {E : X → X → Prop} {p p' : Program Q R L X} {events : List (Event Q R L X)} {outcome : Outcome Q X}

theorem MoveLike.mono {S T S' T' : Type} {B : S → T → Prop} {B' : S' → T' → Prop} {f : S → S'} {g : T → T'}
    (hB : ∀ s t, B s t → B' (f s) (g t)) {m : Move Q R L X S} {m' : Move Q R L X T} (h : MoveLike E B m m') :
    MoveLike E B' (mapMove f m) (mapMove g m') := by
  cases h with
  | done => exact .done
  | raise h => exact .raise h
  | log h => exact .log (hB _ _ h)
  | await h => exact .await fun answer => hB _ _ (h answer)

theorem similar_refl (hE : ∀ error, E error error) (p : Program Q R L X) : Similar E p p := by
  refine ⟨Eq, ?_, rfl⟩
  rintro s - rfl
  cases p.move s with
  | done => exact .done
  | raise error => exact .raise (hE error)
  | log record next => exact .log rfl
  | await request next => exact .await fun _ => rfl

theorem similar_raise {error error' : X} (h : E error error') :
    Similar E (raise error : Program Q R L X) (raise error') :=
  ⟨fun _ _ => True, fun _ _ _ => .raise h, trivial⟩

theorem similar_log {record record' : L} (h : Similar E p p') : Similar E (log record p) (log record' p') := by
  obtain ⟨B, hclosed, hstart⟩ := h
  refine ⟨fun s s' => s = none ∧ s' = none ∨ ∃ t t', s = some t ∧ s' = some t' ∧ B t t', ?_, .inl ⟨rfl, rfl⟩⟩
  rintro s s' (⟨rfl, rfl⟩ | ⟨t, t', rfl, rfl, h⟩)
  · exact .log (.inr ⟨_, _, rfl, rfl, hstart⟩)
  · exact (hclosed t t' h).mono fun u u' h => .inr ⟨u, u', rfl, rfl, h⟩

theorem similar_await {request : Q} {next next' : Except X (R request) → Program Q R L X}
    (h : ∀ answer, Similar E (next answer) (next' answer)) :
    Similar E (await request next) (await request next') := by
  choose B hclosed hstart using h
  refine ⟨fun s s' => s = none ∧ s' = none ∨
    ∃ answer t t', s = some ⟨answer, t⟩ ∧ s' = some ⟨answer, t'⟩ ∧ B answer t t', ?_, .inl ⟨rfl, rfl⟩⟩
  rintro s s' (⟨rfl, rfl⟩ | ⟨answer, t, t', rfl, rfl, h⟩)
  · exact .await fun answer => .inr ⟨answer, _, _, rfl, rfl, hstart answer⟩
  · exact (hclosed answer t t' h).mono fun u u' h => .inr ⟨answer, u, u', rfl, rfl, h⟩

-- Blocks that finish alike make similar programs of similar ones.
theorem similar_guard {σ : Type} {observe : σ → Q → σ} {finish finish' : σ → Option X → Program Q R L X}
    (hfinish : ∀ seen result result', Option.Rel E result result' →
      Similar E (finish seen result) (finish' seen result')) (seen : σ) (h : Similar E p p') :
    Similar E (guard observe finish seen p) (guard observe finish' seen p') := by
  obtain ⟨B, hclosed, hstart⟩ := h
  let C : (guard observe finish seen p).State → (guard observe finish' seen p').State → Prop := fun s s' =>
    (∃ seen t t', s = .inside seen t ∧ s' = .inside seen t' ∧ B t t') ∨
      ∃ result result' t t', s = .finishing ⟨result, t⟩ ∧ s' = .finishing ⟨result', t'⟩ ∧
        ∃ F, Closed E (finish result.1 result.2) (finish' result'.1 result'.2) F ∧ F t t'
  have hfinishing : ∀ {result result' : σ × Option X} {t t'},
      (∃ F, Closed E (finish result.1 result.2) (finish' result'.1 result'.2) F ∧ F t t') →
      MoveLike E C (mapMove .finishing (finishMove finish result t))
        (mapMove .finishing (finishMove finish' result' t')) := by
    rintro result result' t t' ⟨F, hF, ht⟩
    have hmove : MoveLike E (fun u u' => C (.finishing u) (.finishing u')) (finishMove finish result t)
        (finishMove finish' result' t') :=
      (hF t t' ht).mono fun u u' h => .inr ⟨result, result', u, u', rfl, rfl, F, hF, h⟩
    exact hmove.mono (f := Guarded.finishing) (g := Guarded.finishing) fun u u' h => h
  refine ⟨C, ?_, .inl ⟨seen, _, _, rfl, rfl, hstart⟩⟩
  rintro s s' (⟨seen, t, t', rfl, rfl, h⟩ | ⟨result, result', t, t', rfl, rfl, h⟩)
  · have hmove := hclosed t t' h
    change MoveLike E C (guardMove observe finish p.move (.inside seen t))
      (guardMove observe finish' p'.move (.inside seen t'))
    unfold guardMove
    dsimp only
    generalize p.move t = m at hmove ⊢
    generalize p'.move t' = m' at hmove ⊢
    cases hmove with
    | done => exact hfinishing (hfinish seen none none .none)
    | raise h => exact hfinishing (hfinish seen (some _) (some _) (.some h))
    | log h => exact .log (.inl ⟨seen, _, _, rfl, rfl, h⟩)
    | await h => exact .await fun answer => .inl ⟨_, _, _, rfl, rfl, h answer⟩
  · exact hfinishing h

theorem runsFrom_similar {S T : Type} {move : S → Move Q R L X S} {move' : T → Move Q R L X T}
    {B : S → T → Prop} (hclosed : ∀ s s', B s s' → MoveLike E B (move s) (move' s')) {s : S} {s' : T}
    (hB : B s s') (h : RunsFrom move s events outcome) :
    ∃ events' outcome', RunsFrom move' s' events' outcome' ∧ exchanges events' = exchanges events ∧
      OutcomeLike E outcome outcome' := by
  induction h generalizing s' with
  | done h =>
      have hmove := hclosed _ _ hB
      rw [h] at hmove
      cases hmove' : move' s' <;> rw [hmove'] at hmove <;> cases hmove
      exact ⟨[], .returned, .done hmove', rfl, .returned⟩
  | raise h =>
      have hmove := hclosed _ _ hB
      rw [h] at hmove
      cases hmove' : move' s' <;> rw [hmove'] at hmove <;> cases hmove
      rename_i hE
      exact ⟨[], _, .raise hmove', rfl, .raised hE⟩
  | waiting h =>
      have hmove := hclosed _ _ hB
      rw [h] at hmove
      cases hmove' : move' s' <;> rw [hmove'] at hmove <;> cases hmove
      exact ⟨[], _, .waiting hmove', rfl, .waiting _⟩
  | log h _ ih =>
      have hmove := hclosed _ _ hB
      rw [h] at hmove
      cases hmove' : move' s' <;> rw [hmove'] at hmove <;> cases hmove
      rename_i hnext
      obtain ⟨rest, outcome', hrest, hsame, hlike⟩ := ih hnext
      exact ⟨_, outcome', .log hmove' hrest, hsame, hlike⟩
  | await answer h _ ih =>
      have hmove := hclosed _ _ hB
      rw [h] at hmove
      cases hmove' : move' s' <;> rw [hmove'] at hmove <;> cases hmove
      rename_i hnext
      obtain ⟨rest, outcome', hrest, hsame, hlike⟩ := ih (hnext answer)
      exact ⟨_, outcome', .await answer hmove' hrest, by rw [exchanges_asked, exchanges_asked, hsame], hlike⟩

theorem Similar.runs (h : Similar E p p') (hrun : p.Runs events outcome) :
    ∃ events' outcome', p'.Runs events' outcome' ∧ exchanges events' = exchanges events ∧
      OutcomeLike E outcome outcome' := by
  obtain ⟨B, hclosed, hstart⟩ := h
  exact runsFrom_similar hclosed hstart hrun

end Scaffold.Program
