import Scaffold.Ledger
import Scaffold.Queue.Redis.Theorems

namespace Scaffold.Queue

open Machine
open Redis (StreamEntry)

variable {C T : Type} [DecidableEq C] [DecidableEq T] {lease : Nat}

-- A read with `>` returns an entry that has not been delivered. The server gives out only such
-- entries; the condition says that no claim has overtaken the answer on its way.
def FreshReads (p : RedisPool C T) : (T × RedisAct C) ⊕ RedisEvent C → Prop
  | .inl (t, .reply) => ∀ c entry grant, p.loc t = .reading c (some (.read (some entry) grant)) →
      entry.id ∉ p.shared.deliveries.map (·.identity)
  | _ => True

-- The entry that a call has read and has not returned yet.
def RedisPhase.readEntry : RedisPhase C → Option (StreamEntry Bytes)
  | .reading _ (some (.read entry _)) => entry
  | _ => none

omit [DecidableEq C] [DecidableEq T] in
theorem freshReads_reply {p : RedisPool C T} {t : T} :
    FreshReads p (.inl (t, .reply)) ↔
      ∀ entry ∈ (p.loc t).readEntry, entry.id ∉ p.shared.deliveries.map (·.identity) := by
  constructor
  · intro h entry hentry
    unfold RedisPhase.readEntry at hentry
    split at hentry
    · rename_i c found grant hloc
      obtain rfl : found = some entry := hentry
      exact h c entry grant hloc
    · cases hentry
  · intro h c entry grant hloc
    exact h entry (by rw [hloc]; rfl)

omit [DecidableEq C] [DecidableEq T] in
instance (p : RedisPool C T) : ∀ act, Decidable (FreshReads p act)
  | .inl (t, .reply) => decidable_of_iff _ (freshReads_reply (p := p) (t := t)).symm
  | .inl (_, .receive _) => isTrue trivial
  | .inl (_, .acknowledge _) => isTrue trivial
  | .inl (_, .renew _) => isTrue trivial
  | .inl (_, .acquire) => isTrue trivial
  | .inl (_, .execute) => isTrue trivial
  | .inl (_, .resend) => isTrue trivial
  | .inl (_, .raises) => isTrue trivial
  | .inr _ => isTrue trivial

section Steps

variable {t : T} {s : RedisShared C T} {l : RedisPhase C} {next : RedisNext C T}

omit [DecidableEq C] in
theorem receiveLoop_deliveries (s : RedisShared C T) (t : T) (c : C) :
    (receiveLoop s t c).1.deliveries = s.deliveries := by
  unfold receiveLoop
  split_ifs <;> rfl

-- Only the reply of a command makes a delivery or settles one.
theorem redisStep_deliveries {act : RedisAct C} (hact : act ≠ .reply)
    (h : redisStep lease t s l act = some next) :
    next.1.deliveries = s.deliveries := by
  cases act with
  | receive c =>
      simp only [redisStep] at h
      split at h
      · obtain rfl := Option.some.inj h
        rfl
      · cases h
  | acknowledge index =>
      simp only [redisStep] at h
      split at h
      · split_ifs at h <;> obtain rfl := Option.some.inj h <;> rfl
      · cases h
  | renew c =>
      simp only [redisStep] at h
      split at h
      · obtain rfl := Option.some.inj h
        rfl
      · cases h
  | acquire =>
      simp only [redisStep, acquireLock] at h
      split at h
      · split_ifs at h
        obtain rfl := Option.some.inj h
        exact receiveLoop_deliveries _ t _
      · split_ifs at h
        obtain rfl := Option.some.inj h
        rfl
      · split_ifs at h <;> obtain rfl := Option.some.inj h <;> rfl
      · cases h
  | execute =>
      simp only [redisStep] at h
      split at h
      · cases h
      · obtain rfl := Option.some.inj h
        rfl
  | resend =>
      simp only [redisStep] at h
      split at h <;> first | (obtain rfl := Option.some.inj h; rfl) | cases h
  | reply => exact absurd rfl hact
  | raises =>
      simp only [redisStep, raiseAwait] at h
      split at h <;> first | (obtain rfl := Option.some.inj h; rfl) | cases h

end Steps

section Runs

variable {p q : RedisPool C T}

-- What a step does to the deliveries.
theorem redisPool_deliveries {act : (T × RedisAct C) ⊕ RedisEvent C}
    (h : redisPoolStep lease p act = some q) :
    q.shared.deliveries = p.shared.deliveries ∨
      (∃ index, q.shared.deliveries = p.shared.deliveries.modify index fun x =>
        { x with settled := true }) ∨
      ∃ x, q.shared.deliveries = p.shared.deliveries ++ [x] ∧
        (x.possiblyRedelivered = true ∨ ∃ t c entry grant, act = .inl (t, .reply) ∧
          p.loc t = .reading c (some (.read (some entry) grant)) ∧ x.identity = entry.id) := by
  obtain ⟨t, act⟩ | event := act
  · obtain ⟨s, l, hl, rfl⟩ := Pool.step_task h
    by_cases hact : act = .reply
    · subst hact
      have heffect := redisStep_effect hl
      generalize hphase : p.loc t = phase at heffect
      cases heffect with
      | moved _ _ _ deliveries => exact .inl deliveries
      | executed => exact .inl rfl
      | delivered _ c entry grant redelivered hl' _ _ _ deliveries =>
          refine .inr (.inr ⟨_, deliveries, ?_⟩)
          rcases hl' with ⟨rfl, -⟩ | ⟨-, rfl⟩
          · exact .inl rfl
          · exact .inr ⟨t, c, entry, grant, rfl, hphase, rfl⟩
      | settled _ _ delivery _ _ _ _ deliveries => exact .inr (.inl ⟨delivery, deliveries⟩)
    · exact .inl (redisStep_deliveries hact hl)
  · obtain ⟨s, hs, rfl⟩ := Pool.step_env h
    left
    cases event with
    | publish payload =>
        obtain rfl := Option.some.inj hs
        rfl
    | tick elapsed =>
        obtain rfl := Option.some.inj hs
        rfl
    | orphan index =>
        simp only [redisEvent] at hs
        split at hs
        · cases hs
        · obtain rfl := Option.some.inj hs
          rfl
    | aclose c =>
        obtain rfl := Option.some.inj hs
        rfl

-- A delivery that is not marked is the first one of its entry.
def RedisFirst (p : RedisPool C T) : Prop :=
  ∀ (i j : Nat) (x y : RedisDelivery C), i < j → p.shared.deliveries[i]? = some x →
    p.shared.deliveries[j]? = some y → x.identity = y.identity → y.possiblyRedelivered = true

theorem redisFirst_step {act : (T × RedisAct C) ⊕ RedisEvent C} (hp : RedisFirst p)
    (hfresh : FreshReads p act)
    (h : redisPoolStep lease p act = some q) : RedisFirst q := by
  intro i j x y hij hx hy hid
  obtain hsame | ⟨index, hsettled⟩ | ⟨new, hnew, hflag⟩ := redisPool_deliveries h
  · rw [hsame] at hx hy
    exact hp i j x y hij hx hy hid
  · rw [hsettled, Ledger.getElem?_modify_some] at hx hy
    obtain ⟨x', hx, rfl⟩ := hx
    obtain ⟨y', hy, rfl⟩ := hy
    have hfirst := hp i j x' y' hij hx hy (by split at hid <;> split at hid <;> exact hid)
    split <;> exact hfirst
  · rw [hnew, Ledger.getElem?_concat] at hx hy
    have hlt : i < p.shared.deliveries.length := by
      obtain hy | ⟨rfl, -⟩ := hy
      · have := (List.getElem?_eq_some_iff.mp hy).1
        omega
      · exact hij
    have hold : p.shared.deliveries[i]? = some x := hx.resolve_right fun ⟨heq, _⟩ => by omega
    obtain hy | ⟨rfl, rfl⟩ := hy
    · exact hp i j x y hij hold hy hid
    · obtain hflag | ⟨t, c, entry, grant, rfl, hloc, hentry⟩ := hflag
      · exact hflag
      · refine absurd ?_ (hfresh c entry grant hloc)
        rw [← hentry, ← hid]
        exact List.mem_map_of_mem (List.mem_of_getElem? hold)

end Runs

end Scaffold.Queue
