import Scaffold.Queue.Rabbit.Theorems

namespace Scaffold.Queue

open Machine Ledger
open Amqp (QueueOk Sent)

variable {C T : Type} [DecidableEq C] [DecidableEq T] {p q : RabbitPool C T}

-- A consumer hands out nothing that its closed channel has given back. The broker sends on open channels
-- only; the condition says that the end of one has not overtaken what was sent before.
def FreshChannels (p : RabbitPool C T) : (T × RabbitAct C) ⊕ RabbitEvent C → Prop
  | .inl (t, .next) => ∀ c, p.loc t = .getting c → p.shared.broker.closed c = false
  | _ => True

-- The consumer at whose iterator a call waits.
def RabbitPhase.iterating : RabbitPhase C → Option C
  | .getting c => some c
  | _ => none

omit [DecidableEq C] [DecidableEq T] in
theorem freshChannels_next {t : T} :
    FreshChannels p (.inl (t, .next)) ↔
      ∀ c ∈ (p.loc t).iterating, p.shared.broker.closed c = false := by
  constructor
  · intro h c hc
    unfold RabbitPhase.iterating at hc
    split at hc
    · rename_i other hloc
      obtain rfl := Option.some.inj hc
      exact h _ hloc
    · cases hc
  · intro h c hloc
    exact h c (by rw [hloc]; rfl)

omit [DecidableEq C] [DecidableEq T] in
instance decidableFreshChannels (p : RabbitPool C T) : ∀ act, Decidable (FreshChannels p act)
  | .inl (t, .next) => decidable_of_iff _ (freshChannels_next (p := p) (t := t)).symm
  | .inl (_, .receive _) => isTrue trivial
  | .inl (_, .acknowledge _) => isTrue trivial
  | .inl (_, .aclose _) => isTrue trivial
  | .inl (_, .publish _) => isTrue trivial
  | .inl (_, .acquire) => isTrue trivial
  | .inl (_, .ended) => isTrue trivial
  | .inl (_, .execute) => isTrue trivial
  | .inl (_, .reply) => isTrue trivial
  | .inl (_, .raises) => isTrue trivial
  | .inr _ => isTrue trivial

-- A step hands out the head of one buffer, or nothing.
theorem RabbitEffect.deliveries {t : T} {s : RabbitShared C T} {l : RabbitPhase C} {act : RabbitAct C}
    {next : RabbitNext C T} (h : RabbitEffect t s l act next) :
    next.1.deliveries = s.deliveries ∨ ∃ c x rest, act = .next ∧ l = .getting c ∧
      (s.consumers c).buffer = x :: rest ∧ next.1.deliveries = s.deliveries ++ [rabbitDelivery x] := by
  cases h with
  | passed s' l' same => exact .inl same.deliveries
  | called => exact .inl rfl
  | handed c x rest hact hloc hbuffer => exact .inr ⟨c, x, rest, hact, hloc, hbuffer, rfl⟩
  | acked => exact .inl rfl
  | cancelled => exact .inl rfl
  | closed => exact .inl rfl
  | published => exact .inl rfl

-- Only a call of `acknowledge` is recorded as one.
theorem RabbitEffect.calls {t : T} {s : RabbitShared C T} {l : RabbitPhase C} {act : RabbitAct C}
    {next : RabbitNext C T} (h : RabbitEffect t s l act next) {index : Nat}
    (hindex : index ∈ next.1.calls) : index ∈ s.calls ∨ act = .acknowledge index := by
  cases h with
  | passed s' l' same => exact .inl (same.calls ▸ hindex)
  | called other hact =>
      obtain hold | hnew := List.mem_append.mp hindex
      · exact .inl hold
      · obtain rfl := List.mem_singleton.mp hnew
        exact .inr hact
  | handed => exact .inl hindex
  | acked => exact .inl hindex
  | cancelled => exact .inl hindex
  | closed => exact .inl hindex
  | published => exact .inl hindex

omit [DecidableEq T] in
theorem rabbitEvent_deliveries {s s' : RabbitShared C T} {event : RabbitEvent C}
    (h : rabbitEvent s event = some s') : s'.deliveries = s.deliveries ∧ s'.calls = s.calls := by
  cases event with
  | published message =>
      simp only [rabbitEvent] at h
      split_ifs at h
      obtain rfl := Option.some.inj h
      exact ⟨rfl, rfl⟩
  | orphan index =>
      simp only [rabbitEvent] at h
      split at h
      · cases h
      · obtain rfl := Option.some.inj h
        split <;> exact ⟨rfl, rfl⟩
  | consumer c concurrency =>
      simp only [rabbitEvent] at h
      obtain ⟨broker, -, rfl⟩ := Option.map_eq_some_iff.mp h
      exact ⟨rfl, rfl⟩
  | deliver c position =>
      simp only [rabbitEvent] at h
      split at h
      · cases h
      · obtain rfl := Option.some.inj h
        exact ⟨rfl, rfl⟩
  | process c =>
      simp only [rabbitEvent] at h
      split at h
      · cases h
      · split_ifs at h
        obtain rfl := Option.some.inj h
        exact ⟨rfl, rfl⟩
  | lost c =>
      obtain rfl := Option.some.inj h
      exact ⟨rfl, rfl⟩
  | cancels c =>
      obtain rfl := Option.some.inj h
      exact ⟨rfl, rfl⟩
  | ends c =>
      obtain rfl := Option.some.inj h
      exact ⟨rfl, rfl⟩

theorem rabbitPool_deliveries {act : (T × RabbitAct C) ⊕ RabbitEvent C}
    (h : rabbitPoolStep p act = some q) :
    q.shared.deliveries = p.shared.deliveries ∨ ∃ t c x rest, act = .inl (t, .next) ∧
      p.loc t = .getting c ∧ (p.shared.consumers c).buffer = x :: rest ∧
      q.shared.deliveries = p.shared.deliveries ++ [rabbitDelivery x] := by
  cases act with
  | inl act =>
      obtain ⟨t, act⟩ := act
      obtain ⟨s, l, hstep, rfl⟩ := Pool.step_task h
      obtain hsame | ⟨c, x, rest, rfl, hrest⟩ :=
        (rabbitStep_effect hstep).deliveries
      · exact .inl hsame
      · exact .inr ⟨t, c, x, rest, rfl, hrest⟩
  | inr event =>
      obtain ⟨s, hevent, rfl⟩ := Pool.step_env h
      exact .inl (rabbitEvent_deliveries hevent).1

-- Of the deliveries of a message only the first one has no mark.
def RabbitFirst (p : RabbitPool C T) : Prop :=
  ∀ (i j : Nat) d e, i < j → p.shared.deliveries[i]? = some d → p.shared.deliveries[j]? = some e →
    d.entry = e.entry → e.possiblyRedelivered = true

theorem rabbitFirst_step (hi : RabbitInv p) (hp : RabbitFirst p)
    {act : (T × RabbitAct C) ⊕ RabbitEvent C} (hfresh : FreshChannels p act)
    (h : rabbitPoolStep p act = some q) : RabbitFirst q := by
  intro i j d e hij hd he hentry
  obtain hsame | ⟨t, c, x, rest, rfl, hloc, hbuffer, hnew⟩ := rabbitPool_deliveries h
  · rw [hsame] at hd he
    exact hp i j d e hij hd he hentry
  · rw [hnew, getElem?_concat] at hd he
    have hlt : i < p.shared.deliveries.length := by
      obtain he | ⟨rfl, -⟩ := he
      · exact Nat.lt_trans hij (List.getElem?_eq_some_iff.mp he).1
      · exact hij
    have hold := hd.resolve_right fun hlast => Nat.ne_of_lt hlt hlast.1
    obtain he | ⟨-, rfl⟩ := he
    · exact hp i j d e hij hold he hentry
    · by_contra hmark
      -- the message is without acknowledgement, and it was not sent before
      have hok := hi.calls.1
      have hx : x ∈ (p.shared.consumers c).buffer := hbuffer ▸ List.mem_cons_self
      obtain ⟨hchannel, -, hheld⟩ := (hok.consumers c).buffer x hx
      obtain ⟨y, hy, rfl⟩ := hok.deliveries d (List.mem_of_getElem? hold)
      obtain rfl := hok.broker.once x (hheld (hfresh c hloc)) ((Bool.not_eq_true _).mp hmark) y hy hentry
      exact Nat.lt_irrefl _ ((hok.consumers c).handed _ (List.mem_of_getElem? hold) hchannel y hx)

end Scaffold.Queue
