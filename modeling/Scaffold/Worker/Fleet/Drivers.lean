import Scaffold.Queue.Kafka.Redelivery
import Scaffold.Queue.Redis.Redelivery
import Scaffold.Worker.Fleet

namespace Scaffold.Worker

open Machine Ledger Queue

-- What the executions rely on: deliveries stay, only the first one of an entry is not marked, and
-- `acknowledge` is called at most once on each. `called` are the deliveries it was called on.
structure DriverSound {K S A T : Type} (driver : Driver K S A T) (ok : S → A → Prop) (good : S → Prop)
    (called : S → Nat → Prop) : Prop where
  marked : ∀ t index, driver.isAcknowledge (driver.acknowledge t index) = true
  injective : ∀ t t' index index', driver.acknowledge t index = driver.acknowledge t' index' →
    index = index'
  admits : ∀ s t index, ok s (driver.acknowledge t index)
  kept : ∀ s act s', good s → ok s act → (∀ t index, act = driver.acknowledge t index → ¬ called s index) →
    driver.step s act = some s' → good s'
  calls : ∀ s act s' (index : Nat), driver.step s act = some s' → called s' index →
    called s index ∨ ∃ t, act = driver.acknowledge t index
  grows : ∀ s act s' (index : Nat) x, good s → driver.step s act = some s' →
    (driver.handed s)[index]? = some x →
    (driver.handed s')[index]? = some x
  flags : ∀ s (i j : Nat) x y, good s → i < j → (driver.handed s)[i]? = some x →
    (driver.handed s)[j]? = some y →
    x.entry = y.entry → y.delivery.possiblyRedelivered = true
  published : ∀ s, good s → ∀ x ∈ driver.handed s, driver.published s x.entry x.delivery.payload

section Redis

variable {C T : Type} [DecidableEq C] [DecidableEq T] {lease : Nat} {p : RedisPool C T}

def redisHanded (d : RedisDelivery C) : Handed Nat := ⟨d.identity, ⟨d.payload, d.possiblyRedelivered⟩⟩

theorem redis_handed {index : Nat} {x : Handed Nat}
    (h : ((redisDriver lease).handed p)[index]? = some x) :
    ∃ d, p.shared.deliveries[index]? = some d ∧ redisHanded d = x :=
  Option.map_eq_some_iff.mp ((List.getElem?_map ..).symm.trans h)

theorem handed_redis {index : Nat} {d : RedisDelivery C} (h : p.shared.deliveries[index]? = some d) :
    ((redisDriver lease).handed p)[index]? = some (redisHanded d) :=
  (List.getElem?_map ..).trans (congrArg (Option.map redisHanded) h)

theorem redis_grows {act : (T × RedisAct C) ⊕ RedisEvent C} {q : RedisPool C T}
    (h : redisPoolStep lease p act = some q) {index : Nat} {x : Handed Nat}
    (hx : ((redisDriver lease).handed p)[index]? = some x) :
    ((redisDriver lease).handed q)[index]? = some x := by
  obtain ⟨d, hd, rfl⟩ := redis_handed hx
  obtain hsame | ⟨other, hsettled⟩ | ⟨new, hnew, -⟩ := redisPool_deliveries h
  · exact handed_redis (hsame ▸ hd)
  · have hget : q.shared.deliveries[index]? =
      some (if other = index then { d with settled := true } else d) := by
      rw [hsettled]
      exact getElem?_modify_some.mpr ⟨d, hd, rfl⟩
    rw [handed_redis hget]
    split <;> rfl
  · refine handed_redis ?_
    rw [hnew]
    exact (getElem?_concat _ _ _ _).mpr (.inl hd)

theorem redis_sound : DriverSound (redisDriver lease) FreshReads
    (fun p : RedisPool C T => RedisInv p ∧ RedisFirst p) fun _ _ => False where
  marked _ _ := rfl
  injective t t' index index' h := by
    obtain ⟨-, h⟩ := Prod.mk.inj (Sum.inl.inj h)
    injection h
  admits _ _ _ := trivial
  kept p act q hp hfresh _ h := ⟨redisInv_step p act q hp.1 h, redisFirst_step hp.2 hfresh h⟩
  calls _ _ _ _ _ h := h.elim
  grows _ _ _ _ _ _ h hx := redis_grows h hx
  flags p i j x y hp hij hx hy hentry := by
    obtain ⟨d, hd, rfl⟩ := redis_handed hx
    obtain ⟨e, he, rfl⟩ := redis_handed hy
    exact hp.2 i j d e hij hd he hentry
  published p hp x hx := by
    obtain ⟨d, hd, rfl⟩ := List.mem_map.mp hx
    exact (hp.1.deliveries d hd).added

end Redis

section Kafka

variable {M P T : Type} [DecidableEq M] [DecidableEq P] [DecidableEq T] {first : P → Nat}
    {p q : KafkaPool M P T}

def kafkaHanded (d : KafkaDelivery M P) : Handed (P × Nat) :=
  ⟨(d.partition, d.offset), ⟨d.payload, d.possiblyRedelivered⟩⟩

theorem kafka_handed {index : Nat} {x : Handed (P × Nat)} (h : (kafkaDriver.handed p)[index]? = some x) :
    ∃ d, p.shared.deliveries[index]? = some d ∧ kafkaHanded d = x :=
  Option.map_eq_some_iff.mp ((List.getElem?_map ..).symm.trans h)

theorem handed_kafka {index : Nat} {d : KafkaDelivery M P} (h : p.shared.deliveries[index]? = some d) :
    (kafkaDriver.handed p)[index]? = some (kafkaHanded d) :=
  (List.getElem?_map ..).trans (congrArg (Option.map kafkaHanded) h)

-- A delivery keeps what it carries.
theorem kafkaTask_deliveries (hi : KafkaInv first p) {t : T} {act : KafkaAct M P} {next : KafkaNext M P T}
    (h : kafkaStep t p.shared (p.loc t) act = some next) {index : Nat} {d : KafkaDelivery M P}
    (hd : p.shared.deliveries[index]? = some d) :
    ∃ settled, next.1.deliveries[index]? = some { d with settled := settled } := by
  cases kafkaStep_effect h with
  | passed _ s' l' same phase =>
      obtain ⟨consumers, orphans, rfl⟩ := same.state
      exact ⟨d.settled, hd⟩
  | called => exact ⟨d.settled, hd⟩
  | taken m k r group phase record joined =>
      obtain ⟨-, hspec⟩ := takeRecord_fresh t r group (hi.free_of_next record)
      refine ⟨d.settled, ?_⟩
      rw [hspec.deliveries]
      exact (getElem?_concat _ _ _ _).mpr (.inl hd)
  | executed m other commit phase =>
      refine ⟨d.settled, ?_⟩
      obtain ⟨-, heq⟩ | ⟨-, heq⟩ := commitOffset_cases p.shared commit
      · rw [heq]
        exact hd
      · rw [heq]
        exact hd
  | resent => exact ⟨d.settled, hd⟩
  | settled m other commit x phase delivery current =>
      exact (settleKafka_grows p.shared m other x.partition).deliveries index d hd

theorem kafka_grows (hi : KafkaInv first p) {act : (T × KafkaAct M P) ⊕ KafkaEvent M P}
    (h : kafkaPoolStep p act = some q) {index : Nat} {x : Handed (P × Nat)}
    (hx : (kafkaDriver.handed p)[index]? = some x) : (kafkaDriver.handed q)[index]? = some x := by
  obtain ⟨d, hd, rfl⟩ := kafka_handed hx
  cases act with
  | inl act =>
      obtain ⟨t, act⟩ := act
      obtain ⟨s', l', hstep, rfl⟩ := Pool.step_task h
      obtain ⟨settled, hd'⟩ := kafkaTask_deliveries hi hstep hd
      have hget : (p.move t s' l').shared.deliveries[index]? = some { d with settled := settled } := hd'
      exact (handed_kafka hget).trans rfl
  | inr event =>
      obtain ⟨s', hevent, rfl⟩ := Pool.step_env h
      obtain ⟨hdeliveries, -⟩ := kafkaEvent_keeps hevent
      have hget : ({ p with shared := s' } : KafkaPool M P T).shared.deliveries[index]? = some d :=
        hdeliveries ▸ hd
      exact handed_kafka hget

-- Only a call of `acknowledge` is recorded as one.
theorem kafkaTask_calls {t : T} {act : KafkaAct M P} {next : KafkaNext M P T}
    (h : kafkaStep t p.shared (p.loc t) act = some next) {index : Nat}
    (hindex : index ∈ next.1.acknowledges) :
    index ∈ p.shared.acknowledges ∨ act = .acknowledge index := by
  cases kafkaStep_effect h with
  | passed _ s' l' same phase =>
      obtain ⟨consumers, orphans, rfl⟩ := same.state
      exact .inl hindex
  | called other =>
      obtain hold | hnew := List.mem_append.mp hindex
      · exact .inl hold
      · obtain rfl := List.mem_singleton.mp hnew
        exact .inr rfl
  | taken m k r group phase record joined =>
      left
      have hsame : (takeRecord p.shared t m k r group).1.acknowledges = p.shared.acknowledges := by
        simp only [takeRecord]
        split_ifs <;> rfl
      exact hsame ▸ hindex
  | executed m other commit phase =>
      left
      obtain ⟨-, heq⟩ | ⟨-, heq⟩ := commitOffset_cases p.shared commit
      · rw [heq] at hindex
        exact hindex
      · rw [heq] at hindex
        exact hindex
  | resent => exact .inl hindex
  | settled => exact .inl hindex

omit [DecidableEq T] in
theorem kafkaEvent_calls {s s' : KafkaShared M P T} {event : KafkaEvent M P}
    (h : kafkaEvent s event = some s') :
    s'.acknowledges = s.acknowledges := by
  cases kafkaEvent_moved h with
  | orphan index commit sent =>
      obtain ⟨-, heq⟩ | ⟨-, heq⟩ := commitOffset_cases s commit <;> rw [heq]
  | produced => rfl
  | rebalance => rfl
  | revoked => rfl
  | assigned => rfl
  | aclose => rfl
  | stop => rfl

theorem kafka_calls {act : (T × KafkaAct M P) ⊕ KafkaEvent M P} (h : kafkaPoolStep p act = some q)
    {index : Nat}
    (hindex : index ∈ q.shared.acknowledges) :
    index ∈ p.shared.acknowledges ∨ ∃ t, act = .inl (t, .acknowledge index) := by
  cases act with
  | inl act =>
      obtain ⟨t, act⟩ := act
      obtain ⟨s', l', hstep, rfl⟩ := Pool.step_task h
      obtain hold | rfl := kafkaTask_calls hstep hindex
      · exact .inl hold
      · exact .inr ⟨t, rfl⟩
  | inr event =>
      obtain ⟨s', hevent, rfl⟩ := Pool.step_env h
      exact .inl (kafkaEvent_calls hevent ▸ hindex)

theorem kafka_sound : DriverSound (kafkaDriver : Driver (P × Nat) (KafkaPool M P T) _ T) (fun _ _ => True)
    (fun p => KafkaInv first p ∧ KafkaOnce p) fun p index => index ∈ p.shared.acknowledges where
  marked _ _ := rfl
  injective t t' index index' h := by
    obtain ⟨-, h⟩ := Prod.mk.inj (Sum.inl.inj h)
    injection h
  admits _ _ _ := trivial
  kept p act q hp _ hcalls h := by
    have honce : CalledOnce p act := by
      unfold CalledOnce
      split
      · exact hcalls _ _ rfl
      · trivial
    exact ⟨kafkaInv_step hp.1 (honce.oneCall hp.1) h, kafkaOnce_step hp.1 hp.2 honce h⟩
  calls _ _ _ _ h hindex := kafka_calls h hindex
  grows _ _ _ _ _ hp h hx := kafka_grows hp.1 h hx
  flags p i j x y hp hij hx hy hentry := by
    obtain ⟨d, hd, rfl⟩ := kafka_handed hx
    obtain ⟨e, he, rfl⟩ := kafka_handed hy
    obtain ⟨hpartition, hoffset⟩ := Prod.mk.inj hentry
    exact hp.2.order.flags i j d e hij hd he hpartition hoffset
  published p hp x hx := by
    obtain ⟨d, hd, rfl⟩ := List.mem_map.mp hx
    obtain ⟨r, hr, hoffset, hpayload⟩ := (hp.1.deliveries d hd).record
    exact ⟨r, hr, hoffset, hpayload⟩

end Kafka

end Scaffold.Worker
