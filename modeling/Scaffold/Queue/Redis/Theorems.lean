import Scaffold.Ledger
import Scaffold.Queue.Redis

namespace Scaffold.Queue

open Machine Ledger
open Redis (StreamGroup StreamEntry StreamOk)

variable {C T : Type} {lease : Nat}

section Server

-- A reply or a delivery that stands for a grant: the entry was given to the consumer, and it was
-- not given to anybody before unless it may be a second delivery.
structure GrantOk (s : RedisServer C T) (c : C) (entry : StreamEntry Bytes) (grant : Nat)
    (redelivered : Bool) : Prop where
  granted : s.stream.grants[grant]? = some (entry.id, c)
  added : entry ∈ s.stream.log
  first : redelivered = false → entry.id ∉ (s.stream.grants.take grant).map (·.1)

def DeliveryOk (s : RedisServer C T) (x : RedisDelivery C) : Prop :=
  GrantOk s x.consumer ⟨x.identity, x.payload⟩ x.grant x.possiblyRedelivered

def ServerOk (s : RedisServer C T) : Prop :=
  StreamOk s.stream (s.removals.map (·.identity))

-- Histories only grow.
structure ServerGrows (s s' : RedisServer C T) : Prop where
  grants : ∃ new, s'.stream.grants = s.stream.grants ++ new
  log : ∀ e ∈ s.stream.log, e ∈ s'.stream.log
  removals : ∀ r ∈ s.removals, r ∈ s'.removals

theorem ServerGrows.refl (s : RedisServer C T) : ServerGrows s s :=
  ⟨⟨[], by simp⟩, fun _ he => he, fun _ hr => hr⟩

theorem GrantOk.grows {s s' : RedisServer C T} {c : C} {entry : StreamEntry Bytes} {grant : Nat}
    {redelivered : Bool} (h : GrantOk s c entry grant redelivered) (hs : ServerGrows s s') :
    GrantOk s' c entry grant redelivered := by
  obtain ⟨new, hnew⟩ := hs.grants
  have hlt : grant < s.stream.grants.length := (List.getElem?_eq_some_iff.mp h.granted).1
  refine ⟨?_, hs.log _ h.added, fun hr => ?_⟩
  · rw [hnew, List.getElem?_append_left hlt]
    exact h.granted
  · rw [hnew, List.take_append_of_le_length (Nat.le_of_lt hlt)]
    exact h.first hr

-- A grant at the end of the history.
theorem grantOk_last {s s' : RedisServer C T} {c : C} {entry : StreamEntry Bytes} {redelivered : Bool}
    (hgrants : s'.stream.grants = s.stream.grants ++ [(entry.id, c)]) (hlog : entry ∈ s'.stream.log)
    (hfirst : redelivered = false → entry.id ∉ s.stream.grants.map (·.1)) :
    GrantOk s' c entry s.stream.grants.length redelivered := by
  refine ⟨?_, hlog, fun hr => ?_⟩
  · rw [hgrants]
    simp
  · rw [hgrants, List.take_left]
    exact hfirst hr

variable [DecidableEq C] {s : RedisServer C T} {issuer : Option T}

theorem owns_iff (h : ServerOk s) {c : C} {identity : Nat} :
    owns s.stream c identity = true ↔ ∃ p ∈ s.stream.pel, p.id = identity ∧ p.owner = c := by
  unfold owns StreamGroup.xpending
  constructor
  · intro ho
    split at ho
    · cases ho
    · rename_i p hp
      exact ⟨p, List.mem_of_find?_eq_some hp, by simpa using List.find?_some hp, by simpa using ho⟩
  · rintro ⟨p, hp, rfl, rfl⟩
    cases hfind : s.stream.pel.find? (·.id = p.id) with
    | none =>
        have hno := List.find?_eq_none.mp hfind p hp
        simp at hno
    | some other =>
        have hid : other.id = p.id := by simpa using List.find?_some hfind
        obtain rfl := List.inj_on_of_nodup_map h.nodup (List.mem_of_find?_eq_some hfind) hp hid
        simp

-- The ack script removes the entry that its consumer owns, and changes nothing otherwise.
theorem ownedAck_spec (issuer : Option T) (h : ServerOk s) (c : C) (delivery identity : Nat) :
    (owns s.stream c identity = false ∧ ownedAck s issuer c delivery identity = (s, 0)) ∨
      owns s.stream c identity = true ∧
        ownedAck s issuer c delivery identity =
          ({ stream := (s.stream.xack identity).1.xdel identity
             removals := s.removals ++ [⟨identity, c, delivery, issuer⟩] }, 1) ∧
        ServerOk (ownedAck s issuer c delivery identity).1 := by
  cases ho : owns s.stream c identity with
  | false => exact .inl ⟨rfl, by simp [ownedAck, ho]⟩
  | true =>
      obtain ⟨p, hp, hid, -⟩ := (owns_iff h).mp ho
      have hacked : (s.stream.xack identity).2 = true := by
        simp only [StreamGroup.xack, List.any_eq_true, decide_eq_true_eq]
        exact ⟨p, hp, hid⟩
      have heq : ownedAck s issuer c delivery identity =
          ({ stream := (s.stream.xack identity).1.xdel identity
             removals := s.removals ++ [⟨identity, c, delivery, issuer⟩] }, 1) := by
        simp [ownedAck, ho, hacked]
      refine .inr ⟨rfl, heq, ?_⟩
      rw [heq]
      have hpel : identity ∈ s.stream.pel.map (·.id) := hid ▸ List.mem_map_of_mem hp
      have hsettled := h.settle hpel
      unfold ServerOk
      simpa using hsettled

omit [DecidableEq C] in
theorem xclaims_ok {stream : StreamGroup C Bytes} {removed : List Nat} (h : StreamOk stream removed) (c : C)
    (identities : List Nat) :
    StreamOk (identities.foldl (fun stream identity => stream.xclaim c identity) stream) removed ∧
      (identities.foldl (fun stream identity => stream.xclaim c identity) stream).grants = stream.grants ∧
      (identities.foldl (fun stream identity => stream.xclaim c identity) stream).log = stream.log := by
  induction identities generalizing stream with
  | nil => exact ⟨h, rfl, rfl⟩
  | cons identity rest ih => exact ih (h.xclaim c identity)

-- What a reply says about the server.
def ReplyOk (s : RedisServer C T) (issuer : Option T) : RedisCommand C → RedisReply → Prop
  | .xautoclaim c _, .claimed _ (some entry) grant => GrantOk s c entry grant true
  | .xreadgroup c, .read (some entry) grant => GrantOk s c entry grant false
  | .ownedAck c delivery identity, .acked 1 => ⟨identity, c, delivery, issuer⟩ ∈ s.removals
  | _, _ => True

-- A command keeps the server in order. It adds at most one removal, that of an entry which the
-- consumer of the ack script owns.
theorem runCommand_spec (lease : Nat) (issuer : Option T) (h : ServerOk s) (command : RedisCommand C) :
    ServerOk (runCommand lease s issuer command).1 ∧
      ServerGrows s (runCommand lease s issuer command).1 ∧
      ReplyOk (runCommand lease s issuer command).1 issuer command (runCommand lease s issuer command).2 ∧
      ((runCommand lease s issuer command).1.removals = s.removals ∨
        ∃ c delivery identity, command = .ownedAck c delivery identity ∧
          owns s.stream c identity = true ∧
          (runCommand lease s issuer command).1.removals =
            s.removals ++ [⟨identity, c, delivery, issuer⟩]) := by
  cases command with
  | xautoclaim c cursor =>
      have hok := h.xautoclaim c lease cursor
      rcases h.xautoclaim_cases c lease cursor with ⟨hsame, hnone⟩ |
        ⟨before, p, after, entry, hpel, -, hentry, hid, hsome, hnext⟩
      · refine ⟨hok, ⟨⟨[], ?_⟩, ?_, fun _ hr => hr⟩, ?_, .inl rfl⟩
        · simp [runCommand, hsame]
        · simp [runCommand, hsame]
        · simp [runCommand, hnone, ReplyOk]
      · refine ⟨hok, ⟨⟨[(p.id, c)], ?_⟩, ?_, fun _ hr => hr⟩, ?_, .inl rfl⟩
        · simp [runCommand, hnext]
        · simp [runCommand, hnext]
        · simp only [runCommand, hsome, ReplyOk]
          refine grantOk_last ?_ ?_ (by simp)
          · simp [hnext, hid]
          · simp only [hnext]
            exact (h.entries_mem.mp hentry).1
  | xreadgroup c =>
      have hok := h.xreadgroup c
      cases hread : (s.stream.xreadgroup c).2 with
      | none =>
          have hsame : (s.stream.xreadgroup c).1 = s.stream := by
            unfold StreamGroup.xreadgroup at hread ⊢
            split at hread
            · simp
            · cases hread
          refine ⟨hok, ⟨⟨[], ?_⟩, ?_, fun _ hr => hr⟩, ?_, .inl rfl⟩
          · simp [runCommand, hsame]
          · simp [runCommand, hsame]
          · simp [runCommand, hread, ReplyOk]
      | some entry =>
          obtain ⟨hlog, hfirst, hgrants⟩ := h.xreadgroup_first hread
          have hsame : (s.stream.xreadgroup c).1.log = s.stream.log := by
            unfold StreamGroup.xreadgroup
            split <;> rfl
          refine ⟨hok, ⟨⟨_, hgrants⟩, ?_, fun _ hr => hr⟩, ?_, .inl rfl⟩
          · simp [runCommand, hsame]
          · simp only [runCommand, hread, ReplyOk]
            exact grantOk_last hgrants (hsame ▸ hlog) fun _ => hfirst
  | ownedAck c delivery identity =>
      rcases ownedAck_spec issuer h c delivery identity with ⟨-, heq⟩ | ⟨ho, heq, hok⟩
      · simp only [runCommand, heq]
        exact ⟨h, .refl s, trivial, .inl trivial⟩
      · refine ⟨hok, ?_, ?_, .inr ⟨c, delivery, identity, rfl, ho, ?_⟩⟩
        · simp only [runCommand, heq]
          exact ⟨⟨[], by simp [StreamGroup.xdel, StreamGroup.xack]⟩, fun _ he => he,
            fun r hr => List.mem_append_left _ hr⟩
        · simp [runCommand, heq, ReplyOk]
        · simp [runCommand, heq]
  | ownedRenewBatch c identities =>
      obtain ⟨hok, hgrants, hlog⟩ := xclaims_ok h c identities
      simp only [runCommand, ownedRenewBatch]
      split_ifs
      · exact ⟨hok, ⟨⟨[], by simp [hgrants]⟩, by simp [hlog], fun _ hr => hr⟩, trivial, .inl rfl⟩
      · exact ⟨h, .refl s, trivial, .inl rfl⟩

end Server

section Calls

-- The ack script is only sent for a delivery of its consumer.
def Issued (s : RedisShared C T) (c : C) (delivery identity : Nat) : Prop :=
  ∃ x, s.deliveries[delivery]? = some x ∧ x.consumer = c ∧ x.identity = identity

def CommandOk (s : RedisShared C T) : RedisCommand C → Prop
  | .ownedAck c delivery identity => Issued s c delivery identity
  | _ => True

-- What holds of a call at its await.
def PhaseOk (s : RedisShared C T) (t : T) : RedisPhase C → Prop
  | .claiming c _ (some (.claimed _ (some entry) grant)) => GrantOk s.server c entry grant true
  | .reading c (some (.read (some entry) grant)) => GrantOk s.server c entry grant false
  | .ackLock c delivery identity => Issued s c delivery identity
  | .acking c delivery identity reply =>
      Issued s c delivery identity ∧
        (reply = some (.acked 1) → ⟨identity, c, delivery, some t⟩ ∈ s.server.removals)
  | _ => True

variable [DecidableEq C] [DecidableEq T]

-- What a step does: it moves the call alone, executes its command, or turns the reply into a
-- delivery or into the end of one.
inductive RedisEffect (lease : Nat) (t : T) (s : RedisShared C T) (l : RedisPhase C) : RedisNext C T → Prop
  | moved (s' : RedisShared C T) (l' : RedisPhase C) (server : s'.server = s.server)
      (deliveries : s'.deliveries = s.deliveries)
      (pending : ∀ c, (s'.consumers c).pending = (s.consumers c).pending)
      (orphans : ∀ command ∈ s'.orphans, command ∈ s.orphans ∨ l.command = some command)
      (phase : PhaseOk s t l → PhaseOk s t l') (hopen : ∀ delivery, l ≠ .acknowledged delivery)
      (hnew : ∀ delivery, l' ≠ .acknowledged delivery) : RedisEffect lease t s l (s', l')
  | executed (command : RedisCommand C) (hcommand : l.command = some command) :
      RedisEffect lease t s l ({ s with server := (runCommand lease s.server (some t) command).1 },
        l.withReply (some (runCommand lease s.server (some t) command).2))
  | delivered (s' : RedisShared C T) (c : C) (entry : StreamEntry Bytes) (grant : Nat) (redelivered : Bool)
      (hl : (redelivered = true ∧
        ∃ cursor next, l = .claiming c cursor (some (.claimed next (some entry) grant))) ∨
        redelivered = false ∧ l = .reading c (some (.read (some entry) grant)))
      (hnew : entry.id ∉ (s.consumers c).pending.map (·.1)) (server : s'.server = s.server)
      (orphans : s'.orphans = s.orphans)
      (deliveries : s'.deliveries = s.deliveries ++ [⟨c, entry.id, entry.payload, redelivered,
        false, grant⟩])
      (pending : ∀ key, (s'.consumers key).pending =
        if key = c then (s.consumers c).pending ++ [(entry.id, s.deliveries.length)]
        else (s.consumers key).pending) :
      RedisEffect lease t s l (s', .received s.deliveries.length)
  | settled (s' : RedisShared C T) (c : C) (delivery identity : Nat)
      (hl : l = .acking c delivery identity (some (.acked 1))) (server : s'.server = s.server)
      (orphans : s'.orphans = s.orphans)
      (deliveries : s'.deliveries = s.deliveries.modify delivery fun x => { x with settled := true })
      (pending : ∀ key, (s'.consumers key).pending =
        if key = c then (s.consumers c).pending.filter (·.1 ≠ identity) else (s.consumers key).pending) :
      RedisEffect lease t s l (s', .acknowledged delivery)

variable {t : T} {s : RedisShared C T} {l : RedisPhase C} {next : RedisNext C T}

theorem raiseRedis_effect {s₀ : RedisShared C T} {error : RedisError} (server : s₀.server = s.server)
    (deliveries : s₀.deliveries = s.deliveries)
    (pending : ∀ c, (s₀.consumers c).pending = (s.consumers c).pending)
    (orphans : ∀ command ∈ s₀.orphans, command ∈ s.orphans ∨ l.command = some command)
    (hopen : ∀ delivery, l ≠ .acknowledged delivery) :
    RedisEffect lease t s l (raiseRedis s₀ t error) :=
  .moved _ _ server deliveries pending orphans (fun _ => trivial) hopen (by simp)

omit [DecidableEq T] in
theorem setConsumer_pending (s : RedisShared C T) (c : C) (consumer : RedisConsumer T)
    (h : consumer.pending = (s.consumers c).pending) (key : C) :
    ((setConsumer s c consumer).consumers key).pending = (s.consumers key).pending := by
  by_cases hkey : key = c
  · subst hkey
    simp [setConsumer, h]
  · simp [setConsumer, hkey]

theorem receiveLoop_effect {s₀ : RedisShared C T} {c : C} (server : s₀.server = s.server)
    (deliveries : s₀.deliveries = s.deliveries)
    (pending : ∀ c, (s₀.consumers c).pending = (s.consumers c).pending)
    (orphans : s₀.orphans = s.orphans) (hopen : ∀ delivery, l ≠ .acknowledged delivery) :
    RedisEffect lease t s l (receiveLoop s₀ t c) := by
  have horphans : ∀ command ∈ s₀.orphans, command ∈ s.orphans ∨ l.command = some command :=
    fun command hm => .inl (orphans ▸ hm)
  unfold receiveLoop
  split_ifs
  · exact raiseRedis_effect server deliveries pending horphans hopen
  · exact raiseRedis_effect server deliveries pending horphans hopen
  · exact .moved _ _ server deliveries pending horphans (fun _ => trivial) hopen (by simp)

theorem deliver_effect {s₀ : RedisShared C T} {c : C} {entry : StreamEntry Bytes} {grant : Nat}
    {redelivered : Bool} (server : s₀.server = s.server) (deliveries : s₀.deliveries = s.deliveries)
    (pending : ∀ c, (s₀.consumers c).pending = (s.consumers c).pending)
    (orphans : s₀.orphans = s.orphans)
    (hl : (redelivered = true ∧
      ∃ cursor next, l = .claiming c cursor (some (.claimed next (some entry) grant))) ∨
      redelivered = false ∧ l = .reading c (some (.read (some entry) grant))) :
    RedisEffect lease t s l (deliver s₀ t c entry grant redelivered) := by
  have hopen : ∀ delivery, l ≠ .acknowledged delivery := by
    rcases hl with ⟨-, _, _, rfl⟩ | ⟨-, rfl⟩ <;> simp
  simp only [deliver]
  split_ifs with hin
  · exact raiseRedis_effect server deliveries pending (fun command hm => .inl (orphans ▸ hm)) hopen
  · rw [deliveries]
    refine .delivered _ c entry grant redelivered hl ?_ server orphans (by simp [releaseLocks]) ?_
    · simp only [List.any_eq_true, decide_eq_true_eq, not_exists, not_and, pending c] at hin
      simp only [List.mem_map, not_exists, not_and]
      exact hin
    · intro key
      by_cases hkey : key = c
      · subst hkey
        simp [releaseLocks, setConsumer, pending key]
      · simp [releaseLocks, setConsumer, hkey, pending key]

theorem processReply_effect (h : processReply s t l = some next) : RedisEffect lease t s l next := by
  unfold processReply at h
  split at h
  · rename_i c cursor next' entry grant
    have hpending := setConsumer_pending s c { s.consumers c with cursor := next' } rfl
    split at h <;> obtain rfl := Option.some.inj h
    · exact deliver_effect rfl rfl hpending rfl (.inl ⟨rfl, _, _, rfl⟩)
    · exact .moved _ _ rfl rfl hpending (fun _ hm => .inl hm) (fun _ => trivial) (by simp) (by simp)
  · split at h <;> obtain rfl := Option.some.inj h
    · exact deliver_effect rfl rfl (fun _ => rfl) rfl (.inr ⟨rfl, rfl⟩)
    · exact receiveLoop_effect rfl rfl (fun _ => rfl) rfl (by simp)
  · rename_i c delivery identity result
    split_ifs at h with hresult <;> obtain rfl := Option.some.inj h
    · subst hresult
      refine .settled _ c delivery identity rfl rfl rfl rfl fun key => ?_
      by_cases hkey : key = c
      · subst hkey
        simp [releaseLocks, setConsumer]
      · simp [releaseLocks, setConsumer, hkey]
    · exact raiseRedis_effect rfl rfl (fun _ => rfl) (fun _ hm => .inl hm) (by simp)
  · rename_i c identities owned
    split_ifs at h <;> obtain rfl := Option.some.inj h
    · exact .moved _ _ rfl rfl (fun _ => rfl) (fun _ hm => .inl hm) (fun _ => trivial) (by simp) (by simp)
    · exact raiseRedis_effect rfl rfl (setConsumer_pending s c _ rfl) (fun _ hm => .inl hm) (by simp)
  · cases h

theorem acquireLock_effect (h : acquireLock s t l = some next) : RedisEffect lease t s l next := by
  unfold acquireLock at h
  split at h
  · rename_i c
    simp only at h
    split_ifs at h
    obtain rfl := Option.some.inj h
    exact receiveLoop_effect rfl rfl (setConsumer_pending s c _ rfl) rfl (by simp)
  · rename_i c delivery identity
    simp only at h
    split_ifs at h
    obtain rfl := Option.some.inj h
    exact .moved _ _ rfl rfl (setConsumer_pending s c _ rfl) (fun _ hm => .inl hm) (fun ho => ⟨ho, nofun⟩)
      (by simp) (by simp)
  · rename_i c
    simp only at h
    split_ifs at h <;> obtain rfl := Option.some.inj h
    · exact .moved _ _ rfl rfl (fun _ => rfl) (fun _ hm => .inl hm) (fun _ => trivial) (by simp) (by simp)
    · exact .moved _ _ rfl rfl (setConsumer_pending s c _ rfl) (fun _ hm => .inl hm)
        (fun _ => trivial) (by simp)
        (by simp)
  · cases h

omit [DecidableEq C] [DecidableEq T] in
theorem mem_sent {command : RedisCommand C} (h : command ∈ s.orphans ++ l.command.toList) :
    command ∈ s.orphans ∨ l.command = some command := by
  rcases List.mem_append.mp h with hm | hm
  · exact .inl hm
  · exact .inr (by simpa using hm)

theorem raiseAwait_effect (h : raiseAwait s t l = some next) : RedisEffect lease t s l next := by
  unfold raiseAwait at h
  split at h
  all_goals first
    | cases h; done
    | obtain rfl := Option.some.inj h
  · exact raiseRedis_effect rfl rfl (fun _ => rfl) (fun _ hm => mem_sent hm) (by simp)
  · exact raiseRedis_effect rfl rfl (fun _ => rfl) (fun _ hm => mem_sent hm) (by simp)
  · exact raiseRedis_effect rfl rfl (fun _ => rfl) (fun _ hm => mem_sent hm) (by simp)
  · exact raiseRedis_effect rfl rfl (fun _ => rfl) (fun _ hm => mem_sent hm) (by simp)
  · exact raiseRedis_effect rfl rfl (fun _ => rfl) (fun _ hm => mem_sent hm) (by simp)
  · rename_i c
    exact raiseRedis_effect rfl rfl (setConsumer_pending _ c _ rfl) (fun _ hm => mem_sent hm) (by simp)
  · rename_i c _ _
    exact raiseRedis_effect rfl rfl (setConsumer_pending _ c _ rfl) (fun _ hm => mem_sent hm) (by simp)

theorem redisStep_effect {act : RedisAct C} (h : redisStep lease t s l act = some next) :
    RedisEffect lease t s l next := by
  cases act with
  | receive c =>
      cases l with
      | idle =>
          obtain rfl := Option.some.inj h
          exact .moved _ _ rfl rfl (fun _ => rfl) (fun _ hm => .inl hm) (fun _ => trivial) (by simp)
            (by simp)
      | _ => cases h
  | acknowledge index =>
      simp only [redisStep] at h
      split at h
      · rename_i delivery hdelivery
        split_ifs at h <;> obtain rfl := Option.some.inj h
        · exact .moved _ _ rfl rfl (fun _ => rfl) (fun _ hm => .inl hm) (fun _ => trivial) (by simp)
            (by simp)
        · exact .moved _ _ rfl rfl (fun _ => rfl) (fun _ hm => .inl hm)
            (fun _ => ⟨delivery, hdelivery, rfl, rfl⟩) (by simp) (by simp)
      · cases h
  | renew c =>
      cases l with
      | idle =>
          obtain rfl := Option.some.inj h
          exact .moved _ _ rfl rfl (fun _ => rfl) (fun _ hm => .inl hm) (fun _ => trivial) (by simp)
            (by simp)
      | _ => cases h
  | acquire => exact acquireLock_effect h
  | execute =>
      simp only [redisStep] at h
      split at h
      · cases h
      · rename_i command hcommand
        obtain rfl := Option.some.inj h
        exact .executed command hcommand
  | resend =>
      simp only [redisStep] at h
      split at h
      · obtain rfl := Option.some.inj h
        exact .moved _ _ rfl rfl (fun _ => rfl) (fun _ hm => mem_sent hm) (fun _ => trivial) (by simp)
          (by simp [RedisPhase.withReply])
      · obtain rfl := Option.some.inj h
        exact .moved _ _ rfl rfl (fun _ => rfl) (fun _ hm => mem_sent hm) (fun _ => trivial) (by simp)
          (by simp [RedisPhase.withReply])
      · rename_i c delivery identity reply
        obtain rfl := Option.some.inj h
        exact .moved _ _ rfl rfl (fun _ => rfl) (fun _ hm => mem_sent hm) (fun ho => ⟨ho.1, nofun⟩)
          (by simp)
          (by simp [RedisPhase.withReply])
      · obtain rfl := Option.some.inj h
        exact .moved _ _ rfl rfl (fun _ => rfl) (fun _ hm => mem_sent hm) (fun _ => trivial) (by simp)
          (by simp [RedisPhase.withReply])
      · cases h
  | reply => exact processReply_effect h
  | raises => exact raiseAwait_effect h

end Calls

section Runs

variable {p q : RedisPool C T}

structure RedisInv (p : RedisPool C T) : Prop where
  server : ServerOk p.shared.server
  removals : ∀ r ∈ p.shared.server.removals, Issued p.shared r.consumer r.delivery r.identity
  deliveries : ∀ x ∈ p.shared.deliveries, DeliveryOk p.shared.server x
  orphans : ∀ command ∈ p.shared.orphans, CommandOk p.shared command
  phases : ∀ t, PhaseOk p.shared t (p.loc t)
  pending : ∀ c identity index, (identity, index) ∈ (p.shared.consumers c).pending ↔
    ∃ x, p.shared.deliveries[index]? = some x ∧ x.consumer = c ∧ x.identity = identity ∧ x.settled = false
  keys : ∀ c, ((p.shared.consumers c).pending.map (·.1)).Nodup
  -- a delivery is settled by the reply of its own run of the script
  settled : ∀ index x, p.shared.deliveries[index]? = some x → x.settled = true →
    ∃ t, ⟨x.identity, x.consumer, index, some t⟩ ∈ p.shared.server.removals ∧
      p.loc t = .acknowledged index

theorem redisInv_init : RedisInv (RedisPool.init C T) where
  server := Redis.streamOk_empty
  removals := by simp [RedisPool.init]
  deliveries := by simp [RedisPool.init]
  orphans := by simp [RedisPool.init]
  phases t := trivial
  pending := by simp [RedisPool.init]
  keys c := .nil
  settled := by simp [RedisPool.init]

-- What a step keeps for the calls that do not take it.
structure RedisGrows (s s' : RedisShared C T) : Prop where
  server : ServerGrows s.server s'.server
  issued : ∀ c delivery identity, Issued s c delivery identity → Issued s' c delivery identity

theorem PhaseOk.grows {s s' : RedisShared C T} {t : T} {l : RedisPhase C} (h : PhaseOk s t l)
    (hs : RedisGrows s s') : PhaseOk s' t l := by
  unfold PhaseOk at h ⊢
  split at h
  · exact GrantOk.grows h hs.server
  · exact GrantOk.grows h hs.server
  · exact hs.issued _ _ _ h
  · exact ⟨hs.issued _ _ _ h.1, fun hr => hs.server.removals _ (h.2 hr)⟩
  · trivial

theorem CommandOk.grows {s s' : RedisShared C T} {command : RedisCommand C} (h : CommandOk s command)
    (hs : RedisGrows s s') : CommandOk s' command := by
  cases command with
  | ownedAck c delivery identity => exact hs.issued _ _ _ h
  | xautoclaim => trivial
  | xreadgroup => trivial
  | ownedRenewBatch => trivial

theorem phaseOk_command {s : RedisShared C T} {t : T} {l : RedisPhase C} (h : PhaseOk s t l)
    {command : RedisCommand C} (hc : l.command = some command) : CommandOk s command := by
  unfold RedisPhase.command at hc
  split at hc <;> first | cases hc; done | obtain rfl := Option.some.inj hc
  · trivial
  · trivial
  · exact h.1
  · trivial

theorem phaseOk_reply {s s' : RedisShared C T} {t : T} {l : RedisPhase C} (h : PhaseOk s t l)
    {command : RedisCommand C} (hc : l.command = some command) {reply : RedisReply}
    (hr : ReplyOk s'.server (some t) command reply)
    (hs : RedisGrows s s') : PhaseOk s' t (l.withReply (some reply)) := by
  unfold RedisPhase.command at hc
  split at hc <;> first | cases hc; done | obtain rfl := Option.some.inj hc
  · cases reply with
    | claimed cursor entry grant =>
        cases entry with
        | none => trivial
        | some entry => exact hr
    | _ => trivial
  · cases reply with
    | read entry grant =>
        cases entry with
        | none => trivial
        | some entry => exact hr
    | _ => trivial
  · refine ⟨hs.issued _ _ _ h.1, fun heq => ?_⟩
    obtain rfl := Option.some.inj heq
    exact hr
  · trivial

variable [DecidableEq C]

-- A step of the server that leaves the deliveries alone.
omit [DecidableEq C] in
theorem RedisInv.served (hi : RedisInv p) (hok : ServerOk q.shared.server)
    (hgrows : ServerGrows p.shared.server q.shared.server)
    (hremovals : ∀ r ∈ q.shared.server.removals, Issued p.shared r.consumer r.delivery r.identity)
    (hdeliveries : q.shared.deliveries = p.shared.deliveries)
    (hpending : ∀ c, (q.shared.consumers c).pending = (p.shared.consumers c).pending)
    (horphans : ∀ command ∈ q.shared.orphans, command ∈ p.shared.orphans)
    (hphases : ∀ t, q.loc t = p.loc t ∨
      PhaseOk q.shared t (q.loc t) ∧ ∀ index, p.loc t ≠ .acknowledged index) : RedisInv q := by
  have hissued : ∀ c delivery identity, Issued p.shared c delivery identity →
      Issued q.shared c delivery identity := by
    intro c delivery identity h
    unfold Issued
    rw [hdeliveries]
    exact h
  have hall : RedisGrows p.shared q.shared := ⟨hgrows, hissued⟩
  refine ⟨hok, fun r hr => hissued _ _ _ (hremovals r hr), ?_, ?_, ?_, ?_, ?_, ?_⟩
  · intro x hx
    exact GrantOk.grows (hi.deliveries x (hdeliveries ▸ hx)) hgrows
  · intro command hm
    exact (hi.orphans command (horphans command hm)).grows hall
  · intro t
    rcases hphases t with heq | ⟨hok, -⟩
    · rw [heq]
      exact (hi.phases t).grows hall
    · exact hok
  · intro c
    rw [hdeliveries, hpending]
    exact hi.pending c
  · intro c
    rw [hpending]
    exact hi.keys c
  · rw [hdeliveries]
    intro index x hx hsettled
    obtain ⟨t, hr, hloc⟩ := hi.settled index x hx hsettled
    refine ⟨t, hgrows.removals _ hr, ?_⟩
    rcases hphases t with heq | ⟨-, hne⟩
    · rw [heq, hloc]
    · exact absurd hloc (hne index)

-- What a command removes was issued for a delivery.
theorem RedisInv.removed (hi : RedisInv p) {issuer : Option T} {command : RedisCommand C}
    (hcommand : CommandOk p.shared command) :
    ∀ r ∈ (runCommand lease p.shared.server issuer command).1.removals,
      Issued p.shared r.consumer r.delivery r.identity := by
  obtain ⟨-, -, -, heq | ⟨c, delivery, identity, rfl, -, heq⟩⟩ :=
    runCommand_spec lease issuer hi.server command
  · rw [heq]
    exact hi.removals
  · intro r hr
    rw [heq] at hr
    rcases List.mem_append.mp hr with hr | hr
    · exact hi.removals r hr
    · rw [List.mem_singleton.mp hr]
      exact hcommand

variable [DecidableEq T]

omit [DecidableEq C] [DecidableEq T] in
theorem phaseOk_congr {s s' : RedisShared C T} {t : T} {l : RedisPhase C} (hserver : s'.server = s.server)
    (hdeliveries : s'.deliveries = s.deliveries) (h : PhaseOk s t l) : PhaseOk s' t l := by
  refine h.grows ⟨by rw [hserver]; exact .refl _, fun c delivery identity hi => ?_⟩
  unfold Issued
  rw [hdeliveries]
  exact hi

-- A step that moves one call and leaves the server and the deliveries alone.
omit [DecidableEq C] in
theorem RedisInv.moved (hi : RedisInv p) {t : T} {s' : RedisShared C T} {l' : RedisPhase C}
    (server : s'.server = p.shared.server) (deliveries : s'.deliveries = p.shared.deliveries)
    (pending : ∀ c, (s'.consumers c).pending = (p.shared.consumers c).pending)
    (orphans : ∀ command ∈ s'.orphans, command ∈ p.shared.orphans ∨ (p.loc t).command = some command)
    (phase : PhaseOk p.shared t l') (hopen : ∀ index, p.loc t ≠ .acknowledged index) :
    RedisInv (p.move t s' l') := by
  have hissued : ∀ c delivery identity, Issued p.shared c delivery identity →
      Issued s' c delivery identity := by
    intro c delivery identity h
    unfold Issued
    rw [deliveries]
    exact h
  refine ⟨?_, ?_, ?_, ?_, ?_, ?_, ?_, ?_⟩ <;> simp only [Pool.move_shared, server, deliveries, pending]
  · exact hi.server
  · exact fun r hr => hissued _ _ _ (hi.removals r hr)
  · exact hi.deliveries
  · intro command hm
    have hgrows : RedisGrows p.shared s' := ⟨by rw [server]; exact .refl _, hissued⟩
    rcases orphans command hm with hm | hm
    · exact (hi.orphans command hm).grows hgrows
    · exact (phaseOk_command (hi.phases t) hm).grows hgrows
  · exact Pool.forall_loc_move (P := PhaseOk s') (phaseOk_congr server deliveries phase)
      fun t' _ => phaseOk_congr server deliveries (hi.phases t')
  · exact hi.pending
  · exact hi.keys
  · intro index x hx hsettled
    obtain ⟨t', hr, hloc⟩ := hi.settled index x hx hsettled
    refine ⟨t', hr, ?_⟩
    have ht : t' ≠ t := by
      rintro rfl
      exact hopen index hloc
    rw [Pool.move_loc_ne _ _ _ ht, hloc]

-- The entries that a consumer has in flight index its deliveries that are not settled.
def Unsettled (c : C) (x : RedisDelivery C) : Prop := x.consumer = c ∧ x.settled = false

omit [DecidableEq C] [DecidableEq T] in
theorem RedisInv.indexes (hi : RedisInv p) (c : C) :
    Indexes (p.shared.consumers c).pending p.shared.deliveries (·.identity) (Unsettled c) where
  mem identity index := by
    rw [hi.pending]
    constructor
    · rintro ⟨x, hx, hc, hid, hsettled⟩
      exact ⟨x, hx, hid, hc, hsettled⟩
    · rintro ⟨x, hx, hid, hc, hsettled⟩
      exact ⟨x, hx, hc, hid, hsettled⟩
  keys := hi.keys c

omit [DecidableEq C] [DecidableEq T] in
theorem mem_of_indexes {c : C} {pending : List (Nat × Nat)} {deliveries : List (RedisDelivery C)}
    (h : Indexes pending deliveries (·.identity) (Unsettled c)) (identity index : Nat) :
    (identity, index) ∈ pending ↔
      ∃ x, deliveries[index]? = some x ∧ x.consumer = c ∧ x.identity = identity ∧ x.settled = false := by
  rw [h.mem]
  constructor
  · rintro ⟨x, hx, hid, hc, hsettled⟩
    exact ⟨x, hx, hc, hid, hsettled⟩
  · rintro ⟨x, hx, hc, hid, hsettled⟩
    exact ⟨x, hx, hid, hc, hsettled⟩

-- A reply becomes a delivery that is pending.
theorem RedisInv.delivered (hi : RedisInv p) {t : T} {s' : RedisShared C T} {c : C}
    {entry : StreamEntry Bytes} {grant : Nat} {redelivered : Bool}
    (hgrant : GrantOk p.shared.server c entry grant redelivered)
    (hopen : ∀ index, p.loc t ≠ .acknowledged index)
    (hnew : entry.id ∉ (p.shared.consumers c).pending.map (·.1)) (server : s'.server = p.shared.server)
    (orphans : s'.orphans = p.shared.orphans)
    (deliveries : s'.deliveries =
      p.shared.deliveries ++ [⟨c, entry.id, entry.payload, redelivered, false, grant⟩])
    (pending : ∀ key, (s'.consumers key).pending =
      if key = c then (p.shared.consumers c).pending ++ [(entry.id, p.shared.deliveries.length)]
      else (p.shared.consumers key).pending) :
    RedisInv (p.move t s' (.received p.shared.deliveries.length)) := by
  have hgrows : RedisGrows p.shared s' := by
    refine ⟨by rw [server]; exact .refl _, ?_⟩
    rintro c' delivery identity ⟨x, hx, hc, hid⟩
    refine ⟨x, ?_, hc, hid⟩
    rw [deliveries]
    exact (getElem?_concat _ _ _ _).mpr (.inl hx)
  have hindexes : ∀ key, Indexes (s'.consumers key).pending s'.deliveries (·.identity) (Unsettled key) := by
    intro key
    rw [pending, deliveries]
    by_cases hkey : key = c
    · subst hkey
      rw [if_pos rfl]
      have hlive : Unsettled key ⟨key, entry.id, entry.payload, redelivered, false, grant⟩ := ⟨rfl, rfl⟩
      exact (hi.indexes key).append_live hlive hnew
    · rw [if_neg hkey]
      exact (hi.indexes key).append_other fun h => hkey h.1.symm
  refine ⟨?_, ?_, ?_, ?_, ?_, ?_, ?_, ?_⟩ <;> simp only [Pool.move_shared]
  · rw [server]
    exact hi.server
  · rw [server]
    exact fun r hr => hgrows.issued _ _ _ (hi.removals r hr)
  · rw [server, deliveries]
    intro x hx
    rcases List.mem_append.mp hx with hx | hx
    · exact hi.deliveries x hx
    · rw [List.mem_singleton.mp hx]
      exact hgrant
  · rw [orphans]
    exact fun command hm => (hi.orphans command hm).grows hgrows
  · exact Pool.forall_loc_move (P := PhaseOk s') trivial fun t' _ => (hi.phases t').grows hgrows
  · exact fun key => mem_of_indexes (hindexes key)
  · exact fun key => (hindexes key).keys
  · intro index x hx hsettled
    rw [deliveries] at hx
    rcases (getElem?_concat _ _ _ _).mp hx with hx | ⟨rfl, rfl⟩
    · obtain ⟨t', hr, hloc⟩ := hi.settled index x hx hsettled
      refine ⟨t', by rw [server]; exact hr, ?_⟩
      have ht : t' ≠ t := by
        rintro rfl
        exact hopen index hloc
      rw [Pool.move_loc_ne _ _ _ ht, hloc]
    · cases hsettled

-- Two removals of one entry are the same.
omit [DecidableEq C] [DecidableEq T] in
theorem removal_unique {s : RedisServer C T} (h : ServerOk s) {r r' : Removal C T} (hr : r ∈ s.removals)
    (hr' : r' ∈ s.removals) (hid : r.identity = r'.identity) : r = r' :=
  List.inj_on_of_nodup_map h.once hr hr' hid

-- The reply of a successful run of the script settles the delivery, which was not settled.
theorem RedisInv.settle (hi : RedisInv p) {t : T} {s' : RedisShared C T} {c : C} {delivery identity : Nat}
    (hl : p.loc t = .acking c delivery identity (some (.acked 1))) (server : s'.server = p.shared.server)
    (orphans : s'.orphans = p.shared.orphans)
    (deliveries : s'.deliveries = p.shared.deliveries.modify delivery fun x => { x with settled := true })
    (pending : ∀ key, (s'.consumers key).pending =
      if key = c then (p.shared.consumers c).pending.filter (·.1 ≠ identity)
      else (p.shared.consumers key).pending) :
    RedisInv (p.move t s' (.acknowledged delivery)) := by
  obtain ⟨⟨x, hx, hxc, hxid⟩, hremoval⟩ :
    PhaseOk p.shared t (.acking c delivery identity (some (.acked 1))) :=
    hl ▸ hi.phases t
  have hremoved := hremoval rfl
  have hget : ∀ index, s'.deliveries[index]? =
      if index = delivery then (p.shared.deliveries[index]?).map fun x => { x with settled := true }
      else p.shared.deliveries[index]? := by
    intro index
    rw [deliveries, List.getElem?_modify]
    by_cases hi : delivery = index
    · subst hi
      simp
    · simp [hi, Ne.symm hi]
  have hunsettled : x.settled = false := by
    by_contra hsettled
    obtain ⟨t', hr, hloc⟩ := hi.settled delivery x hx (by simpa using hsettled)
    have heq := removal_unique hi.server hr hremoved hxid
    simp only [Removal.mk.injEq, Option.some.injEq] at heq
    rw [heq.2.2.2, hl] at hloc
    cases hloc
  have hindexes : ∀ key, Indexes (s'.consumers key).pending s'.deliveries (·.identity) (Unsettled key) := by
    intro key
    rw [pending, deliveries]
    by_cases hkey : key = c
    · subst hkey
      rw [if_pos rfl, ← hxid]
      exact (hi.indexes key).modify_live hx ⟨hxc, hunsettled⟩ fun h => nomatch h.2
    · rw [if_neg hkey]
      exact (hi.indexes key).modify_other hx (fun h => hkey (h.1.symm.trans hxc)) fun h => nomatch h.2
  have hgrows : RedisGrows p.shared s' := by
    refine ⟨by rw [server]; exact .refl _, ?_⟩
    rintro c' index key ⟨y, hy, hc, hid⟩
    by_cases hindex : index = delivery
    · refine ⟨{ y with settled := true }, ?_, hc, hid⟩
      rw [hget, if_pos hindex, hy]
      rfl
    · refine ⟨y, ?_, hc, hid⟩
      rw [hget, if_neg hindex, hy]
  have hback : ∀ index y, s'.deliveries[index]? = some y → ∃ z, p.shared.deliveries[index]? = some z ∧
      y.consumer = z.consumer ∧ y.identity = z.identity ∧ DeliveryOk p.shared.server y ∧
      (index ≠ delivery → y = z) ∧ (index = delivery → y.settled = true) := by
    intro index y hy
    rw [hget] at hy
    split_ifs at hy with hindex
    · obtain ⟨z, hz, rfl⟩ := Option.map_eq_some_iff.mp hy
      exact ⟨z, hz, rfl, rfl, hi.deliveries z (List.mem_of_getElem? hz), fun hne => absurd hindex hne,
        fun _ => rfl⟩
    · exact ⟨y, hy, rfl, rfl, hi.deliveries y (List.mem_of_getElem? hy), fun _ => rfl,
        fun heq => absurd heq hindex⟩
  refine ⟨?_, ?_, ?_, ?_, ?_, ?_, ?_, ?_⟩ <;> simp only [Pool.move_shared]
  · rw [server]
    exact hi.server
  · rw [server]
    exact fun r hr => hgrows.issued _ _ _ (hi.removals r hr)
  · rw [server]
    intro y hy
    obtain ⟨index, hindex⟩ := List.mem_iff_getElem?.mp hy
    obtain ⟨z, -, -, -, hok, -⟩ := hback index y hindex
    exact hok
  · rw [orphans]
    exact fun command hm => (hi.orphans command hm).grows hgrows
  · exact Pool.forall_loc_move (P := PhaseOk s') trivial fun t' _ => (hi.phases t').grows hgrows
  · exact fun key => mem_of_indexes (hindexes key)
  · exact fun key => (hindexes key).keys
  · intro index y hy hsettled
    rw [server]
    obtain ⟨z, hz, hc, hid, -, hsame, -⟩ := hback index y hy
    by_cases hindex : index = delivery
    · subst hindex
      obtain rfl := Option.some.inj (hx.symm.trans hz)
      refine ⟨t, ?_, Pool.move_loc_self _ _ _ _⟩
      rw [hc, hid, hxc, hxid]
      exact hremoved
    · obtain rfl := hsame hindex
      obtain ⟨t', hr, hloc⟩ := hi.settled index y hz hsettled
      refine ⟨t', hr, ?_⟩
      have ht : t' ≠ t := by
        rintro rfl
        rw [hl] at hloc
        cases hloc
      rw [Pool.move_loc_ne _ _ _ ht, hloc]

theorem redisInv_step (p : RedisPool C T) (act : (T × RedisAct C) ⊕ RedisEvent C) (q : RedisPool C T)
    (hi : RedisInv p) (h : redisPoolStep lease p act = some q) : RedisInv q := by
  obtain ⟨t, act⟩ | event := act
  · obtain ⟨s, l, hl, rfl⟩ := Pool.step_task h
    have heffect := redisStep_effect hl
    generalize hphase : p.loc t = phase at heffect
    cases heffect with
    | moved _ _ server deliveries pending orphans phase' hopen hnew =>
        subst hphase
        exact hi.moved server deliveries pending orphans (phase' (hi.phases t)) hopen
    | executed command hcommand =>
        subst hphase
        have hcmd := phaseOk_command (hi.phases t) hcommand
        obtain ⟨hok, hgrows, hreply, -⟩ := runCommand_spec lease (some t) hi.server command
        refine hi.served hok hgrows (hi.removed hcmd) rfl (fun _ => rfl) (fun _ hm => hm) fun t' => ?_
        by_cases ht : t' = t
        · subst ht
          right
          rw [Pool.move_loc_self]
          refine ⟨phaseOk_reply (hi.phases t') hcommand hreply ⟨hgrows, fun _ _ _ hissued => hissued⟩, ?_⟩
          intro index hloc
          rw [hloc] at hcommand
          cases hcommand
        · exact .inl (Pool.move_loc_ne _ _ _ ht)
    | delivered _ c entry grant redelivered hphase' hnew server orphans deliveries pending =>
        refine hi.delivered ?_ ?_ hnew server orphans deliveries pending
        · have hok := hphase ▸ hi.phases t
          rcases hphase' with ⟨rfl, _, _, rfl⟩ | ⟨rfl, rfl⟩ <;> exact hok
        · rw [hphase]
          rcases hphase' with ⟨-, _, _, rfl⟩ | ⟨-, rfl⟩ <;> simp
    | settled _ c delivery identity hphase' server orphans deliveries pending =>
        exact hi.settle (hphase.trans hphase') server orphans deliveries pending
  · obtain ⟨s, hs, rfl⟩ := Pool.step_env h
    cases event with
    | publish payload =>
        obtain rfl := Option.some.inj hs
        refine hi.served (hi.server.xadd payload)
          ⟨⟨[], ?_⟩, ?_, fun _ hr => hr⟩ hi.removals rfl (fun _ => rfl)
          (fun _ hm => hm) fun t => .inl rfl
        · simp [StreamGroup.xadd]
        · intro e he
          exact List.mem_append_left _ he
    | tick elapsed =>
        obtain rfl := Option.some.inj hs
        exact hi.served { hi.server with } ⟨⟨[], by simp⟩, fun _ he => he, fun _ hr => hr⟩ hi.removals rfl
          (fun _ => rfl) (fun _ hm => hm) fun t => .inl rfl
    | orphan index =>
        simp only [redisEvent] at hs
        split at hs
        · cases hs
        · rename_i command hcommand
          obtain rfl := Option.some.inj hs
          obtain ⟨hok, hgrows, -⟩ := runCommand_spec lease none hi.server command
          have hcmd := hi.orphans command (List.mem_of_getElem? hcommand)
          exact hi.served hok hgrows (hi.removed hcmd) rfl (fun _ => rfl)
            (fun _ hm => List.mem_of_mem_eraseIdx hm) fun t => .inl rfl
    | aclose c =>
        obtain rfl := Option.some.inj hs
        exact hi.served hi.server (.refl _) hi.removals rfl (setConsumer_pending _ c _ rfl) (fun _ hm => hm)
          fun t => .inl rfl

end Runs

end Scaffold.Queue
