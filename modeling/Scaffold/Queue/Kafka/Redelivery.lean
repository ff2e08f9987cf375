import Scaffold.Queue.Kafka.Theorems

namespace Scaffold.Queue

open Machine Ledger

variable {M P T : Type}

section Shared

variable {s s' : KafkaShared M P T}

-- The assignments of a partition follow each other in the generations of the group.
structure KafkaSessions (s : KafkaShared M P T) : Prop where
  held : ∀ m k n, (s.consumers m).position k = some n →
    s.holder k = some m ∧ ∃ g, (s.consumers m).joined = some g ∧ s.heldIn k = some g
  current : ∀ k g, s.heldIn k = some g → g ≤ s.group
  before : ∀ d ∈ s.deliveries, ∃ g, s.heldIn d.partition = some g ∧ d.group ≤ g
  session : ∀ d ∈ s.deliveries, s.heldIn d.partition = some d.group → ∀ m, s.holder d.partition = some m →
    d.source = m ∧ d.generation = (s.consumers m).generation
  joined : ∀ d ∈ s.deliveries, d.generation = (s.consumers d.source).generation →
    ∀ g, (s.consumers d.source).joined = some g → d.group = g
  fresh : ∀ m, (s.consumers m).joined = none → (s.consumers m).stopped = false →
    ∀ d ∈ s.deliveries, d.source = m → d.generation < (s.consumers m).generation

-- What is committed and what is read of a partition go hand in hand, and nothing that is read again
-- is trusted.
structure KafkaOrder (s : KafkaShared M P T) : Prop where
  frontier : ∀ d ∈ s.deliveries, ∀ r ∈ s.log d.partition, r.offset < d.offset →
    r.offset < startOffset s d.partition
  behind : ∀ m k n, (s.consumers m).position k = some n → (s.consumers m).paused k = false →
    n ≤ startOffset s k
  ahead : ∀ m k n, (s.consumers m).position k = some n → startOffset s k ≤ n
  beyond : ∀ m k n, (s.consumers m).position k = some n →
    ((s.consumers m).trustedPartitions k = true ∨ (s.consumers m).paused k = true) →
    ∀ d ∈ s.deliveries, d.partition = k → d.offset < n
  last : ∀ d ∈ s.deliveries, ∀ e ∈ s.deliveries, d.partition = e.partition → d.group = e.group →
    d.settled = false → e.offset ≤ d.offset
  started : ∀ d ∈ s.deliveries, d.group = s.group → d.settled = false →
    startOffset s d.partition ≤ d.offset + 1
  flags : ∀ (i j : Nat) (x y : KafkaDelivery M P), i < j → s.deliveries[i]? = some x →
    s.deliveries[j]? = some y → x.partition = y.partition → x.offset = y.offset →
      y.possiblyRedelivered = true

-- The delivery for which a commit was sent and to which its answer has not come.
structure SentFor (s : KafkaShared M P T) (commit : KafkaCommit P) (index : Nat)
    (d : KafkaDelivery M P) : Prop where
  delivery : s.deliveries[index]? = some d
  commit : commit = ⟨d.partition, d.offset + 1, d.group⟩
  unsettled : d.settled = false

structure KafkaOnce (p : KafkaPool M P T) : Prop where
  sessions : KafkaSessions p.shared
  order : KafkaOrder p.shared
  calls : ∀ t m index commit reply, p.loc t = .committing m index commit reply →
    ∃ d, SentFor p.shared commit index d ∧
      (reply = some true → commit.offset ≤ startOffset p.shared commit.partition)
  orphans : ∀ commit ∈ p.shared.orphans, ∃ index d, SentFor p.shared commit index d ∧
    index ∈ p.shared.acknowledges ∧ ∀ t m sent reply, p.loc t ≠ .committing m index sent reply

theorem kafkaOnce_init (stored : P → Option Nat) (earliest : P → Nat) :
    KafkaOnce (KafkaPool.init M P T stored earliest) where
  sessions := ⟨nofun, nofun, nofun, nofun, nofun, fun _ _ _ => nofun⟩
  order := ⟨nofun, nofun, nofun, nofun, nofun, nofun, nofun⟩
  calls := nofun
  orphans := nofun

-- `acknowledge` is called once on a delivery.
def CalledOnce (p : KafkaPool M P T) : (T × KafkaAct M P) ⊕ KafkaEvent M P → Prop
  | .inl (_, .acknowledge index) => index ∉ p.shared.acknowledges
  | _ => True

theorem CalledOnce.oneCall {first : P → Nat} {p : KafkaPool M P T} (hi : KafkaInv first p)
    {act : (T × KafkaAct M P) ⊕ KafkaEvent M P} (h : CalledOnce p act) : OneCall p act := by
  unfold OneCall
  split
  · rename_i index
    intro t m commit reply hloc
    obtain ⟨d, hcall⟩ : KafkaPhaseOk p.shared (.committing m index commit reply) := hloc ▸ hi.phases t
    exact h hcall.acknowledges
  · trivial

-- A step in which no partition changes hands.
theorem KafkaSessions.kept (h : KafkaSessions s)
    (hdeliveries : ∀ d' ∈ s'.deliveries, ∃ d ∈ s.deliveries, ∃ settled, d' = { d with settled := settled })
    (hholder : s'.holder = s.holder) (hheldIn : s'.heldIn = s.heldIn) (hgroup : s.group ≤ s'.group)
    (hconsumers : ∀ m, (s'.consumers m).generation = (s.consumers m).generation ∧
      (s'.consumers m).joined = (s.consumers m).joined ∧
        (s'.consumers m).stopped = (s.consumers m).stopped ∧
      ∀ k n, (s'.consumers m).position k = some n → ∃ n, (s.consumers m).position k = some n) :
    KafkaSessions s' := by
  refine ⟨?_, ?_, ?_, ?_, ?_, ?_⟩
  · intro m k n hposition
    obtain ⟨n', hold⟩ := (hconsumers m).2.2.2 k n hposition
    rw [hholder, hheldIn, (hconsumers m).2.1]
    exact h.held m k n' hold
  · intro k g hg
    rw [hheldIn] at hg
    exact Nat.le_trans (h.current k g hg) hgroup
  · intro d' hd'
    obtain ⟨d, hd, settled, rfl⟩ := hdeliveries d' hd'
    rw [hheldIn]
    exact h.before d hd
  · intro d' hd' hheld m hm
    obtain ⟨d, hd, settled, rfl⟩ := hdeliveries d' hd'
    rw [hheldIn] at hheld
    rw [hholder] at hm
    rw [(hconsumers m).1]
    exact h.session d hd hheld m hm
  · intro d' hd' hgeneration g hg
    obtain ⟨d, hd, settled, rfl⟩ := hdeliveries d' hd'
    rw [(hconsumers d.source).1] at hgeneration
    rw [(hconsumers d.source).2.1] at hg
    exact h.joined d hd hgeneration g hg
  · intro m hnone hstopped d' hd' hsource
    obtain ⟨d, hd, settled, rfl⟩ := hdeliveries d' hd'
    rw [(hconsumers m).2.1] at hnone
    rw [(hconsumers m).2.2.1] at hstopped
    rw [(hconsumers m).1]
    exact h.fresh m hnone hstopped d hd hsource

-- A step that leaves the records, the commits and the deliveries alone.
theorem KafkaOrder.kept (h : KafkaOrder s) (hlog : s'.log = s.log) (hstart : startOffset s' = startOffset s)
    (hdeliveries : s'.deliveries = s.deliveries) (hgroup : s'.group = s.group)
    (hconsumers : ∀ m k n, (s'.consumers m).position k = some n →
      ((s.consumers m).position k = some n ∧ (s'.consumers m).paused k = (s.consumers m).paused k ∧
        (s'.consumers m).trustedPartitions k = (s.consumers m).trustedPartitions k) ∨
      (n = startOffset s k ∧ (s'.consumers m).paused k = false ∧
        (s'.consumers m).trustedPartitions k = false)) : KafkaOrder s' := by
  refine ⟨?_, ?_, ?_, ?_, ?_, ?_, ?_⟩
  · rw [hdeliveries, hlog, hstart]
    exact h.frontier
  · intro m k n hposition hpaused
    rw [hstart]
    obtain ⟨hold, hsame, -⟩ | ⟨rfl, -, -⟩ := hconsumers m k n hposition
    · exact h.behind m k n hold (hsame ▸ hpaused)
    · exact Nat.le_refl _
  · intro m k n hposition
    rw [hstart]
    obtain ⟨hold, -, -⟩ | ⟨rfl, -, -⟩ := hconsumers m k n hposition
    · exact h.ahead m k n hold
    · exact Nat.le_refl _
  · intro m k n hposition htrusted
    rw [hdeliveries]
    obtain ⟨hold, hpaused, hsame⟩ | ⟨-, hpaused, hsame⟩ := hconsumers m k n hposition
    · rw [hpaused, hsame] at htrusted
      exact h.beyond m k n hold htrusted
    · rw [hpaused, hsame] at htrusted
      obtain htrusted | htrusted := htrusted <;> cases htrusted
  · rw [hdeliveries]
    exact h.last
  · rw [hdeliveries, hgroup, hstart]
    exact h.started
  · rw [hdeliveries]
    exact h.flags

end Shared

section Steps

variable {p q : KafkaPool M P T} {first : P → Nat}

-- An unsettled delivery of the current assignment of a partition is the pending one.
theorem unsettled_held (hi : KafkaInv first p) (hsessions : KafkaSessions p.shared) {index : Nat}
    {d : KafkaDelivery M P} (hd : p.shared.deliveries[index]? = some d)
    (hunsettled : d.settled = false) {m : M}
    {n : Nat} (hposition : (p.shared.consumers m).position d.partition = some n)
    (hgroup : ∀ g, p.shared.heldIn d.partition = some g → g ≤ d.group) :
    (p.shared.consumers m).paused d.partition = true ∧ n = d.offset + 1 := by
  have hmem := List.mem_of_getElem? hd
  obtain ⟨hholder, g, -, hheldIn⟩ := hsessions.held m d.partition n hposition
  obtain ⟨g', hheldIn', hle⟩ := hsessions.before d hmem
  obtain rfl := Option.some.inj (hheldIn.symm.trans hheldIn')
  obtain rfl : g = d.group := Nat.le_antisymm (hgroup g hheldIn) hle
  obtain ⟨hsource, hgeneration⟩ := hsessions.session d hmem hheldIn m hholder
  have hpending : (d.partition, index) ∈ (p.shared.consumers m).pending :=
    ((hi.pending m).mem d.partition index).mpr ⟨d, hd, rfl, hsource, hgeneration, hunsettled⟩
  exact hi.held m d.partition index d n hpending hd hposition

variable [DecidableEq P]

theorem startOffset_commit (s : KafkaShared M P T) (commit : KafkaCommit P) (k : P) :
    startOffset { s with committed := Function.update s.committed commit.partition (some commit.offset) } k =
      if k = commit.partition then commit.offset else startOffset s k := by
  by_cases hk : k = commit.partition
  · subst hk
    simp [startOffset]
  · simp [startOffset, hk]

-- A commit that the broker accepts never takes back another one.
theorem startOffset_applied (h : KafkaOnce p) {commit : KafkaCommit P} {index : Nat}
    {d : KafkaDelivery M P} (hsent : SentFor p.shared commit index d) (k : P) :
    startOffset p.shared k ≤ startOffset (commitOffset p.shared commit).1 k := by
  obtain ⟨hgroup, heq⟩ | ⟨-, heq⟩ := commitOffset_cases p.shared commit
  · rw [heq, startOffset_commit]
    split
    · rename_i hk
      obtain rfl := hsent.commit
      rw [hk]
      exact h.order.started d (List.mem_of_getElem? hsent.delivery) hgroup hsent.unsettled
    · exact Nat.le_refl _
  · exact Nat.le_of_eq (by rw [heq])

theorem KafkaOrder.applied (hi : KafkaInv first p) (h : KafkaOnce p) {commit : KafkaCommit P} {index : Nat}
    {d : KafkaDelivery M P} (hsent : SentFor p.shared commit index d) :
    KafkaOrder (commitOffset p.shared commit).1 := by
  have hstart := startOffset_applied h hsent
  obtain ⟨hgroup, heq⟩ | ⟨-, heq⟩ := commitOffset_cases p.shared commit
  · obtain rfl := hsent.commit
    have hmem := List.mem_of_getElem? hsent.delivery
    rw [heq] at hstart ⊢
    refine ⟨?_, ?_, ?_, h.order.beyond, h.order.last, ?_, h.order.flags⟩
    · intro e he r hr hlt
      exact Nat.lt_of_lt_of_le (h.order.frontier e he r hr hlt) (hstart e.partition)
    · intro m k n hposition hpaused
      exact Nat.le_trans (h.order.behind m k n hposition hpaused) (hstart k)
    · intro m k n hposition
      rw [startOffset_commit]
      split
      · rename_i hk
        subst hk
        have hheld : ∀ g, p.shared.heldIn d.partition = some g → g ≤ d.group := by
          intro g hg
          have hle := h.sessions.current d.partition g hg
          have hsame : d.group = p.shared.group := hgroup
          omega
        obtain ⟨-, rfl⟩ := unsettled_held hi h.sessions hsent.delivery hsent.unsettled hposition hheld
        exact Nat.le_refl _
      · exact h.order.ahead m k n hposition
    · intro e he hegroup hunsettled
      rw [startOffset_commit]
      split
      · rename_i hk
        have hle := h.order.last e he d hmem hk (hegroup.trans hgroup.symm) hunsettled
        exact Nat.succ_le_succ hle
      · exact h.order.started e he hegroup hunsettled
  · rw [heq]
    exact h.order

theorem KafkaOnce.applied (hi : KafkaInv first p) (h : KafkaOnce p) {commit : KafkaCommit P} {index : Nat}
    {d : KafkaDelivery M P} (hsent : SentFor p.shared commit index d) :
    KafkaOnce { p with shared := (commitOffset p.shared commit).1 } := by
  have hstart := startOffset_applied h hsent
  have horder := KafkaOrder.applied hi h hsent
  obtain ⟨-, heq⟩ | ⟨-, heq⟩ := commitOffset_cases p.shared commit
  · rw [heq] at hstart horder ⊢
    refine ⟨?_, horder, ?_, ?_⟩
    · exact h.sessions.kept (fun x hx => ⟨x, hx, x.settled, rfl⟩) rfl rfl (Nat.le_refl _)
        fun m => ⟨rfl, rfl, rfl, fun _ n hn => ⟨n, hn⟩⟩
    · intro t m i sent reply hloc
      obtain ⟨x, ⟨hx, hcommit, hunsettled⟩, hreply⟩ := h.calls t m i sent reply hloc
      exact ⟨x, ⟨hx, hcommit, hunsettled⟩, fun htrue => Nat.le_trans (hreply htrue) (hstart _)⟩
    · intro sent hmem
      obtain ⟨i, x, ⟨hx, hcommit, hunsettled⟩, hrest⟩ := h.orphans sent hmem
      exact ⟨i, x, ⟨hx, hcommit, hunsettled⟩, hrest⟩
  · rw [heq]
    exact h

omit [DecidableEq P] in
theorem SameButLock.session {c c' : KafkaConsumer P T} (h : SameButLock c c') :
    c'.generation = c.generation ∧ c'.joined = c.joined ∧ c'.stopped = c.stopped ∧
      ∀ k n, c'.position k = some n → ∃ n, c.position k = some n := by
  obtain ⟨lock, closed, rfl⟩ := h
  exact ⟨rfl, rfl, rfl, fun _ n hn => ⟨n, hn⟩⟩

omit [DecidableEq P] in
theorem SameButLock.reading {c c' : KafkaConsumer P T} (h : SameButLock c c') {k : P} {n : Nat}
    (hn : c'.position k = some n) :
    c.position k = some n ∧ c'.paused k = c.paused k ∧ c'.trustedPartitions k = c.trustedPartitions k := by
  obtain ⟨lock, closed, rfl⟩ := h
  exact ⟨hn, rfl, rfl⟩

section Move

variable [DecidableEq T]

-- A step of a call that leaves the broker and the deliveries alone.
omit [DecidableEq P] in
theorem KafkaOnce.moved (hi : KafkaInv first p) (h : KafkaOnce p) {t : T} {s' : KafkaShared M P T}
    {l' : KafkaPhase M P}
    (hstate : ∃ consumers orphans acknowledges, s' = { p.shared with
      consumers := consumers, orphans := orphans, acknowledges := acknowledges })
    (hacknowledges : p.shared.acknowledges ⊆ s'.acknowledges)
    (hconsumers : ∀ m, SameButLock (p.shared.consumers m) (s'.consumers m))
    (horphans : ∀ commit ∈ s'.orphans, commit ∈ p.shared.orphans ∨
      (p.loc t).request = some commit ∧ ∀ m index sent reply, l' ≠ .committing m index sent reply)
    (hcall : ∀ m index commit reply, l' = .committing m index commit reply →
      (∃ d, SentFor p.shared commit index d) ∧
      (reply = some true → commit.offset ≤ startOffset p.shared commit.partition) ∧
      ((∃ m sent reply, p.loc t = .committing m index sent reply) ∨ index ∉ p.shared.acknowledges)) :
    KafkaOnce (p.move t s' l') := by
  obtain ⟨consumers, orphans, acknowledges, rfl⟩ := hstate
  refine ⟨?_, ?_, ?_, ?_⟩
  · exact h.sessions.kept (fun x hx => ⟨x, hx, x.settled, rfl⟩) rfl rfl (Nat.le_refl _)
      fun m => (hconsumers m).session
  · exact h.order.kept rfl rfl rfl rfl fun m k n hn => .inl ((hconsumers m).reading hn)
  · intro t' m index commit reply hloc
    by_cases ht : t' = t
    · subst ht
      rw [Pool.move_loc_self] at hloc
      obtain ⟨⟨d, hd⟩, hreply, -⟩ := hcall m index commit reply hloc
      exact ⟨d, ⟨hd.delivery, hd.commit, hd.unsettled⟩, hreply⟩
    · rw [Pool.move_loc_ne _ _ _ ht] at hloc
      obtain ⟨d, hd, hreply⟩ := h.calls t' m index commit reply hloc
      exact ⟨d, ⟨hd.delivery, hd.commit, hd.unsettled⟩, hreply⟩
  · intro commit hcommit
    obtain hold | ⟨hrequest, hended⟩ := horphans commit hcommit
    · obtain ⟨index, d, hd, hindex, hnone⟩ := h.orphans commit hold
      refine ⟨index, d, ⟨hd.delivery, hd.commit, hd.unsettled⟩, hacknowledges hindex, ?_⟩
      intro t' m sent reply hloc
      by_cases ht : t' = t
      · subst ht
        rw [Pool.move_loc_self] at hloc
        obtain ⟨-, -, ⟨m', sent', reply', hbefore⟩ | hnew⟩ := hcall m index sent reply hloc
        · exact hnone t' m' sent' reply' hbefore
        · exact hnew hindex
      · rw [Pool.move_loc_ne _ _ _ ht] at hloc
        exact hnone t' m sent reply hloc
    · unfold KafkaPhase.request at hrequest
      split at hrequest
      · rename_i m index sent hloc
        obtain rfl := Option.some.inj hrequest
        obtain ⟨d, hd, -⟩ := h.calls t m index sent none hloc
        obtain ⟨x, hcallOk⟩ : KafkaPhaseOk p.shared (.committing m index sent none) := hloc ▸ hi.phases t
        refine ⟨index, d, ⟨hd.delivery, hd.commit, hd.unsettled⟩, hacknowledges hcallOk.acknowledges, ?_⟩
        intro t' m' other reply hloc'
        by_cases ht : t' = t
        · subst ht
          rw [Pool.move_loc_self] at hloc'
          exact hended m' index other reply hloc'
        · rw [Pool.move_loc_ne _ _ _ ht] at hloc'
          exact ht (hi.single t' t m' m index other sent reply none hloc' hloc)
      · cases hrequest

end Move

section Taken

variable [DecidableEq M] {m : M} {k : P} {r : KafkaRecord} {group : Nat} {s' : KafkaShared M P T}

omit [DecidableEq M] in
theorem TakenSpec.mem (hspec : TakenSpec p.shared s' m k r group) {x : KafkaDelivery M P}
    (hx : x ∈ s'.deliveries) : x ∈ p.shared.deliveries ∨ x = freshDelivery p.shared m k r group := by
  rw [hspec.deliveries] at hx
  exact (List.mem_append.mp hx).imp_right List.mem_singleton.mp

theorem TakenSpec.consumers (hspec : TakenSpec p.shared s' m k r group) (m' : M) :
    (s'.consumers m').generation = (p.shared.consumers m').generation ∧
      (s'.consumers m').joined = (p.shared.consumers m').joined ∧
      (s'.consumers m').stopped = (p.shared.consumers m').stopped ∧
      (s'.consumers m').trustedPartitions = (p.shared.consumers m').trustedPartitions := by
  by_cases hm : m' = m
  · subst hm
    obtain ⟨lock, closed, heq⟩ := hspec.consumer
    rw [heq]
    exact ⟨rfl, rfl, rfl, rfl⟩
  · obtain ⟨lock, closed, heq⟩ := hspec.others m' hm
    rw [heq]
    exact ⟨rfl, rfl, rfl, rfl⟩

-- A position after the step is the one after the record, or was there before.
theorem TakenSpec.positions (hspec : TakenSpec p.shared s' m k r group) {m' : M} {k' : P} {n : Nat}
    (h : (s'.consumers m').position k' = some n) :
    (m' = m ∧ k' = k ∧ n = r.offset + 1 ∧ (s'.consumers m').paused k' = true) ∨
      (p.shared.consumers m').position k' = some n ∧
        (s'.consumers m').paused k' = (p.shared.consumers m').paused k' ∧ (m' = m → k' ≠ k) := by
  by_cases hm : m' = m
  · subst hm
    obtain ⟨lock, closed, heq⟩ := hspec.consumer
    rw [heq] at h ⊢
    by_cases hk : k' = k
    · subst hk
      simp only [KafkaConsumer.taken, Function.update_self] at h ⊢
      exact .inl ⟨trivial, trivial, (Option.some.inj h).symm, trivial⟩
    · simp only [KafkaConsumer.taken, Function.update_of_ne hk] at h ⊢
      exact .inr ⟨h, trivial, fun _ => hk⟩
  · obtain ⟨lock, closed, heq⟩ := hspec.others m' hm
    rw [heq] at h ⊢
    exact .inr ⟨h, rfl, fun heq => absurd heq hm⟩

theorem KafkaSessions.taken (h : KafkaSessions p.shared) (hspec : TakenSpec p.shared s' m k r group)
    (hjoined : (p.shared.consumers m).joined = some group) {n : Nat}
    (hposition : (p.shared.consumers m).position k = some n) : KafkaSessions s' := by
  obtain ⟨hholder, g, hg, hheldIn⟩ := h.held m k n hposition
  obtain rfl := Option.some.inj (hjoined.symm.trans hg)
  obtain ⟨-, -, hgroup, hheld, hholders⟩ := hspec.broker
  refine ⟨?_, ?_, ?_, ?_, ?_, ?_⟩
  · intro m' k' n' hn'
    rw [hholders, hheld, (hspec.consumers m').2.1]
    obtain ⟨rfl, rfl, -⟩ | ⟨hold, -⟩ := hspec.positions hn'
    · exact ⟨hholder, group, hjoined, hheldIn⟩
    · exact h.held m' k' n' hold
  · rw [hheld, hgroup]
    exact h.current
  · intro x hx
    rw [hheld]
    obtain hx | rfl := hspec.mem hx
    · exact h.before x hx
    · exact ⟨group, hheldIn, Nat.le_refl _⟩
  · intro x hx hxheld m' hm'
    rw [hheld] at hxheld
    rw [hholders] at hm'
    rw [(hspec.consumers m').1]
    obtain hx | rfl := hspec.mem hx
    · exact h.session x hx hxheld m' hm'
    · obtain rfl := Option.some.inj (hholder.symm.trans hm')
      exact ⟨rfl, rfl⟩
  · intro x hx hgeneration g' hg'
    rw [(hspec.consumers x.source).1] at hgeneration
    rw [(hspec.consumers x.source).2.1] at hg'
    obtain hx | rfl := hspec.mem hx
    · exact h.joined x hx hgeneration g' hg'
    · exact Option.some.inj (hjoined.symm.trans hg')
  · intro m' hnone hstopped x hx hsource
    rw [(hspec.consumers m').2.1] at hnone
    rw [(hspec.consumers m').2.2.1] at hstopped
    rw [(hspec.consumers m').1]
    obtain hx | rfl := hspec.mem hx
    · exact h.fresh m' hnone hstopped x hx hsource
    · have hsame : m = m' := hsource
      subst hsame
      cases hjoined.symm.trans hnone

theorem KafkaOrder.taken (hi : KafkaInv first p) (h : KafkaOnce p)
    (hspec : TakenSpec p.shared s' m k r group)
    (hjoined : (p.shared.consumers m).joined = some group) (hnext : nextRecord p.shared m k = some r) :
    KafkaOrder s' := by
  obtain ⟨n, hposition, hpaused, hr, hle, hbefore⟩ := hi.nextRecord_spec hnext
  obtain ⟨hholder, g, hg, hheldIn⟩ := h.sessions.held m k n hposition
  obtain rfl := Option.some.inj (hjoined.symm.trans hg)
  have hstart : startOffset s' = startOffset p.shared := by
    funext k'
    rw [startOffset, startOffset, hspec.broker.1, hspec.broker.2.1]
  have hahead := h.order.ahead m k n hposition
  -- what was read before is not beyond the first record that is not committed
  have hmax : ∀ x ∈ p.shared.deliveries, x.partition = k → x.offset ≤ r.offset := by
    intro x hx hk
    by_contra hlt
    have hcommitted := h.order.frontier x hx r (hk ▸ hr) (Nat.lt_of_not_le hlt)
    rw [hk] at hcommitted
    omega
  refine ⟨?_, ?_, ?_, ?_, ?_, ?_, ?_⟩
  · intro x hx older holder hlt
    rw [hspec.log] at holder
    rw [hstart]
    obtain hx | rfl := hspec.mem hx
    · exact h.order.frontier x hx older holder hlt
    · exact Nat.lt_of_lt_of_le (hbefore older holder hlt) (h.order.behind m k n hposition hpaused)
  · intro m' k' n' hn' hpaused'
    rw [hstart]
    obtain ⟨-, -, -, htrue⟩ | ⟨hold, hsame, -⟩ := hspec.positions hn'
    · cases htrue.symm.trans hpaused'
    · exact h.order.behind m' k' n' hold (hsame ▸ hpaused')
  · intro m' k' n' hn'
    rw [hstart]
    obtain ⟨-, rfl, rfl, -⟩ | ⟨hold, -⟩ := hspec.positions hn'
    · omega
    · exact h.order.ahead m' k' n' hold
  · intro m' k' n' hn' htrusted x hx hk
    obtain ⟨-, rfl, rfl, -⟩ | ⟨hold, hsame, hne⟩ := hspec.positions hn'
    · obtain hx | rfl := hspec.mem hx
      · exact Nat.lt_succ_of_le (hmax x hx hk)
      · exact Nat.lt_succ_self _
    · rw [hsame, (hspec.consumers m').2.2.2] at htrusted
      obtain hx | rfl := hspec.mem hx
      · exact h.order.beyond m' k' n' hold htrusted x hx hk
      · -- the partition has one reader
        obtain rfl : k = k' := hk
        have hother := (h.sessions.held m' k n' hold).1
        obtain rfl := Option.some.inj (hholder.symm.trans hother)
        exact absurd rfl (hne rfl)
  · intro x hx y hy hpartition hgroup hunsettled
    obtain hx | rfl := hspec.mem hx
    · obtain hy | rfl := hspec.mem hy
      · exact h.order.last x hx y hy hpartition hgroup hunsettled
      · -- an unsettled delivery of this assignment would have the partition paused
        obtain rfl : x.partition = k := hpartition
        obtain ⟨index, hindex⟩ := List.mem_iff_getElem?.mp hx
        have hcurrent : ∀ g, p.shared.heldIn x.partition = some g → g ≤ x.group := by
          intro g hg
          obtain rfl := Option.some.inj (hheldIn.symm.trans hg)
          exact Nat.le_of_eq hgroup.symm
        obtain ⟨hheld, -⟩ := unsettled_held hi h.sessions hindex hunsettled hposition hcurrent
        cases hheld.symm.trans hpaused
    · obtain hy | rfl := hspec.mem hy
      · exact hmax y hy hpartition.symm
      · exact Nat.le_refl _
  · intro x hx hgroup hunsettled
    rw [hspec.broker.2.2.1] at hgroup
    rw [hstart]
    obtain hx | rfl := hspec.mem hx
    · exact h.order.started x hx hgroup hunsettled
    · have hnew : (freshDelivery p.shared m k r group).offset = r.offset := rfl
      have hpart : (freshDelivery p.shared m k r group).partition = k := rfl
      rw [hnew, hpart]
      omega
  · intro i j x y hij hx hy hpartition hoffset
    rw [hspec.deliveries] at hx hy
    obtain hy | ⟨rfl, rfl⟩ := (getElem?_concat _ _ _ _).mp hy
    · obtain hx | ⟨rfl, -⟩ := (getElem?_concat _ _ _ _).mp hx
      · exact h.order.flags i j x y hij hx hy hpartition hoffset
      · have hj := (List.getElem?_eq_some_iff.mp hy).1
        omega
    · obtain hx | ⟨rfl, -⟩ := (getElem?_concat _ _ _ _).mp hx
      · by_contra hflag
        have htrusted : (p.shared.consumers m).trustedPartitions k = true := by
          simpa [freshDelivery] using hflag
        have hlt := h.order.beyond m k n hposition (.inl htrusted) x (List.mem_of_getElem? hx) hpartition
        have hsame : x.offset = r.offset := hoffset
        omega
      · omega

variable [DecidableEq T]

theorem KafkaOnce.taken (hi : KafkaInv first p) (h : KafkaOnce p) {t : T}
    (hjoined : (p.shared.consumers m).joined = some group) (hnext : nextRecord p.shared m k = some r) :
    KafkaOnce (p.move t (takeRecord p.shared t m k r group).1 (takeRecord p.shared t m k r group).2) := by
  obtain ⟨hphase, hspec⟩ := takeRecord_fresh t r group (hi.free_of_next hnext)
  rw [hphase]
  generalize (takeRecord p.shared t m k r group).1 = s' at hspec
  obtain ⟨n, hposition, -⟩ := hi.nextRecord_spec hnext
  have hsent : ∀ {commit : KafkaCommit P} {index : Nat} {d : KafkaDelivery M P},
      SentFor p.shared commit index d → SentFor s' commit index d := by
    intro commit index d hd
    refine ⟨?_, hd.commit, hd.unsettled⟩
    rw [hspec.deliveries]
    exact (getElem?_concat _ _ _ _).mpr (.inl hd.delivery)
  have hstart : startOffset s' = startOffset p.shared := by
    funext k'
    rw [startOffset, startOffset, hspec.broker.1, hspec.broker.2.1]
  refine ⟨h.sessions.taken hspec hjoined hposition, .taken hi h hspec hjoined hnext, ?_, ?_⟩
  · intro t' m' index commit reply hloc
    have ht : t' ≠ t := by
      rintro rfl
      rw [Pool.move_loc_self] at hloc
      cases hloc
    rw [Pool.move_loc_ne _ _ _ ht] at hloc
    obtain ⟨d, hd, hreply⟩ := h.calls t' m' index commit reply hloc
    refine ⟨d, hsent hd, ?_⟩
    rw [Pool.move_shared, hstart]
    exact hreply
  · intro commit hcommit
    rw [Pool.move_shared, hspec.orphans] at hcommit
    obtain ⟨index, d, hd, hindex, hnone⟩ := h.orphans commit hcommit
    refine ⟨index, d, hsent hd, ?_, ?_⟩
    · rw [Pool.move_shared, hspec.acknowledges]
      exact hindex
    · intro t' m' sent reply hloc
      have ht : t' ≠ t := by
        rintro rfl
        rw [Pool.move_loc_self] at hloc
        cases hloc
      rw [Pool.move_loc_ne _ _ _ ht] at hloc
      exact hnone t' m' sent reply hloc

end Taken

section Settled

variable [DecidableEq M] [DecidableEq T]

omit [DecidableEq T] in
theorem settleKafka_mem {s : KafkaShared M P T} {m : M} {index : Nat} {k : P} {x : KafkaDelivery M P}
    (hx : x ∈ (settleKafka s m index k).1.deliveries) :
    ∃ d ∈ s.deliveries, ∃ settled, x = { d with settled := settled } ∧
      (x.settled = false → d.settled = false) := by
  obtain ⟨i, hi⟩ := List.mem_iff_getElem?.mp hx
  obtain ⟨d, hd, rfl⟩ := getElem?_modify_some.mp hi
  refine ⟨d, List.mem_of_getElem? hd, ?_⟩
  split
  · exact ⟨true, rfl, nofun⟩
  · exact ⟨d.settled, rfl, fun h => h⟩

omit [DecidableEq T] in
theorem settleKafka_getElem {s : KafkaShared M P T} {m : M} {index i : Nat} {k : P} {x : KafkaDelivery M P}
    (hx : (settleKafka s m index k).1.deliveries[i]? = some x) :
    ∃ d, s.deliveries[i]? = some d ∧ ∃ settled, x = { d with settled := settled } := by
  obtain ⟨d, hd, rfl⟩ := getElem?_modify_some.mp hx
  refine ⟨d, hd, ?_⟩
  split
  · exact ⟨true, rfl⟩
  · exact ⟨d.settled, rfl⟩

omit [DecidableEq T] in
theorem settleKafka_session (s : KafkaShared M P T) (m : M) (index : Nat) (k : P) (m' : M) :
    ((settleKafka s m index k).1.consumers m').generation = (s.consumers m').generation ∧
      ((settleKafka s m index k).1.consumers m').joined = (s.consumers m').joined ∧
      ((settleKafka s m index k).1.consumers m').stopped = (s.consumers m').stopped ∧
      ((settleKafka s m index k).1.consumers m').position = (s.consumers m').position := by
  rw [settleKafka_consumers]
  split
  · rename_i hm
    rw [hm]
    exact ⟨rfl, rfl, rfl, rfl⟩
  · exact ⟨rfl, rfl, rfl, rfl⟩

omit [DecidableEq T] in
theorem settleKafka_reading (s : KafkaShared M P T) (m : M) (index : Nat) (k : P) (m' : M) (k' : P) :
    (m' = m ∧ k' = k) ∨
      (((settleKafka s m index k).1.consumers m').paused k' = (s.consumers m').paused k' ∧
        ((settleKafka s m index k).1.consumers m').trustedPartitions k' =
          (s.consumers m').trustedPartitions k') := by
  rw [settleKafka_consumers]
  split
  · rename_i hm
    by_cases hk : k' = k
    · exact .inl ⟨hm, hk⟩
    · right
      rw [hm]
      simp only [KafkaConsumer.settled, Function.update_of_ne hk]
      exact ⟨trivial, trivial⟩
  · exact .inr ⟨rfl, rfl⟩

omit [DecidableEq T] in
-- The partition goes on at the offset that is committed now.
theorem KafkaOrder.settled (h : KafkaOrder p.shared) {m : M} {index : Nat} {d : KafkaDelivery M P}
    (hheld : ∀ n, (p.shared.consumers m).position d.partition = some n →
      (p.shared.consumers m).paused d.partition = true ∧ n = d.offset + 1)
    (hcommitted : d.offset + 1 ≤ startOffset p.shared d.partition) :
    KafkaOrder (settleKafka p.shared m index d.partition).1 := by
  have hposition :
    ∀ {m' k' n}, ((settleKafka p.shared m index d.partition).1.consumers m').position k' = some n →
      (p.shared.consumers m').position k' = some n := by
    intro m' k' n hn
    rw [(settleKafka_session p.shared m index d.partition m').2.2.2] at hn
    exact hn
  refine ⟨?_, ?_, ?_, ?_, ?_, ?_, ?_⟩
  · intro x hx r hr hlt
    obtain ⟨y, hy, settled, rfl, -⟩ := settleKafka_mem hx
    exact h.frontier y hy r hr hlt
  · intro m' k' n hn hpaused
    have hold := hposition hn
    obtain ⟨rfl, rfl⟩ | ⟨hsame, -⟩ := settleKafka_reading p.shared m index d.partition m' k'
    · obtain ⟨-, rfl⟩ := hheld n hold
      exact hcommitted
    · exact h.behind m' k' n hold (hsame ▸ hpaused)
  · intro m' k' n hn
    exact h.ahead m' k' n (hposition hn)
  · intro m' k' n hn htrusted x hx hk
    have hold := hposition hn
    obtain ⟨y, hy, settled, rfl, -⟩ := settleKafka_mem hx
    obtain ⟨rfl, rfl⟩ | ⟨hpaused, hsame⟩ := settleKafka_reading p.shared m index d.partition m' k'
    · obtain ⟨hpaused, -⟩ := hheld n hold
      exact h.beyond m' d.partition n hold (.inr hpaused) y hy hk
    · rw [hpaused, hsame] at htrusted
      exact h.beyond m' k' n hold htrusted y hy hk
  · intro x hx y hy hpartition hgroup hunsettled
    obtain ⟨x', hx', settled, rfl, hopen⟩ := settleKafka_mem hx
    obtain ⟨y', hy', settled', rfl, -⟩ := settleKafka_mem hy
    exact h.last x' hx' y' hy' hpartition hgroup (hopen hunsettled)
  · intro x hx hgroup hunsettled
    obtain ⟨x', hx', settled, rfl, hopen⟩ := settleKafka_mem hx
    exact h.started x' hx' hgroup (hopen hunsettled)
  · intro i j x y hij hx hy hpartition hoffset
    obtain ⟨x', hx', settled, rfl⟩ := settleKafka_getElem hx
    obtain ⟨y', hy', settled', rfl⟩ := settleKafka_getElem hy
    exact h.flags i j x' y' hij hx' hy' hpartition hoffset

theorem KafkaOnce.settled (hi : KafkaInv first p) (h : KafkaOnce p) {t : T} {m : M} {index : Nat}
    {commit : KafkaCommit P} {d : KafkaDelivery M P}
    (hloc : p.loc t = .committing m index commit (some true))
    (hd : p.shared.deliveries[index]? = some d)
    (hcurrent : d.generation = (p.shared.consumers m).generation) :
    KafkaOnce (p.move t (settleKafka p.shared m index d.partition).1 (.acknowledged index)) := by
  obtain ⟨x, hcall⟩ : KafkaPhaseOk p.shared (.committing m index commit (some true)) := hloc ▸ hi.phases t
  obtain rfl := Option.some.inj (hd.symm.trans hcall.delivery)
  obtain ⟨x, hsent, hreply⟩ := h.calls t m index commit (some true) hloc
  obtain rfl := Option.some.inj (hd.symm.trans hsent.delivery)
  have hpending : (d.partition, index) ∈ (p.shared.consumers m).pending :=
    ((hi.pending m).mem d.partition index).mpr ⟨d, hd, rfl, hcall.source, hcurrent, hsent.unsettled⟩
  have hcommitted : d.offset + 1 ≤ startOffset p.shared d.partition := by
    have hle := hreply rfl
    rw [hsent.commit] at hle
    exact hle
  have hother : ∀ {sent : KafkaCommit P} {i : Nat} {y : KafkaDelivery M P}, index ≠ i →
    SentFor p.shared sent i y →
      SentFor (settleKafka p.shared m index d.partition).1 sent i y := by
    intro sent i y hne hy
    exact ⟨getElem?_modify_some.mpr ⟨y, hy.delivery, (if_neg hne).symm⟩, hy.commit, hy.unsettled⟩
  refine ⟨?_, ?_, ?_, ?_⟩
  · refine h.sessions.kept ?_ rfl rfl (Nat.le_refl _) fun m' => ?_
    · intro y hy
      obtain ⟨z, hz, settled, heq, -⟩ := settleKafka_mem hy
      exact ⟨z, hz, settled, heq⟩
    · obtain ⟨hgeneration, hjoined, hstopped, hposition⟩ :=
        settleKafka_session p.shared m index d.partition m'
      exact ⟨hgeneration, hjoined, hstopped, fun k n hn => ⟨n, hposition ▸ hn⟩⟩
  · exact h.order.settled (fun n hn => hi.held m d.partition index d n hpending hd hn) hcommitted
  · intro t' m' i sent reply hloc'
    have ht : t' ≠ t := by
      rintro rfl
      rw [Pool.move_loc_self] at hloc'
      cases hloc'
    rw [Pool.move_loc_ne _ _ _ ht] at hloc'
    have hne : index ≠ i := by
      rintro rfl
      exact ht (hi.single t' t m' m index sent commit reply (some true) hloc' hloc)
    obtain ⟨y, hy, hyreply⟩ := h.calls t' m' i sent reply hloc'
    exact ⟨y, hother hne hy, hyreply⟩
  · intro sent hmem
    obtain ⟨i, y, hy, hindex, hnone⟩ := h.orphans sent hmem
    have hne : index ≠ i := by
      rintro rfl
      exact hnone t m commit (some true) hloc
    refine ⟨i, y, hother hne hy, hindex, ?_⟩
    intro t' m' sent' reply hloc'
    have ht : t' ≠ t := by
      rintro rfl
      rw [Pool.move_loc_self] at hloc'
      cases hloc'
    rw [Pool.move_loc_ne _ _ _ ht] at hloc'
    exact hnone t' m' sent' reply hloc'

end Settled

section Events

variable [DecidableEq M]

omit [DecidableEq M] [DecidableEq P] in
-- A step outside every call, in which the broker applies nothing.
theorem KafkaOnce.event (h : KafkaOnce p) {s' : KafkaShared M P T} (hsessions : KafkaSessions s')
    (horder : KafkaOrder s') (hstart : startOffset s' = startOffset p.shared)
    (hdeliveries : s'.deliveries = p.shared.deliveries)
    (horphans : ∀ commit ∈ s'.orphans, commit ∈ p.shared.orphans)
    (hacknowledges : s'.acknowledges = p.shared.acknowledges) : KafkaOnce { p with shared := s' } := by
  have hsent : ∀ {commit : KafkaCommit P} {index : Nat} {d : KafkaDelivery M P},
      SentFor p.shared commit index d → SentFor s' commit index d := by
    intro commit index d hd
    exact ⟨hdeliveries ▸ hd.delivery, hd.commit, hd.unsettled⟩
  refine ⟨hsessions, horder, ?_, ?_⟩
  · intro t m index commit reply hloc
    obtain ⟨d, hd, hreply⟩ := h.calls t m index commit reply hloc
    refine ⟨d, hsent hd, ?_⟩
    rw [hstart]
    exact hreply
  · intro commit hcommit
    obtain ⟨index, d, hd, hindex, hnone⟩ := h.orphans commit (horphans commit hcommit)
    refine ⟨index, d, hsent hd, ?_, hnone⟩
    rw [hacknowledges]
    exact hindex

omit [DecidableEq M] in
theorem KafkaOrder.produced (hi : KafkaInv first p) (h : KafkaOrder p.shared) {k : P} {r : KafkaRecord}
    (hlater : ∀ older ∈ p.shared.log k, older.offset < r.offset) :
    KafkaOrder { p.shared with log := Function.update p.shared.log k (p.shared.log k ++ [r]) } := by
  refine ⟨?_, h.behind, h.ahead, h.beyond, h.last, h.started, h.flags⟩
  intro d hd other hother hlt
  have hlog : other ∈ Function.update p.shared.log k (p.shared.log k ++ [r]) d.partition := hother
  by_cases hk : d.partition = k
  · rw [hk, Function.update_self] at hlog
    obtain hold | hnew := List.mem_append.mp hlog
    · exact h.frontier d hd other (hk ▸ hold) hlt
    · obtain rfl := List.mem_singleton.mp hnew
      obtain ⟨record, hrecord, hoffset, -⟩ := (hi.deliveries d hd).record
      have := hlater record (hk ▸ hrecord)
      omega
  · rw [Function.update_of_ne hk] at hlog
    exact h.frontier d hd other hlog hlt

omit [DecidableEq P] in
theorem release_holder {s : KafkaShared M P T} {m m' : M} {k : P} :
    (release s m).holder k = some m' ↔ s.holder k = some m' ∧ m' ≠ m := by
  simp only [release]
  split
  · rename_i hm
    rw [hm]
    refine ⟨fun h => (nomatch h), fun ⟨h, hne⟩ => absurd (Option.some.inj h).symm hne⟩
  · rename_i hm
    refine ⟨fun h => ⟨h, ?_⟩, fun h => h.1⟩
    rintro rfl
    exact hm h

-- A consumer gives up its partitions. Its deliveries get out of date, or it never joins again.
omit [DecidableEq P] in
theorem KafkaSessions.released (hi : KafkaInv first p) (h : KafkaSessions p.shared) {m : M}
    {c : KafkaConsumer P T} (hposition : ∀ k, c.position k = none) (hjoined : c.joined = none)
    (hgeneration : (p.shared.consumers m).generation ≤ c.generation)
    (hstale : c.stopped = true ∨ (p.shared.consumers m).generation < c.generation) :
    KafkaSessions (release (setKafkaConsumer p.shared m c) m) := by
  have hself : (release (setKafkaConsumer p.shared m c) m).consumers m = c :=
    setKafkaConsumer_self p.shared m c
  have hothers : ∀ m', m' ≠ m →
      (release (setKafkaConsumer p.shared m c) m).consumers m' = p.shared.consumers m' :=
    fun m' hm => setKafkaConsumer_ne p.shared c hm
  have hold : ∀ d ∈ p.shared.deliveries, d.generation ≤ (p.shared.consumers d.source).generation :=
    fun d hd => (hi.deliveries d hd).generation
  refine ⟨?_, h.current, h.before, ?_, ?_, ?_⟩
  · intro m' k n hn
    by_cases hm : m' = m
    · subst hm
      rw [hself, hposition] at hn
      cases hn
    · rw [hothers m' hm] at hn ⊢
      obtain ⟨hholder, hrest⟩ := h.held m' k n hn
      exact ⟨release_holder.mpr ⟨hholder, hm⟩, hrest⟩
  · intro d hd hheld m' hm'
    obtain ⟨hholder, hm⟩ := release_holder.mp hm'
    rw [hothers m' hm]
    exact h.session d hd hheld m' hholder
  · intro d hd hcurrent g hg
    by_cases hm : d.source = m
    · rw [hm, hself, hjoined] at hg
      cases hg
    · rw [hothers _ hm] at hcurrent hg
      exact h.joined d hd hcurrent g hg
  · intro m' hnone hstopped d hd hsource
    by_cases hm : m' = m
    · subst hm
      rw [hself] at hstopped ⊢
      have hle := hold d hd
      rw [hsource] at hle
      obtain htrue | hlt := hstale
      · cases htrue.symm.trans hstopped
      · omega
    · rw [hothers m' hm] at hnone hstopped ⊢
      exact h.fresh m' hnone hstopped d hd hsource

-- The partitions of a new assignment are free, and their last readers are of older generations.
theorem KafkaSessions.assigned (h : KafkaSessions p.shared) {m : M} {partitions : List P}
    (hjoined : (p.shared.consumers m).joined = none) (hstopped : (p.shared.consumers m).stopped = false)
    (hfree : ∀ k ∈ partitions, p.shared.holder k = none ∧ p.shared.heldIn k ≠ some p.shared.group) :
    KafkaSessions
      { setKafkaConsumer p.shared m (onPartitionsAssigned p.shared (p.shared.consumers m) partitions) with
        holder := fun k => if k ∈ partitions then some m else p.shared.holder k
        heldIn := fun k => if k ∈ partitions then some p.shared.group else p.shared.heldIn k } := by
  have hself :=
    setKafkaConsumer_self p.shared m (onPartitionsAssigned p.shared (p.shared.consumers m) partitions)
  have hothers : ∀ m', m' ≠ m → (setKafkaConsumer p.shared m
      (onPartitionsAssigned p.shared (p.shared.consumers m) partitions)).consumers m' =
        p.shared.consumers m' :=
    fun m' hm => setKafkaConsumer_ne p.shared _ hm
  have holder : ∀ d ∈ p.shared.deliveries, d.partition ∈ partitions → d.group < p.shared.group := by
    intro d hd hk
    obtain ⟨g, hg, hle⟩ := h.before d hd
    have hcurrent := h.current d.partition g hg
    have hne : g ≠ p.shared.group := fun heq => (hfree d.partition hk).2 (heq ▸ hg)
    omega
  refine ⟨?_, ?_, ?_, ?_, ?_, ?_⟩
  · intro m' k n hn
    by_cases hm : m' = m
    · subst hm
      simp only [hself] at hn ⊢
      simp only [onPartitionsAssigned] at hn ⊢
      split at hn
      · rename_i hk
        rw [if_pos hk, if_pos hk]
        exact ⟨rfl, _, rfl, rfl⟩
      · cases hn
    · simp only [hothers m' hm] at hn ⊢
      obtain ⟨hholder, hrest⟩ := h.held m' k n hn
      have hk : k ∉ partitions := by
        intro hk
        cases hholder.symm.trans (hfree k hk).1
      rw [if_neg hk, if_neg hk]
      exact ⟨hholder, hrest⟩
  · intro k g hg
    simp only at hg
    split at hg
    · obtain rfl := Option.some.inj hg
      exact Nat.le_refl _
    · exact h.current k g hg
  · intro d hd
    simp only
    split
    · rename_i hk
      exact ⟨_, rfl, Nat.le_of_lt (holder d hd hk)⟩
    · exact h.before d hd
  · intro d hd hheld m' hm'
    simp only at hheld hm'
    split at hheld
    · rename_i hk
      have hlt := holder d hd hk
      have heq := Option.some.inj hheld
      omega
    · rename_i hk
      rw [if_neg hk] at hm'
      obtain ⟨hsource, hgeneration⟩ := h.session d hd hheld m' hm'
      refine ⟨hsource, hgeneration.trans ?_⟩
      by_cases hm : m' = m
      · subst hm
        simp only [hself]
        rfl
      · simp only [hothers m' hm]
  · intro d hd hcurrent g hg
    by_cases hm : d.source = m
    · simp only [hm, hself] at hcurrent
      have hlt := h.fresh m hjoined hstopped d hd hm
      have hsame : d.generation = (p.shared.consumers m).generation := hcurrent
      omega
    · simp only [hothers _ hm] at hcurrent hg
      exact h.joined d hd hcurrent g hg
  · intro m' hnone hstopped' d hd hsource
    by_cases hm : m' = m
    · subst hm
      simp only [hself] at hnone
      cases hnone
    · simp only [hothers m' hm] at hnone hstopped' ⊢
      exact h.fresh m' hnone hstopped' d hd hsource

-- What one consumer does to the reading of the partitions.
omit [DecidableEq P] in
theorem KafkaOrder.reconfigured (h : KafkaOrder p.shared) {s' : KafkaShared M P T} {m : M}
    {c : KafkaConsumer P T}
    (hlog : s'.log = p.shared.log) (hstart : startOffset s' = startOffset p.shared)
    (hdeliveries : s'.deliveries = p.shared.deliveries) (hgroup : s'.group = p.shared.group)
    (hconsumers : s'.consumers = Function.update p.shared.consumers m c)
    (hreading : ∀ k n, c.position k = some n →
      ((p.shared.consumers m).position k = some n ∧ c.paused k = (p.shared.consumers m).paused k ∧
        c.trustedPartitions k = (p.shared.consumers m).trustedPartitions k) ∨
      (n = startOffset p.shared k ∧ c.paused k = false ∧ c.trustedPartitions k = false)) :
        KafkaOrder s' := by
  refine h.kept hlog hstart hdeliveries hgroup fun m' k n hn => ?_
  rw [hconsumers] at hn ⊢
  by_cases hm : m' = m
  · subst hm
    rw [Function.update_self] at hn ⊢
    exact hreading k n hn
  · rw [Function.update_of_ne hm] at hn ⊢
    exact .inl ⟨hn, rfl, rfl⟩

theorem kafkaOnce_event (hi : KafkaInv first p) (h : KafkaOnce p) {event : KafkaEvent M P}
    {s' : KafkaShared M P T} (hevent : kafkaEvent p.shared event = some s') :
    KafkaOnce { p with shared := s' } := by
  have hsame : ∀ d' ∈ p.shared.deliveries, ∃ d ∈ p.shared.deliveries, ∃ settled,
    d' = { d with settled := settled } :=
    fun d hd => ⟨d, hd, d.settled, rfl⟩
  cases kafkaEvent_moved hevent with
  | produced k offset value ahead =>
      refine h.event ?_ (.produced hi h.order ahead) rfl rfl (fun _ hm => hm) rfl
      exact h.sessions.kept hsame rfl rfl (Nat.le_refl _) fun m => ⟨rfl, rfl, rfl, fun _ n hn => ⟨n, hn⟩⟩
  | orphan index commit sent =>
      obtain ⟨i, d, hd, -⟩ := h.orphans commit (List.mem_of_getElem? sent)
      have happlied := h.applied hi hd
      refine happlied.event ?_ ?_ rfl rfl (fun other hother => ?_) rfl
      · exact happlied.sessions.kept (fun d hd => ⟨d, hd, d.settled, rfl⟩) rfl rfl (Nat.le_refl _)
          fun m => ⟨rfl, rfl, rfl, fun _ n hn => ⟨n, hn⟩⟩
      · exact happlied.order.kept rfl rfl rfl rfl fun m k n hn => .inl ⟨hn, rfl, rfl⟩
      · have horphans : (commitOffset p.shared commit).1.orphans = p.shared.orphans := by
          obtain ⟨-, heq⟩ | ⟨-, heq⟩ := commitOffset_cases p.shared commit <;> rw [heq]
        show other ∈ (commitOffset p.shared commit).1.orphans
        rw [horphans]
        exact List.mem_of_mem_eraseIdx hother
  | rebalance =>
      refine h.event ?_ ?_ rfl rfl (fun _ hm => hm) rfl
      · exact h.sessions.kept hsame rfl rfl (Nat.le_succ _) fun m => ⟨rfl, rfl, rfl, fun _ n hn => ⟨n, hn⟩⟩
      · refine ⟨h.order.frontier, h.order.behind, h.order.ahead, h.order.beyond, h.order.last, ?_,
          h.order.flags⟩
        intro d hd hgroup _
        obtain ⟨g, hg, hle⟩ := h.sessions.before d hd
        have hcurrent := h.sessions.current d.partition g hg
        have hnext : d.group = p.shared.group + 1 := hgroup
        omega
  | revoked m running =>
      refine h.event ?_ ?_ rfl rfl (fun _ hm => hm) rfl
      · exact h.sessions.released hi (fun _ => rfl) rfl (Nat.le_succ _) (.inr (Nat.lt_succ_self _))
      · exact h.order.reconfigured (m := m) rfl rfl rfl rfl rfl fun _ n hn =>
          absurd hn.symm (Option.some_ne_none n)
  | assigned m partitions running outside free =>
      refine h.event ?_ ?_ rfl rfl (fun _ hm => hm) rfl
      · exact h.sessions.assigned outside running free
      · refine h.order.reconfigured (m := m) rfl rfl rfl rfl rfl fun k n hn => .inr ?_
        simp only [onPartitionsAssigned] at hn ⊢
        split at hn
        · rename_i hk
          simp [hk, (Option.some.inj hn).symm]
        · cases hn
  | aclose m =>
      refine h.event ?_ ?_ rfl rfl (fun _ hm => hm) rfl
      · refine h.sessions.kept hsame rfl rfl (Nat.le_refl _) fun m' => ?_
        by_cases hm : m' = m
        · subst hm
          rw [setKafkaConsumer_self]
          exact ⟨rfl, rfl, rfl, fun _ n hn => ⟨n, hn⟩⟩
        · rw [setKafkaConsumer_ne _ _ hm]
          exact ⟨rfl, rfl, rfl, fun _ n hn => ⟨n, hn⟩⟩
      · exact h.order.reconfigured (m := m) rfl rfl rfl rfl rfl fun k n hn => .inl ⟨hn, rfl, rfl⟩
  | stop m =>
      refine h.event ?_ ?_ rfl rfl (fun _ hm => hm) rfl
      · exact h.sessions.released hi (fun _ => rfl) rfl (Nat.le_refl _) (.inl rfl)
      · exact h.order.reconfigured (m := m) rfl rfl rfl rfl rfl fun _ n hn =>
          absurd hn.symm (Option.some_ne_none n)

end Events

section Runs

variable [DecidableEq M] [DecidableEq T]

theorem kafkaOnce_task (hi : KafkaInv first p) (h : KafkaOnce p) {t : T} {act : KafkaAct M P}
    {next : KafkaNext M P T} (honce : CalledOnce p (.inl (t, act)))
    (hstep : kafkaStep t p.shared (p.loc t) act = some next) : KafkaOnce (p.move t next.1 next.2) := by
  cases kafkaStep_effect hstep with
  | passed _ s' l' same phase =>
      obtain ⟨consumers, orphans, rfl⟩ := same.state
      refine h.moved hi ⟨_, _, _, rfl⟩ (fun _ hm => hm) same.consumers ?_ ?_
      · exact fun commit hcommit => (same.orphans commit hcommit).imp_right fun hsent => ⟨hsent, phase⟩
      · exact fun m index commit reply heq => absurd heq (phase m index commit reply)
  | called index d group delivery unsettled current joined =>
      have hgroup := h.sessions.joined d (List.mem_of_getElem? delivery) current group joined
      refine h.moved hi ⟨_, _, _, rfl⟩ (List.subset_append_left _ _) (fun _ => sameButLock_refl _)
        (fun _ hm => .inl hm) ?_
      intro m other commit reply heq
      injection heq with _ hindex hcommit hreply
      subst hindex hcommit hreply
      exact ⟨⟨d, delivery, by rw [hgroup], unsettled⟩, nofun, .inr honce⟩
  | taken m k r group phase record joined => exact h.taken hi joined record
  | executed m index commit phase =>
      obtain ⟨d, hsent, -⟩ := h.calls t m index commit none phase
      have happlied := h.applied hi hsent
      have hiapplied := hi.applied (hi.done_of_request (t := t) (by rw [phase]; rfl))
      refine happlied.moved hiapplied ⟨_, _, _, rfl⟩ (fun _ hm => hm) (fun _ => sameButLock_refl _)
        (fun _ hm => .inl hm) ?_
      intro m' other commit' reply heq
      injection heq with _ hindex hcommit hreply
      subst hindex hcommit hreply
      obtain ⟨x, hx, -⟩ := happlied.calls t m index commit none phase
      refine ⟨⟨x, hx⟩, fun htrue => ?_, .inl ⟨m, commit, none, phase⟩⟩
      obtain ⟨-, happly⟩ | ⟨-, hrefused⟩ := commitOffset_cases p.shared commit
      · exact Nat.le_of_eq (by rw [happly, startOffset_commit, if_pos rfl])
      · rw [hrefused] at htrue
        cases htrue
  | resent m index commit reply phase =>
      obtain ⟨d, hsent, -⟩ := h.calls t m index commit reply phase
      refine h.moved hi ⟨_, _, _, rfl⟩ (fun _ hm => hm) (fun _ => sameButLock_refl _)
        (fun _ hm => .inl hm) ?_
      intro m' other commit' reply' heq
      injection heq with _ hindex hcommit hreply
      subst hindex hcommit hreply
      exact ⟨⟨d, hsent⟩, nofun, .inl ⟨m, commit, reply, phase⟩⟩
  | settled m index commit d phase delivery current => exact h.settled hi phase delivery current

theorem kafkaOnce_step (hi : KafkaInv first p) (h : KafkaOnce p) {act : (T × KafkaAct M P) ⊕ KafkaEvent M P}
    (honce : CalledOnce p act) (hstep : kafkaPoolStep p act = some q) : KafkaOnce q := by
  cases act with
  | inl act =>
      obtain ⟨t, act⟩ := act
      obtain ⟨s', l', htask, rfl⟩ := Pool.step_task hstep
      exact kafkaOnce_task hi h honce htask
  | inr event =>
      obtain ⟨s', hevent, rfl⟩ := Pool.step_env hstep
      exact kafkaOnce_event hi h hevent

end Runs

end Steps

end Scaffold.Queue
