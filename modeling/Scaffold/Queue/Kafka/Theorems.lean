import Scaffold.Ledger
import Scaffold.Queue.Kafka

namespace Scaffold.Queue

open Machine Ledger

variable {M P T : Type}

section Records

variable {s s' : KafkaShared M P T}

-- A commit was sent for a delivery of this record.
def Acknowledged (s : KafkaShared M P T) (partition : P) (offset : Nat) : Prop :=
  ∃ (index : Nat) (d : KafkaDelivery M P), s.deliveries[index]? = some d ∧ d.partition = partition ∧
    d.offset = offset ∧ index ∈ s.acknowledges

-- Nothing before `n` is left to do, and no record that comes later stands before `n`.
structure DoneBelow (first : P → Nat) (s : KafkaShared M P T) (partition : P) (n : Nat) : Prop where
  bound : n ≤ first partition ∨ ∃ r ∈ s.log partition, n ≤ r.offset + 1
  acknowledged : ∀ r ∈ s.log partition, first partition ≤ r.offset → r.offset < n →
    Acknowledged s partition r.offset

-- What a step keeps of the records and the deliveries.
structure KafkaGrows (s s' : KafkaShared M P T) : Prop where
  keeps : ∀ q, ∀ r ∈ s.log q, r ∈ s'.log q
  later : ∀ q, ∀ r ∈ s'.log q, r ∈ s.log q ∨ ∀ older ∈ s.log q, older.offset < r.offset
  deliveries : ∀ (index : Nat) (d : KafkaDelivery M P), s.deliveries[index]? = some d →
    ∃ settled, s'.deliveries[index]? = some { d with settled := settled }
  acknowledges : s.acknowledges ⊆ s'.acknowledges

theorem KafkaGrows.of_eq (log : s'.log = s.log) (deliveries : s'.deliveries = s.deliveries)
    (acknowledges : s.acknowledges ⊆ s'.acknowledges) : KafkaGrows s s' where
  keeps := fun _ _ hr => log ▸ hr
  later := fun _ _ hr => .inl (log ▸ hr)
  deliveries := fun _ d hd => ⟨d.settled, deliveries ▸ hd⟩
  acknowledges := acknowledges

theorem Acknowledged.grows {q : P} {n : Nat} (h : Acknowledged s q n) (hs : KafkaGrows s s') :
    Acknowledged s' q n := by
  obtain ⟨index, d, hd, rfl, rfl, hindex⟩ := h
  obtain ⟨settled, hd'⟩ := hs.deliveries index d hd
  exact ⟨index, _, hd', rfl, rfl, hs.acknowledges hindex⟩

variable {first : P → Nat}

theorem DoneBelow.grows {q : P} {n : Nat} (h : DoneBelow first s q n) (hs : KafkaGrows s s') :
    DoneBelow first s' q n := by
  constructor
  · exact h.bound.imp_right fun ⟨r, hr, hle⟩ => ⟨r, hs.keeps q r hr, hle⟩
  · intro r hr hfirst hlt
    obtain hold | hnew := hs.later q r hr
    · exact (h.acknowledged r hold hfirst hlt).grows hs
    · obtain hbound | ⟨older, holder, hle⟩ := h.bound
      · omega
      · have := hnew older holder
        omega

-- The record of an acknowledged delivery adds itself to what is done.
theorem DoneBelow.succ {q : P} {r : KafkaRecord} (h : DoneBelow first s q r.offset) (hr : r ∈ s.log q)
    (hacknowledged : Acknowledged s q r.offset) : DoneBelow first s q (r.offset + 1) := by
  refine ⟨.inr ⟨r, hr, Nat.le_refl _⟩, fun other hother hfirst hlt => ?_⟩
  obtain hlt | heq := Nat.lt_succ_iff_lt_or_eq.mp hlt
  · exact h.acknowledged other hother hfirst hlt
  · rw [heq]
    exact hacknowledged

end Records

section Effects

variable {s s' : KafkaShared M P T} {t : T} {l : KafkaPhase M P} {next : KafkaNext M P T}
    {act : KafkaAct M P}

-- The consumers differ in the lock and in being closed only.
def SameButLock (c c' : KafkaConsumer P T) : Prop :=
  ∃ lock closed, c' = { c with lock := lock, closed := closed }

theorem sameButLock_refl (c : KafkaConsumer P T) : SameButLock c c := ⟨c.lock, c.closed, rfl⟩

-- Only locks have changed, and a commit that nobody waits for any more.
structure KafkaPassed (s : KafkaShared M P T) (l : KafkaPhase M P) (s' : KafkaShared M P T) : Prop where
  state : ∃ consumers orphans, s' = { s with consumers := consumers, orphans := orphans }
  consumers : ∀ m, SameButLock (s.consumers m) (s'.consumers m)
  orphans : ∀ commit ∈ s'.orphans, commit ∈ s.orphans ∨ l.request = some commit

theorem kafkaPassed_refl (s : KafkaShared M P T) (l : KafkaPhase M P) : KafkaPassed s l s where
  state := ⟨s.consumers, s.orphans, rfl⟩
  consumers _ := sameButLock_refl _
  orphans _ h := .inl h

variable [DecidableEq M] [DecidableEq P] [DecidableEq T]

-- Everything that a step of a call can do.
inductive KafkaEffect (t : T) (s : KafkaShared M P T) (l : KafkaPhase M P) :
    KafkaAct M P → KafkaNext M P T → Prop where
  | passed (act : KafkaAct M P) (s' : KafkaShared M P T) (l' : KafkaPhase M P) (same : KafkaPassed s l s')
      (phase : ∀ m index commit reply, l' ≠ .committing m index commit reply) :
        KafkaEffect t s l act (s', l')
  | called (index : Nat) (d : KafkaDelivery M P) (group : Nat) (delivery : s.deliveries[index]? = some d)
      (unsettled : d.settled = false) (current : d.generation = (s.consumers d.source).generation)
      (joined : (s.consumers d.source).joined = some group) :
      KafkaEffect t s l (.acknowledge index) ({ s with acknowledges := s.acknowledges ++ [index] },
        .committing d.source index ⟨d.partition, d.offset + 1, group⟩ none)
  | taken (m : M) (k : P) (r : KafkaRecord) (group : Nat) (phase : l = .getting m)
      (record : nextRecord s m k = some r) (joined : (s.consumers m).joined = some group) :
      KafkaEffect t s l (.getone k) (takeRecord s t m k r group)
  | executed (m : M) (index : Nat) (commit : KafkaCommit P) (phase : l = .committing m index commit none) :
      KafkaEffect t s l .execute
        ((commitOffset s commit).1, .committing m index commit (some (commitOffset s commit).2))
  | resent (m : M) (index : Nat) (commit : KafkaCommit P) (reply : Option Bool)
      (phase : l = .committing m index commit reply) :
      KafkaEffect t s l .resend (s, .committing m index commit none)
  | settled (m : M) (index : Nat) (commit : KafkaCommit P) (d : KafkaDelivery M P)
      (phase : l = .committing m index commit (some true)) (delivery : s.deliveries[index]? = some d)
      (current : d.generation = (s.consumers m).generation) :
      KafkaEffect t s l .reply (settleKafka s m index d.partition)

omit [DecidableEq M] [DecidableEq P] in
theorem releaseLock_same (s : KafkaShared M P T) (t : T) (m : M) :
    SameButLock (s.consumers m) ((releaseLock s t).consumers m) :=
  ⟨_, (s.consumers m).closed, rfl⟩

omit [DecidableEq P] [DecidableEq T] in
theorem setKafkaConsumer_self (s : KafkaShared M P T) (m : M) (c : KafkaConsumer P T) :
    (setKafkaConsumer s m c).consumers m = c := by
  simp [setKafkaConsumer]

omit [DecidableEq P] [DecidableEq T] in
theorem setKafkaConsumer_ne (s : KafkaShared M P T) {m m' : M} (c : KafkaConsumer P T) (h : m' ≠ m) :
    (setKafkaConsumer s m c).consumers m' = s.consumers m' := by
  simp [setKafkaConsumer, h]

theorem raiseKafka_effect (act : KafkaAct M P) (error : KafkaError) :
    KafkaEffect t s l act (raiseKafka s t error) :=
  .passed act _ _ ⟨⟨_, _, rfl⟩, fun m => releaseLock_same s t m, fun _ h => .inl h⟩ nofun

theorem raiseKafka_sent_effect (act : KafkaAct M P) (error : KafkaError) :
    KafkaEffect t s l act (raiseKafka { s with orphans := s.orphans ++ l.request.toList } t error) := by
  refine .passed act _ _ ⟨⟨_, _, rfl⟩, fun m => releaseLock_same _ t m, fun commit hcommit => ?_⟩ nofun
  obtain hold | hsent := List.mem_append.mp hcommit
  · exact .inl hold
  · exact .inr (Option.mem_toList.mp hsent)

theorem acquireKafka_effect {m : M} (act : KafkaAct M P) :
    KafkaEffect t s l act (setKafkaConsumer s m { s.consumers m with lock := some t }, .getting m) := by
  refine .passed act _ _ ⟨⟨_, s.orphans, rfl⟩, fun m' => ?_, fun _ h => .inl h⟩ nofun
  by_cases hm : m' = m
  · subst hm
    rw [setKafkaConsumer_self]
    exact ⟨_, _, rfl⟩
  · rw [setKafkaConsumer_ne _ _ hm]
    exact sameButLock_refl _

theorem callCommit_effect {index : Nat} {d : KafkaDelivery M P} (hd : s.deliveries[index]? = some d) :
    KafkaEffect t s l (.acknowledge index) (callCommit s index d) := by
  by_cases hopen : d.settled ∨ (s.consumers d.source).closed ∨
    d.generation ≠ (s.consumers d.source).generation
  · simp only [callCommit, if_pos hopen]
    exact .passed _ s _ (kafkaPassed_refl s l) nofun
  · obtain ⟨hsettled, hrest⟩ := not_or.mp hopen
    obtain ⟨-, hcurrent⟩ := not_or.mp hrest
    cases hjoined : (s.consumers d.source).joined with
    | none =>
        simp only [callCommit, if_neg hopen, hjoined]
        exact .passed _ s _ (kafkaPassed_refl s l) nofun
    | some group =>
        simp only [callCommit, if_neg hopen, hjoined]
        exact .called index d group hd (by simpa using hsettled) (not_not.mp hcurrent) hjoined

theorem kafkaReply_effect {m : M} {index : Nat} {commit : KafkaCommit P} {committed : Bool}
    (hl : l = .committing m index commit (some committed))
    (h : kafkaReply s m index committed = some next) :
    KafkaEffect t s l .reply next := by
  unfold kafkaReply at h
  split at h
  · cases h
  · rename_i d hd
    split at h
    · obtain rfl := Option.some.inj h
      exact .passed _ s _ (kafkaPassed_refl s l) nofun
    · rename_i hcommitted
      split at h
      · obtain rfl := Option.some.inj h
        exact .passed _ s _ (kafkaPassed_refl s l) nofun
      · rename_i hcurrent
        obtain rfl := Option.some.inj h
        have htrue : committed = true := not_not.mp hcommitted
        exact .settled m index commit d (htrue ▸ hl) hd (not_not.mp hcurrent)

theorem kafkaStep_effect (h : kafkaStep t s l act = some next) : KafkaEffect t s l act next := by
  cases act with
  | receive m =>
      simp only [kafkaStep] at h
      split at h
      · obtain rfl := Option.some.inj h
        exact .passed _ s _ (kafkaPassed_refl s _) nofun
      · cases h
  | acknowledge index =>
      simp only [kafkaStep] at h
      split at h
      · rename_i hd
        obtain rfl := Option.some.inj h
        exact callCommit_effect hd
      · cases h
  | acquire =>
      simp only [kafkaStep] at h
      split at h
      · split at h
        · split at h
          · obtain rfl := Option.some.inj h
            exact .passed _ s _ (kafkaPassed_refl s _) nofun
          · obtain rfl := Option.some.inj h
            exact acquireKafka_effect _
        · cases h
      · cases h
  | getone k =>
      simp only [kafkaStep] at h
      split at h
      · split at h
        · rename_i hnext hjoined
          obtain rfl := Option.some.inj h
          exact .taken _ k _ _ rfl hnext hjoined
        · cases h
      · cases h
  | execute =>
      simp only [kafkaStep] at h
      split at h
      · obtain rfl := Option.some.inj h
        exact .executed _ _ _ rfl
      · cases h
  | resend =>
      simp only [kafkaStep] at h
      split at h
      · obtain rfl := Option.some.inj h
        exact .resent _ _ _ _ rfl
      · cases h
  | reply =>
      simp only [kafkaStep] at h
      split at h
      · exact kafkaReply_effect rfl h
      · cases h
  | raises =>
      simp only [kafkaStep] at h
      split at h
      · obtain rfl := Option.some.inj h
        exact raiseKafka_effect _ _
      · obtain rfl := Option.some.inj h
        exact raiseKafka_effect _ _
      · obtain rfl := Option.some.inj h
        exact raiseKafka_sent_effect _ _
      · cases h

end Effects

section Invariant

variable {p q : KafkaPool M P T} {first : P → Nat}

-- A delivery carries its record, and what is before the record was done when it was read.
structure KafkaDeliveryOk (first : P → Nat) (s : KafkaShared M P T) (d : KafkaDelivery M P) : Prop where
  record : ∃ r ∈ s.log d.partition, r.offset = d.offset ∧ d.payload = r.value.getD []
  before : DoneBelow first s d.partition d.offset
  generation : d.generation ≤ (s.consumers d.source).generation

-- A delivery of this consumer that it may still acknowledge.
def KafkaDelivery.Live (m : M) (generation : Nat) (d : KafkaDelivery M P) : Prop :=
  d.source = m ∧ d.generation = generation ∧ d.settled = false

-- A call that waits for its commit, and the delivery it was made on.
structure KafkaCallOk (s : KafkaShared M P T) (m : M) (index : Nat) (commit : KafkaCommit P)
    (d : KafkaDelivery M P) : Prop where
  delivery : s.deliveries[index]? = some d
  source : d.source = m
  partition : commit.partition = d.partition
  offset : commit.offset = d.offset + 1
  acknowledges : index ∈ s.acknowledges
  unsettled : d.generation = (s.consumers m).generation → d.settled = false

def KafkaPhaseOk (s : KafkaShared M P T) : KafkaPhase M P → Prop
  | .committing m index commit _ => ∃ d, KafkaCallOk s m index commit d
  | _ => True

theorem kafkaPhaseOk_of_ne {s : KafkaShared M P T} {l : KafkaPhase M P}
    (h : ∀ m index commit reply, l ≠ .committing m index commit reply) : KafkaPhaseOk s l := by
  unfold KafkaPhaseOk
  split
  · exact absurd rfl (h _ _ _ _)
  · trivial

theorem KafkaPhaseOk.imp {s s' : KafkaShared M P T} {l : KafkaPhase M P} (h : KafkaPhaseOk s l)
    (hcall : ∀ m index commit reply d, l = .committing m index commit reply →
      KafkaCallOk s m index commit d →
      ∃ d', KafkaCallOk s' m index commit d') : KafkaPhaseOk s' l := by
  unfold KafkaPhaseOk at h ⊢
  split at h
  · obtain ⟨d, hd⟩ := h
    exact hcall _ _ _ _ d rfl hd
  · trivial

structure KafkaInv (first : P → Nat) (p : KafkaPool M P T) : Prop where
  sorted : ∀ q, (p.shared.log q).Pairwise (·.offset < ·.offset)
  starts : ∀ q, DoneBelow first p.shared q (startOffset p.shared q)
  orphans : ∀ commit ∈ p.shared.orphans, DoneBelow first p.shared commit.partition commit.offset
  deliveries : ∀ d ∈ p.shared.deliveries, KafkaDeliveryOk first p.shared d
  -- the client goes on reading only where nothing is left to do
  positions : ∀ m q n, (p.shared.consumers m).position q = some n →
    (p.shared.consumers m).paused q = false →
    DoneBelow first p.shared q n
  pending : ∀ m, Indexes (p.shared.consumers m).pending p.shared.deliveries KafkaDelivery.partition
    (KafkaDelivery.Live m (p.shared.consumers m).generation)
  held : ∀ m q index d n, (q, index) ∈ (p.shared.consumers m).pending →
    p.shared.deliveries[index]? = some d →
    (p.shared.consumers m).position q = some n → (p.shared.consumers m).paused q = true ∧ n = d.offset + 1
  idle : ∀ m, (p.shared.consumers m).joined = none → (p.shared.consumers m).stopped = false →
    (p.shared.consumers m).pending = []
  phases : ∀ t, KafkaPhaseOk p.shared (p.loc t)
  -- no two calls wait for a commit of the same delivery
  single : ∀ t t' m m' index commit commit' reply reply', p.loc t = .committing m index commit reply →
    p.loc t' = .committing m' index commit' reply' → t = t'

theorem kafkaInv_init (stored : P → Option Nat) (earliest : P → Nat) :
    KafkaInv (fun q => (stored q).getD (earliest q)) (KafkaPool.init M P T stored earliest) where
  sorted _ := .nil
  starts _ := ⟨.inl (Nat.le_refl _), fun _ hr => nomatch hr⟩
  orphans _ h := nomatch h
  deliveries _ h := nomatch h
  positions _ _ _ h := nomatch h
  pending _ := .empty fun _ h => nomatch h
  held _ _ _ _ _ h := nomatch h
  idle _ _ _ := rfl
  phases _ := trivial
  single _ _ _ _ _ _ _ _ _ h := nomatch h

-- What is done when the commit of a call is applied.
theorem KafkaInv.done_of_call (hi : KafkaInv first p) {m : M} {index : Nat} {commit : KafkaCommit P}
    {d : KafkaDelivery M P} (h : KafkaCallOk p.shared m index commit d) :
    DoneBelow first p.shared commit.partition commit.offset := by
  have hok := hi.deliveries d (List.mem_of_getElem? h.delivery)
  obtain ⟨r, hr, hoffset, -⟩ := hok.record
  have hacknowledged : Acknowledged p.shared d.partition r.offset :=
    ⟨index, d, h.delivery, rfl, hoffset.symm, h.acknowledges⟩
  rw [h.partition, h.offset, ← hoffset]
  have hbefore := hok.before
  rw [← hoffset] at hbefore
  exact hbefore.succ hr hacknowledged

theorem KafkaInv.done_of_request (hi : KafkaInv first p) {t : T} {commit : KafkaCommit P}
    (h : (p.loc t).request = some commit) : DoneBelow first p.shared commit.partition commit.offset := by
  unfold KafkaPhase.request at h
  split at h
  · rename_i m index sent hloc
    have hphase := hi.phases t
    rw [hloc] at hphase
    obtain ⟨d, hcall⟩ := hphase
    obtain rfl := Option.some.inj h
    exact hi.done_of_call hcall
  · cases h

-- What a step that creates and settles nothing does to a consumer.
structure ConsumerKept (first : P → Nat) (s' : KafkaShared M P T) (c c' : KafkaConsumer P T) : Prop where
  pending : c'.pending = c.pending ∧ c'.generation = c.generation ∨ c'.pending = [] ∧
    c.generation < c'.generation
  positions : ∀ k n, c'.position k = some n →
    c.position k = some n ∧ c'.paused k = c.paused k ∨ DoneBelow first s' k n ∧ c'.pending = []
  idle : c'.joined = none → c'.stopped = false → c'.pending = []

theorem ConsumerKept.generation_le {s' : KafkaShared M P T} {c c' : KafkaConsumer P T}
    (h : ConsumerKept first s' c c') : c.generation ≤ c'.generation := by
  obtain ⟨-, hgeneration⟩ | ⟨-, hgeneration⟩ := h.pending
  · exact Nat.le_of_eq hgeneration.symm
  · exact Nat.le_of_lt hgeneration

theorem KafkaCallOk.kept {s s' : KafkaShared M P T} {m : M} {index : Nat} {commit : KafkaCommit P}
    {d : KafkaDelivery M P} (h : KafkaCallOk s m index commit d) (hd : s'.deliveries[index]? = some d)
    (hacknowledges : s.acknowledges ⊆ s'.acknowledges)
    (hgeneration : d.generation = (s'.consumers m).generation → d.generation = (s.consumers m).generation) :
    KafkaCallOk s' m index commit d where
  delivery := hd
  source := h.source
  partition := h.partition
  offset := h.offset
  acknowledges := hacknowledges h.acknowledges
  unsettled := fun heq => h.unsettled (hgeneration heq)

-- A step that leaves the deliveries alone.
theorem KafkaInv.framed (hi : KafkaInv first p) (hgrows : KafkaGrows p.shared q.shared)
    (hdeliveries : q.shared.deliveries = p.shared.deliveries)
    (hsorted : ∀ k, (q.shared.log k).Pairwise (·.offset < ·.offset))
    (hstarts : ∀ k, DoneBelow first q.shared k (startOffset q.shared k))
    (horphans : ∀ commit ∈ q.shared.orphans, DoneBelow first p.shared commit.partition commit.offset)
    (hconsumers : ∀ m, ConsumerKept first q.shared (p.shared.consumers m) (q.shared.consumers m))
    (hphases : ∀ t, q.loc t = p.loc t ∨ KafkaPhaseOk q.shared (q.loc t))
    (hsingle : ∀ t t' m m' index commit commit' reply reply', q.loc t = .committing m index commit reply →
      q.loc t' = .committing m' index commit' reply' → t = t') : KafkaInv first q := by
  have hstale : ∀ d ∈ p.shared.deliveries,
      d.generation = (q.shared.consumers d.source).generation →
      d.generation = (p.shared.consumers d.source).generation := by
    intro d hd heq
    have hle := (hi.deliveries d hd).generation
    have hgeneration := (hconsumers d.source).generation_le
    omega
  refine ⟨hsorted, hstarts, ?_, ?_, ?_, ?_, ?_, fun m => (hconsumers m).idle, ?_, hsingle⟩
  · intro commit hcommit
    exact (horphans commit hcommit).grows hgrows
  · intro d hd
    rw [hdeliveries] at hd
    have hok := hi.deliveries d hd
    obtain ⟨r, hr, hrecord⟩ := hok.record
    exact ⟨⟨r, hgrows.keeps _ r hr, hrecord⟩, hok.before.grows hgrows,
      Nat.le_trans hok.generation (hconsumers d.source).generation_le⟩
  · intro m k n hposition hpaused
    obtain ⟨hold, hsame⟩ | ⟨hdone, -⟩ := (hconsumers m).positions k n hposition
    · exact (hi.positions m k n hold (hsame ▸ hpaused)).grows hgrows
    · exact hdone
  · intro m
    rw [hdeliveries]
    obtain ⟨hpending, hgeneration⟩ | ⟨hpending, hgeneration⟩ := (hconsumers m).pending
    · rw [hpending, hgeneration]
      exact hi.pending m
    · rw [hpending]
      refine .empty fun d hd ⟨hsource, hcurrent, _⟩ => ?_
      have hle := (hi.deliveries d hd).generation
      rw [hsource] at hle
      omega
  · intro m k index d n hmem hd hposition
    rw [hdeliveries] at hd
    obtain ⟨hold, hsame⟩ | ⟨-, hempty⟩ := (hconsumers m).positions k n hposition
    · obtain ⟨hpending, -⟩ | ⟨hpending, -⟩ := (hconsumers m).pending
      · rw [hpending] at hmem
        rw [hsame]
        exact hi.held m k index d n hmem hd hold
      · rw [hpending] at hmem
        cases hmem
    · rw [hempty] at hmem
      cases hmem
  · intro t
    obtain heq | hok := hphases t
    · rw [heq]
      refine (hi.phases t).imp fun m index commit reply d _ hcall => ?_
      refine ⟨d, hcall.kept (hdeliveries ▸ hcall.delivery) hgrows.acknowledges ?_⟩
      rw [← hcall.source]
      exact hstale d (List.mem_of_getElem? hcall.delivery)
    · exact hok

theorem KafkaInv.kept_of_same (hi : KafkaInv first p) {s' : KafkaShared M P T} {m : M}
    {c' : KafkaConsumer P T}
    (h : SameButLock (p.shared.consumers m) c') : ConsumerKept first s' (p.shared.consumers m) c' := by
  obtain ⟨lock, closed, rfl⟩ := h
  exact ⟨.inl ⟨rfl, rfl⟩, fun k n hn => .inl ⟨hn, rfl⟩, hi.idle m⟩

section Move

variable [DecidableEq T]

-- A call that waits for a commit after the step of `t` is `t`, or waited before.
theorem single_move {t : T} {s' : KafkaShared M P T} {l' : KafkaPhase M P} (hi : KafkaInv first p)
    (h : ∀ t' m m' index commit commit' reply reply', t' ≠ t → l' = .committing m index commit reply →
      p.loc t' ≠ .committing m' index commit' reply') :
    ∀ t₁ t₂ m m' index commit commit' reply reply',
      (p.move t s' l').loc t₁ = .committing m index commit reply →
      (p.move t s' l').loc t₂ = .committing m' index commit' reply' → t₁ = t₂ := by
  intro t₁ t₂ m m' index commit commit' reply reply' h₁ h₂
  by_cases ht₁ : t₁ = t
  · by_cases ht₂ : t₂ = t
    · rw [ht₁, ht₂]
    · subst ht₁
      rw [Pool.move_loc_self] at h₁
      rw [Pool.move_loc_ne _ _ _ ht₂] at h₂
      exact absurd h₂ (h t₂ m m' index commit commit' reply reply' ht₂ h₁)
  · rw [Pool.move_loc_ne _ _ _ ht₁] at h₁
    by_cases ht₂ : t₂ = t
    · subst ht₂
      rw [Pool.move_loc_self] at h₂
      exact absurd h₁ (h t₁ m' m index commit' commit reply' reply ht₁ h₂)
    · rw [Pool.move_loc_ne _ _ _ ht₂] at h₂
      exact hi.single t₁ t₂ m m' index commit commit' reply reply' h₁ h₂

-- A step of a call that leaves the records, the commits and the deliveries alone.
theorem KafkaInv.moved (hi : KafkaInv first p) {t : T} {s' : KafkaShared M P T} {l' : KafkaPhase M P}
    (log : s'.log = p.shared.log) (starts : startOffset s' = startOffset p.shared)
    (deliveries : s'.deliveries = p.shared.deliveries)
    (acknowledges : p.shared.acknowledges ⊆ s'.acknowledges)
    (consumers : ∀ m, SameButLock (p.shared.consumers m) (s'.consumers m))
    (orphans : ∀ commit ∈ s'.orphans, commit ∈ p.shared.orphans ∨ (p.loc t).request = some commit)
    (phase : KafkaPhaseOk s' l')
    (single : ∀ t' m m' index commit commit' reply reply', t' ≠ t → l' = .committing m index commit reply →
      p.loc t' ≠ .committing m' index commit' reply') :
    KafkaInv first (p.move t s' l') := by
  have hgrows : KafkaGrows p.shared s' := .of_eq log deliveries acknowledges
  refine hi.framed (q := p.move t s' l') hgrows deliveries ?_ ?_ ?_ (fun m =>
    hi.kept_of_same (consumers m)) ?_
    (single_move hi single)
  · rw [Pool.move_shared, log]
    exact hi.sorted
  · intro k
    rw [Pool.move_shared, starts]
    exact (hi.starts k).grows hgrows
  · intro commit hcommit
    obtain hold | hsent := orphans commit hcommit
    · exact hi.orphans commit hold
    · exact hi.done_of_request hsent
  · intro t'
    by_cases ht : t' = t
    · subst ht
      right
      rw [Pool.move_loc_self]
      exact phase
    · exact .inl (Pool.move_loc_ne _ _ _ ht)

end Move

section Broker

variable [DecidableEq P]

omit [DecidableEq P] in
theorem KafkaInv.same_phases (hi : KafkaInv first p) {s' : KafkaShared M P T} :
    ∀ t t' m m' index commit commit' reply reply',
      ({ p with shared := s' } : KafkaPool M P T).loc t = .committing m index commit reply →
      ({ p with shared := s' } : KafkaPool M P T).loc t' = .committing m' index commit' reply' → t = t' :=
  hi.single

theorem commitOffset_cases (s : KafkaShared M P T) (commit : KafkaCommit P) :
    (commit.group = s.group ∧ commitOffset s commit =
      ({ s with committed := Function.update s.committed commit.partition (some commit.offset) }, true)) ∨
    commit.group ≠ s.group ∧ commitOffset s commit = (s, false) := by
  by_cases h : commit.group = s.group
  · exact .inl ⟨h, if_pos h⟩
  · exact .inr ⟨h, if_neg h⟩

-- The broker receives a commit of which everything below is done.
theorem KafkaInv.applied (hi : KafkaInv first p) {commit : KafkaCommit P}
    (h : DoneBelow first p.shared commit.partition commit.offset) :
    KafkaInv first { p with shared := (commitOffset p.shared commit).1 } := by
  obtain ⟨-, heq⟩ | ⟨-, heq⟩ := commitOffset_cases p.shared commit
  · rw [heq]
    have hgrows : KafkaGrows p.shared
        { p.shared with committed := Function.update p.shared.committed commit.partition (some commit.offset) } :=
      .of_eq rfl rfl (fun _ h => h)
    refine hi.framed hgrows rfl hi.sorted ?_ hi.orphans (fun m => hi.kept_of_same (sameButLock_refl _))
      (fun _ => .inl rfl) hi.same_phases
    intro k
    by_cases hk : k = commit.partition
    · subst hk
      have hstart : startOffset { p.shared with
          committed := Function.update p.shared.committed commit.partition (some commit.offset) }
          commit.partition = commit.offset := by
        simp [startOffset]
      rw [hstart]
      exact h.grows hgrows
    · have hstart : startOffset { p.shared with
          committed := Function.update p.shared.committed commit.partition (some commit.offset) } k =
          startOffset p.shared k := by
        simp [startOffset, hk]
      rw [hstart]
      exact (hi.starts k).grows hgrows
  · rw [heq]
    exact hi

-- The client's next record is the first one from its position on.
omit [DecidableEq P] in
theorem KafkaInv.nextRecord_spec (hi : KafkaInv first p) {m : M} {k : P} {r : KafkaRecord}
    (h : nextRecord p.shared m k = some r) :
    ∃ n, (p.shared.consumers m).position k = some n ∧ (p.shared.consumers m).paused k = false ∧
      r ∈ p.shared.log k ∧ n ≤ r.offset ∧
      ∀ older ∈ p.shared.log k, older.offset < r.offset → older.offset < n := by
  unfold nextRecord at h
  split at h
  · cases h
  · rename_i n hposition
    split at h
    · cases h
    · rename_i hpaused
      obtain ⟨hfound, before, after, hlog, hbefore⟩ := List.find?_eq_some_iff_append.mp h
      have hsorted := hi.sorted k
      refine ⟨n, hposition, by simpa using hpaused, List.mem_of_find?_eq_some h,
        of_decide_eq_true hfound, ?_⟩
      intro older holder hlt
      rw [hlog] at holder hsorted
      obtain hmem | hmem := List.mem_append.mp holder
      · simpa using hbefore older hmem
      · obtain rfl | hmem := List.mem_cons.mp hmem
        · omega
        · have hafter := (List.pairwise_cons.mp (List.pairwise_append.mp hsorted).2.1).1 older hmem
          omega

end Broker

section Calls

variable [DecidableEq M] [DecidableEq P] [DecidableEq T]

-- The new delivery of `receive`.
def freshDelivery (s : KafkaShared M P T) (m : M) (k : P) (r : KafkaRecord) (group : Nat) :
    KafkaDelivery M P where
  source := m
  partition := k
  offset := r.offset
  payload := r.value.getD []
  generation := (s.consumers m).generation
  possiblyRedelivered := !(s.consumers m).trustedPartitions k
  group := group

-- The consumer after it has taken a record.
def KafkaConsumer.taken (consumer : KafkaConsumer P T) (k : P) (offset index : Nat) : KafkaConsumer P T :=
  { consumer with
    position := Function.update consumer.position k (some (offset + 1))
    paused := Function.update consumer.paused k true
    pending := consumer.pending ++ [(k, index)] }

-- What `receive` does with a record of a partition that has no delivery pending.
structure TakenSpec (s s' : KafkaShared M P T) (m : M) (k : P) (r : KafkaRecord) (group : Nat) : Prop where
  log : s'.log = s.log
  broker : s'.committed = s.committed ∧ s'.earliest = s.earliest ∧ s'.group = s.group ∧
    s'.heldIn = s.heldIn ∧
    s'.holder = s.holder
  orphans : s'.orphans = s.orphans
  acknowledges : s'.acknowledges = s.acknowledges
  deliveries : s'.deliveries = s.deliveries ++ [freshDelivery s m k r group]
  others : ∀ m', m' ≠ m → SameButLock (s.consumers m') (s'.consumers m')
  consumer : SameButLock ((s.consumers m).taken k r.offset s.deliveries.length) (s'.consumers m)

theorem takeRecord_fresh {s : KafkaShared M P T} {m : M} {k : P} (t : T) (r : KafkaRecord) (group : Nat)
    (h : k ∉ (s.consumers m).pending.map (·.1)) :
    (takeRecord s t m k r group).2 = .received s.deliveries.length ∧
      TakenSpec s (takeRecord s t m k r group).1 m k r group := by
  have hfree : ¬ ((s.consumers m).pending.any (·.1 = k)) := by
    intro hany
    obtain ⟨item, hitem, hkey⟩ := List.any_eq_true.mp hany
    exact h (List.mem_map.mpr ⟨item, hitem, of_decide_eq_true hkey⟩)
  unfold takeRecord
  rw [if_neg hfree]
  have hlock : ∀ m', SameButLock
      ((setKafkaConsumer s m ((s.consumers m).taken k r.offset s.deliveries.length)).consumers m') _ :=
    releaseLock_same (setKafkaConsumer s m ((s.consumers m).taken k r.offset s.deliveries.length)) t
  refine ⟨rfl, rfl, ⟨rfl, rfl, rfl, rfl, rfl⟩, rfl, rfl, rfl, ?_, ?_⟩
  · intro m' hm
    have hsame := hlock m'
    rw [setKafkaConsumer_ne _ _ hm] at hsame
    exact hsame
  · have hsame := hlock m
    rw [setKafkaConsumer_self] at hsame
    exact hsame

-- A pending delivery of the partition would have it paused.
omit [DecidableEq M] [DecidableEq P] [DecidableEq T] in
theorem KafkaInv.free_of_next (hi : KafkaInv first p) {m : M} {k : P} {r : KafkaRecord}
    (hnext : nextRecord p.shared m k = some r) : k ∉ (p.shared.consumers m).pending.map (·.1) := by
  obtain ⟨n, hposition, hpaused, -⟩ := hi.nextRecord_spec hnext
  intro hk
  obtain ⟨⟨k', index⟩, hmem, rfl⟩ := List.mem_map.mp hk
  obtain ⟨d, hd, -⟩ := ((hi.pending m).mem k' index).mp hmem
  obtain ⟨hheld, -⟩ := hi.held m k' index d n hmem hd hposition
  rw [hpaused] at hheld
  cases hheld

-- A record that is read becomes a pending delivery, and its partition is paused.
theorem KafkaInv.taken (hi : KafkaInv first p) {t : T} {m : M} {k : P} {r : KafkaRecord} {group : Nat}
    (hjoined : (p.shared.consumers m).joined = some group) (hnext : nextRecord p.shared m k = some r) :
    KafkaInv first (p.move t (takeRecord p.shared t m k r group).1 (takeRecord p.shared t m k r group).2) := by
  obtain ⟨n, hposition, hpaused, hr, -, hbefore⟩ := hi.nextRecord_spec hnext
  have hfree := hi.free_of_next hnext
  obtain ⟨hphase, hspec⟩ := takeRecord_fresh t r group hfree
  rw [hphase]
  generalize (takeRecord p.shared t m k r group).1 = s' at hspec
  have hgrows : KafkaGrows p.shared s' := by
    refine ⟨?_, ?_, ?_, ?_⟩
    · exact fun _ _ hmem => hspec.log ▸ hmem
    · exact fun _ _ hmem => .inl (hspec.log ▸ hmem)
    · intro index d hd
      refine ⟨d.settled, ?_⟩
      rw [hspec.deliveries]
      exact (getElem?_concat _ _ _ _).mpr (.inl hd)
    · rw [hspec.acknowledges]
      exact fun _ h => h
  have hdone : DoneBelow first p.shared k r.offset := by
    refine ⟨.inr ⟨r, hr, Nat.le_succ _⟩, fun older holder hfirst hlt => ?_⟩
    exact (hi.positions m k n hposition hpaused).acknowledged older holder hfirst (hbefore older holder hlt)
  have hgeneration : ∀ m', (s'.consumers m').generation = (p.shared.consumers m').generation := by
    intro m'
    by_cases hm : m' = m
    · subst hm
      obtain ⟨lock, closed, heq⟩ := hspec.consumer
      rw [heq]
      rfl
    · obtain ⟨lock, closed, heq⟩ := hspec.others m' hm
      rw [heq]
  have hold : ∀ m' k' index d, (k', index) ∈ (p.shared.consumers m').pending →
      s'.deliveries[index]? = some d → p.shared.deliveries[index]? = some d := by
    intro m' k' index d hmem hd
    obtain ⟨x, hx, -⟩ := ((hi.pending m').mem k' index).mp hmem
    rw [hspec.deliveries] at hd
    obtain hd | ⟨rfl, -⟩ := (getElem?_concat _ _ _ _).mp hd
    · exact hd
    · rw [List.getElem?_eq_none (Nat.le_refl _)] at hx
      cases hx
  refine ⟨?_, ?_, ?_, ?_, ?_, ?_, ?_, ?_, ?_, single_move hi fun _ _ _ _ _ _ _ _ _ h => nomatch h⟩ <;>
    simp only [Pool.move_shared]
  · rw [hspec.log]
    exact hi.sorted
  · intro k'
    have hstart : startOffset s' k' = startOffset p.shared k' := by
      rw [startOffset, startOffset, hspec.broker.1, hspec.broker.2.1]
    rw [hstart]
    exact (hi.starts k').grows hgrows
  · intro commit hcommit
    rw [hspec.orphans] at hcommit
    exact (hi.orphans commit hcommit).grows hgrows
  · intro d hd
    rw [hspec.deliveries] at hd
    obtain hd | hd := List.mem_append.mp hd
    · have hok := hi.deliveries d hd
      obtain ⟨older, holder, hrecord⟩ := hok.record
      refine ⟨⟨older, hgrows.keeps _ older holder, hrecord⟩, hok.before.grows hgrows, ?_⟩
      rw [hgeneration]
      exact hok.generation
    · rw [List.mem_singleton.mp hd]
      refine ⟨⟨r, hgrows.keeps k r hr, rfl, rfl⟩, hdone.grows hgrows, ?_⟩
      rw [hgeneration]
      exact Nat.le_refl _
  · intro m' k' n' hposition' hpaused'
    by_cases hm : m' = m
    · subst hm
      obtain ⟨lock, closed, heq⟩ := hspec.consumer
      rw [heq] at hposition' hpaused'
      by_cases hk : k' = k
      · subst hk
        simp [KafkaConsumer.taken] at hpaused'
      · simp only [KafkaConsumer.taken, Function.update_of_ne hk] at hposition' hpaused'
        exact (hi.positions m' k' n' hposition' hpaused').grows hgrows
    · obtain ⟨lock, closed, heq⟩ := hspec.others m' hm
      rw [heq] at hposition' hpaused'
      exact (hi.positions m' k' n' hposition' hpaused').grows hgrows
  · intro m'
    rw [hspec.deliveries, hgeneration]
    by_cases hm : m' = m
    · subst hm
      obtain ⟨lock, closed, heq⟩ := hspec.consumer
      rw [heq]
      exact (hi.pending m').append_live (x := freshDelivery p.shared m' k r group) ⟨rfl, rfl, rfl⟩ hfree
    · obtain ⟨lock, closed, heq⟩ := hspec.others m' hm
      rw [heq]
      exact (hi.pending m').append_other fun hlive => hm hlive.1.symm
  · intro m' k' index d n' hmem hd hposition'
    by_cases hm : m' = m
    · subst hm
      obtain ⟨lock, closed, heq⟩ := hspec.consumer
      rw [heq] at hmem hposition' ⊢
      have hcases : (k', index) ∈ (p.shared.consumers m').pending ∨
          (k', index) ∈ [(k, p.shared.deliveries.length)] := List.mem_append.mp hmem
      obtain hpending | hnew := hcases
      · have hk : k' ≠ k := by
          rintro rfl
          exact hfree (List.mem_map_of_mem hpending)
        simp only [KafkaConsumer.taken, Function.update_of_ne hk] at hposition' ⊢
        exact hi.held m' k' index d n' hpending (hold m' k' index d hpending hd) hposition'
      · obtain ⟨rfl, rfl⟩ := Prod.mk.inj (List.mem_singleton.mp hnew)
        rw [hspec.deliveries, List.getElem?_concat_length] at hd
        obtain rfl := Option.some.inj hd
        simp only [KafkaConsumer.taken, Function.update_self] at hposition' ⊢
        exact ⟨trivial, (Option.some.inj hposition').symm⟩
    · obtain ⟨lock, closed, heq⟩ := hspec.others m' hm
      rw [heq] at hmem hposition' ⊢
      exact hi.held m' k' index d n' hmem (hold m' k' index d hmem hd) hposition'
  · intro m' hnone hstopped
    by_cases hm : m' = m
    · subst hm
      obtain ⟨lock, closed, heq⟩ := hspec.consumer
      rw [heq] at hnone
      cases hjoined.symm.trans hnone
    · obtain ⟨lock, closed, heq⟩ := hspec.others m' hm
      rw [heq] at hnone hstopped ⊢
      exact hi.idle m' hnone hstopped
  · refine Pool.forall_loc_move (P := fun _ phase => KafkaPhaseOk s' phase) trivial fun t' _ => ?_
    refine (hi.phases t').imp fun m' index commit reply d _ hcall => ?_
    have hd : s'.deliveries[index]? = some d := by
      rw [hspec.deliveries]
      exact (getElem?_concat _ _ _ _).mpr (.inl hcall.delivery)
    exact ⟨d, hcall.kept hd hgrows.acknowledges fun heq => heq.trans (hgeneration m')⟩

-- The consumer after it has settled the delivery of a partition.
def KafkaConsumer.settled (consumer : KafkaConsumer P T) (k : P) : KafkaConsumer P T :=
  { consumer with
    pending := consumer.pending.filter (·.1 ≠ k)
    trustedPartitions := Function.update consumer.trustedPartitions k true
    paused := Function.update consumer.paused k false }

omit [DecidableEq T] in
theorem settleKafka_consumers (s : KafkaShared M P T) (m m' : M) (index : Nat) (k : P) :
    (settleKafka s m index k).1.consumers m' =
      if m' = m then (s.consumers m).settled k else s.consumers m' := by
  by_cases hm : m' = m
  · subst hm
    rw [if_pos rfl]
    exact setKafkaConsumer_self s m' _
  · rw [if_neg hm]
    exact setKafkaConsumer_ne s _ hm

omit [DecidableEq T] in
theorem settleKafka_grows (s : KafkaShared M P T) (m : M) (index : Nat) (k : P) :
    KafkaGrows s (settleKafka s m index k).1 where
  keeps _ _ hr := hr
  later _ _ hr := .inl hr
  deliveries i d hd := by
    refine ⟨if index = i then true else d.settled, ?_⟩
    refine getElem?_modify_some.mpr ⟨d, hd, ?_⟩
    split <;> rfl
  acknowledges _ h := h

-- The delivery whose commit has returned is the pending one of its partition, so nothing else
-- leaves `pending`, and the partition goes on after a record that is done.
theorem KafkaInv.settled (hi : KafkaInv first p) {t : T} {m : M} {index : Nat} {commit : KafkaCommit P}
    {reply : Option Bool} {d : KafkaDelivery M P} (hloc : p.loc t = .committing m index commit reply)
    (hd : p.shared.deliveries[index]? = some d)
    (hcurrent : d.generation = (p.shared.consumers m).generation) :
    KafkaInv first (p.move t (settleKafka p.shared m index d.partition).1 (.acknowledged index)) := by
  obtain ⟨x, hcall⟩ : KafkaPhaseOk p.shared (.committing m index commit reply) := hloc ▸ hi.phases t
  obtain rfl := Option.some.inj (hd.symm.trans hcall.delivery)
  have hlive : KafkaDelivery.Live m (p.shared.consumers m).generation d :=
    ⟨hcall.source, hcurrent, hcall.unsettled hcurrent⟩
  have hpending : (d.partition, index) ∈ (p.shared.consumers m).pending :=
    ((hi.pending m).mem d.partition index).mpr ⟨d, hd, rfl, hlive⟩
  have hgrows := settleKafka_grows p.shared m index d.partition
  have hself := settleKafka_consumers p.shared m m index d.partition
  rw [if_pos rfl] at hself
  have hother : ∀ m', m' ≠ m →
      (settleKafka p.shared m index d.partition).1.consumers m' = p.shared.consumers m' := by
    intro m' hm
    rw [settleKafka_consumers, if_neg hm]
  have hgeneration : ∀ m', ((settleKafka p.shared m index d.partition).1.consumers m').generation =
      (p.shared.consumers m').generation := by
    intro m'
    by_cases hm : m' = m
    · subst hm
      rw [hself]
      rfl
    · rw [hother m' hm]
  refine ⟨hi.sorted, fun k => (hi.starts k).grows hgrows,
    fun commit' hcommit => (hi.orphans commit' hcommit).grows hgrows, ?_, ?_, ?_, ?_, ?_, ?_,
    single_move hi fun _ _ _ _ _ _ _ _ _ h => nomatch h⟩ <;> simp only [Pool.move_shared]
  · intro y hy
    obtain ⟨i, hindex⟩ := List.mem_iff_getElem?.mp hy
    obtain ⟨z, hz, heq⟩ := getElem?_modify_some.mp hindex
    have hok := hi.deliveries z (List.mem_of_getElem? hz)
    have hsame : KafkaDeliveryOk first (settleKafka p.shared m index d.partition).1 z := by
      refine ⟨hok.record, hok.before.grows hgrows, ?_⟩
      rw [hgeneration]
      exact hok.generation
    rw [heq]
    split
    · exact ⟨hsame.record, hsame.before, hsame.generation⟩
    · exact hsame
  · intro m' k n hposition hpaused
    by_cases hm : m' = m
    · subst hm
      rw [hself] at hposition hpaused
      by_cases hk : k = d.partition
      · subst hk
        obtain ⟨-, rfl⟩ := hi.held m' d.partition index d n hpending hd hposition
        have hdone := hi.done_of_call hcall
        rw [hcall.partition, hcall.offset] at hdone
        exact hdone.grows hgrows
      · simp only [KafkaConsumer.settled, Function.update_of_ne hk] at hpaused
        exact (hi.positions m' k n hposition hpaused).grows hgrows
    · rw [hother m' hm] at hposition hpaused
      exact (hi.positions m' k n hposition hpaused).grows hgrows
  · intro m'
    rw [hgeneration]
    by_cases hm : m' = m
    · subst hm
      rw [hself]
      exact (hi.pending m').modify_live hd hlive fun hlive' => nomatch hlive'.2.2
    · rw [hother m' hm]
      have hforeign : ¬ KafkaDelivery.Live m' (p.shared.consumers m').generation d :=
        fun hlive' => hm (hlive'.1.symm.trans hcall.source)
      exact (hi.pending m').modify_other hd hforeign fun hlive' =>
        hforeign ⟨hlive'.1, hlive'.2.1, hlive.2.2⟩
  · intro m' k i y n hmem hy hposition
    obtain ⟨z, hz, heq⟩ := getElem?_modify_some.mp hy
    have hoffset : y.offset = z.offset := by
      rw [heq]
      split <;> rfl
    rw [hoffset]
    by_cases hm : m' = m
    · subst hm
      rw [hself] at hmem hposition ⊢
      have hparts : (k, i) ∈ (p.shared.consumers m').pending ∧ k ≠ d.partition := by
        simpa [KafkaConsumer.settled] using hmem
      simp only [KafkaConsumer.settled, Function.update_of_ne hparts.2]
      exact hi.held m' k i z n hparts.1 hz hposition
    · rw [hother m' hm] at hmem hposition ⊢
      exact hi.held m' k i z n hmem hz hposition
  · intro m' hnone hstopped
    by_cases hm : m' = m
    · subst hm
      rw [hself] at hnone hstopped
      have hempty := hi.idle m' hnone hstopped
      rw [hempty] at hpending
      cases hpending
    · rw [hother m' hm] at hnone hstopped ⊢
      exact hi.idle m' hnone hstopped
  · refine Pool.forall_loc_move
      (P := fun _ phase => KafkaPhaseOk (settleKafka p.shared m index d.partition).1 phase) trivial
      fun t' ht => ?_
    refine (hi.phases t').imp fun m' i commit' reply' x hloc' hcall' => ?_
    have hne : index ≠ i := by
      rintro rfl
      exact ht (hi.single t' t m' m index commit' commit reply' reply hloc' hloc)
    have hx : (settleKafka p.shared m index d.partition).1.deliveries[i]? = some x :=
      getElem?_modify_some.mpr ⟨x, hcall'.delivery, (if_neg hne).symm⟩
    exact ⟨x, hcall'.kept hx hgrows.acknowledges fun heq => heq.trans (hgeneration m')⟩

end Calls

section Steps

variable [DecidableEq M] [DecidableEq P] [DecidableEq T]

omit [DecidableEq M] [DecidableEq T] in
theorem KafkaInv.produced (hi : KafkaInv first p) {k : P} {r : KafkaRecord}
    (hlater : ∀ older ∈ p.shared.log k, older.offset < r.offset) :
    KafkaInv first { p with shared := { p.shared with
      log := Function.update p.shared.log k (p.shared.log k ++ [r]) } } := by
  have hlog : ∀ k', Function.update p.shared.log k (p.shared.log k ++ [r]) k' =
      if k' = k then p.shared.log k ++ [r] else p.shared.log k' := by
    intro k'
    by_cases hk : k' = k
    · subst hk
      simp
    · simp [hk]
  have hgrows : KafkaGrows p.shared
      { p.shared with log := Function.update p.shared.log k (p.shared.log k ++ [r]) } := by
    refine ⟨?_, ?_, fun _ d hd => ⟨d.settled, hd⟩, fun _ h => h⟩
    · intro k' older holder
      simp only [hlog]
      split
      · rename_i hk
        exact List.mem_append_left _ (hk ▸ holder)
      · exact holder
    · intro k' newer hnewer
      simp only [hlog] at hnewer
      split at hnewer
      · rename_i hk
        subst hk
        obtain hmem | hmem := List.mem_append.mp hnewer
        · exact .inl hmem
        · rw [List.mem_singleton.mp hmem]
          exact .inr hlater
      · exact .inl hnewer
  refine hi.framed hgrows rfl ?_ (fun k' => (hi.starts k').grows hgrows) hi.orphans
    (fun m => hi.kept_of_same (sameButLock_refl _)) (fun _ => .inl rfl) hi.same_phases
  intro k'
  simp only [hlog]
  split
  · rw [List.pairwise_append]
    refine ⟨hi.sorted k, List.pairwise_singleton _ _, fun older holder newer hnewer => ?_⟩
    rw [List.mem_singleton.mp hnewer]
    exact hlater older holder
  · exact hi.sorted k'

-- A step of one consumer outside every call.
omit [DecidableEq P] [DecidableEq T] in
theorem KafkaInv.reconfigured (hi : KafkaInv first p) {s' : KafkaShared M P T} {m : M}
    {c' : KafkaConsumer P T}
    (log : s'.log = p.shared.log) (starts : startOffset s' = startOffset p.shared)
    (deliveries : s'.deliveries = p.shared.deliveries)
    (acknowledges : s'.acknowledges = p.shared.acknowledges)
    (orphans : s'.orphans = p.shared.orphans)
    (consumers : s'.consumers = Function.update p.shared.consumers m c')
    (kept : KafkaGrows p.shared s' → ConsumerKept first s' (p.shared.consumers m) c') :
    KafkaInv first { p with shared := s' } := by
  have hgrows : KafkaGrows p.shared s' := .of_eq log deliveries (acknowledges ▸ fun _ h => h)
  refine hi.framed hgrows deliveries ?_ ?_ ?_ ?_ (fun _ => .inl rfl) hi.same_phases
  · rw [log]
    exact hi.sorted
  · rw [starts]
    exact fun k => (hi.starts k).grows hgrows
  · rw [orphans]
    exact hi.orphans
  · intro m'
    rw [consumers]
    by_cases hm : m' = m
    · subst hm
      rw [Function.update_self]
      exact kept hgrows
    · rw [Function.update_of_ne hm]
      exact hi.kept_of_same (sameButLock_refl _)

-- Everything that an event can do.
inductive KafkaMoved (s : KafkaShared M P T) : KafkaEvent M P → KafkaShared M P T → Prop
  | produced (k : P) (offset : Nat) (value : Option Bytes) (ahead : ∀ r ∈ s.log k, r.offset < offset) :
    KafkaMoved s (.produced k offset value)
      { s with log := Function.update s.log k (s.log k ++ [⟨offset, value⟩]) }
  | orphan (index : Nat) (commit : KafkaCommit P) (sent : s.orphans[index]? = some commit) :
    KafkaMoved s (.orphan index) { (commitOffset s commit).1 with orphans := s.orphans.eraseIdx index }
  | rebalance : KafkaMoved s .rebalance { s with group := s.group + 1 }
  | revoked (m : M) (running : (s.consumers m).stopped = false) :
    KafkaMoved s (.revoked m) (release (setKafkaConsumer s m (onPartitionsRevoked (s.consumers m))) m)
  | assigned (m : M) (partitions : List P) (running : (s.consumers m).stopped = false)
      (outside : (s.consumers m).joined = none)
      (free : ∀ k ∈ partitions, s.holder k = none ∧ s.heldIn k ≠ some s.group) :
    KafkaMoved s (.assigned m partitions)
      { setKafkaConsumer s m (onPartitionsAssigned s (s.consumers m) partitions) with
        holder := fun k => if k ∈ partitions then some m else s.holder k
        heldIn := fun k => if k ∈ partitions then some s.group else s.heldIn k }
  | aclose (m : M) :
    KafkaMoved s (.aclose m) (setKafkaConsumer s m { s.consumers m with closed := true })
  | stop (m : M) :
    KafkaMoved s (.stop m) (release (setKafkaConsumer s m { s.consumers m with
      stopped := true, joined := none, position := fun _ => none }) m)

omit [DecidableEq T] in
theorem kafkaEvent_moved {event : KafkaEvent M P} {s s' : KafkaShared M P T}
    (h : kafkaEvent s event = some s') : KafkaMoved s event s' := by
  cases event with
  | produced k offset value =>
      obtain ⟨hall, rfl⟩ := guarded h
      exact .produced k offset value fun r hr => of_decide_eq_true (List.all_eq_true.mp hall r hr)
  | orphan index =>
      simp only [kafkaEvent] at h
      split at h
      · cases h
      · rename_i commit hcommit
        obtain rfl := Option.some.inj h
        exact .orphan index commit hcommit
  | rebalance =>
      obtain rfl := Option.some.inj h
      exact .rebalance
  | revoked m =>
      simp only [kafkaEvent] at h
      split at h
      · cases h
      · rename_i hrunning
        obtain rfl := Option.some.inj h
        exact .revoked m (by simpa using hrunning)
  | assigned m partitions =>
      simp only [kafkaEvent] at h
      split at h
      · cases h
      · rename_i hready
        obtain ⟨hall, rfl⟩ := guarded h
        obtain ⟨hrunning, hjoined⟩ := not_or.mp hready
        exact .assigned m partitions (by simpa using hrunning) (by simpa using hjoined)
          fun k hk => of_decide_eq_true (List.all_eq_true.mp hall k hk)
  | aclose m =>
      obtain rfl := Option.some.inj h
      exact .aclose m
  | stop m =>
      obtain rfl := Option.some.inj h
      exact .stop m

omit [DecidableEq T] in
theorem kafkaInv_event (hi : KafkaInv first p) {event : KafkaEvent M P} {s' : KafkaShared M P T}
    (h : kafkaEvent p.shared event = some s') : KafkaInv first { p with shared := s' } := by
  cases kafkaEvent_moved h with
  | produced k offset value ahead => exact hi.produced (r := ⟨offset, value⟩) ahead
  | orphan index commit sent =>
      have hdone := hi.orphans commit (List.mem_of_getElem? sent)
      have happlied := hi.applied hdone
      refine happlied.framed (.of_eq rfl rfl fun _ h => h) rfl happlied.sorted
        (fun k => (happlied.starts k).grows (.of_eq rfl rfl fun _ h => h)) ?_
        (fun m => happlied.kept_of_same (sameButLock_refl _)) (fun _ => .inl rfl) happlied.same_phases
      intro other hother
      have hgrows : KafkaGrows p.shared (commitOffset p.shared commit).1 := by
        obtain ⟨-, heq⟩ | ⟨-, heq⟩ := commitOffset_cases p.shared commit <;> rw [heq] <;>
          exact .of_eq rfl rfl fun _ h => h
      exact (hi.orphans other (List.mem_of_mem_eraseIdx hother)).grows hgrows
  | rebalance =>
      exact hi.framed (.of_eq rfl rfl fun _ h => h) rfl hi.sorted
        (fun k => (hi.starts k).grows (.of_eq rfl rfl fun _ h => h)) hi.orphans
        (fun m => hi.kept_of_same (sameButLock_refl _)) (fun _ => .inl rfl) hi.same_phases
  | revoked m running =>
      refine hi.reconfigured (m := m) rfl rfl rfl rfl rfl rfl fun _ => ?_
      exact ⟨.inr ⟨rfl, Nat.lt_succ_self _⟩, fun _ _ hn => (nomatch hn), fun _ _ => rfl⟩
  | assigned m partitions running outside free =>
      have hempty : (p.shared.consumers m).pending = [] := hi.idle m outside running
      refine hi.reconfigured (m := m) rfl rfl rfl rfl rfl rfl fun hgrows => ?_
      refine ⟨.inl ⟨rfl, rfl⟩, fun k n hn => .inr ⟨?_, hempty⟩, fun hnone => (nomatch hnone)⟩
      simp only [onPartitionsAssigned] at hn
      split at hn
      · obtain rfl := Option.some.inj hn
        exact (hi.starts k).grows hgrows
      · cases hn
  | aclose m => exact hi.reconfigured (m := m) rfl rfl rfl rfl rfl rfl fun _ => hi.kept_of_same ⟨_, _, rfl⟩
  | stop m =>
      refine hi.reconfigured (m := m) rfl rfl rfl rfl rfl rfl fun _ => ?_
      exact ⟨.inl ⟨rfl, rfl⟩, fun _ _ hn => (nomatch hn), fun _ hstopped => (nomatch hstopped)⟩

-- `acknowledge` is not called on a delivery while another call of it waits for its commit.
def OneCall (p : KafkaPool M P T) : (T × KafkaAct M P) ⊕ KafkaEvent M P → Prop
  | .inl (_, .acknowledge index) => ∀ t m commit reply, p.loc t ≠ .committing m index commit reply
  | _ => True

theorem kafkaInv_task (hi : KafkaInv first p) {t : T} {act : KafkaAct M P} {next : KafkaNext M P T}
    (hone : OneCall p (.inl (t, act))) (h : kafkaStep t p.shared (p.loc t) act = some next) :
    KafkaInv first (p.move t next.1 next.2) := by
  cases kafkaStep_effect h with
  | passed _ s' l' same phase =>
      obtain ⟨consumers, orphans, rfl⟩ := same.state
      refine hi.moved rfl rfl rfl (fun _ h => h) same.consumers same.orphans ?_ ?_
      · exact kafkaPhaseOk_of_ne phase
      · intro t' m m' index commit commit' reply reply' _ heq
        exact absurd heq (phase m index commit reply)
  | called index d group delivery unsettled current joined =>
      refine hi.moved rfl rfl rfl (List.subset_append_left _ _) (fun _ => sameButLock_refl _)
        (fun _ hm => .inl hm) ?_ ?_
      · exact ⟨d, delivery, rfl, rfl, rfl, List.mem_append_right _ (List.mem_singleton_self _),
          fun _ => unsettled⟩
      · intro t' m m' other commit commit' reply reply' _ heq hloc
        injection heq with _ hindex
        exact hone t' m' commit' reply' (hindex ▸ hloc)
  | taken m k r group phase record joined => exact hi.taken joined record
  | executed m index commit phase =>
      obtain ⟨d, hcall⟩ : KafkaPhaseOk p.shared (.committing m index commit none) := phase ▸ hi.phases t
      have happlied := hi.applied (hi.done_of_call hcall)
      obtain ⟨d', hcall'⟩ :
        KafkaPhaseOk (commitOffset p.shared commit).1 (.committing m index commit none) :=
        phase ▸ happlied.phases t
      refine happlied.moved (t := t) rfl rfl rfl (fun _ h => h) (fun _ => sameButLock_refl _)
        (fun _ hm => .inl hm) ⟨d', hcall'⟩ ?_
      intro t' m₁ m₂ other commit₁ commit₂ reply₁ reply₂ hne heq hloc
      injection heq with _ hindex
      exact hne (hi.single t' t m₂ m index commit₂ commit reply₂ none (hindex ▸ hloc) phase)
  | resent m index commit reply phase =>
      obtain ⟨d, hcall⟩ : KafkaPhaseOk p.shared (.committing m index commit reply) := phase ▸ hi.phases t
      refine hi.moved rfl rfl rfl (fun _ h => h) (fun _ => sameButLock_refl _) (fun _ hm => .inl hm)
        ⟨d, hcall⟩ ?_
      · intro t' m₁ m₂ other commit₁ commit₂ reply₁ reply₂ hne heq hloc
        injection heq with _ hindex
        exact hne (hi.single t' t m₂ m index commit₂ commit reply₂ reply (hindex ▸ hloc) phase)
  | settled m index commit d phase delivery current => exact hi.settled phase delivery current

theorem kafkaInv_step (hi : KafkaInv first p) {act : (T × KafkaAct M P) ⊕ KafkaEvent M P}
    (hone : OneCall p act)
    (h : kafkaPoolStep p act = some q) : KafkaInv first q := by
  cases act with
  | inl act =>
      obtain ⟨t, act⟩ := act
      obtain ⟨s', l', hstep, rfl⟩ := Pool.step_task h
      exact kafkaInv_task hi hone hstep
  | inr event =>
      obtain ⟨s', hevent, rfl⟩ := Pool.step_env h
      exact kafkaInv_event hi hevent

theorem kafkaInv_reaches {stored : P → Option Nat} {earliest : P → Nat}
    (hp : Reaches (restrict OneCall kafkaPoolStep) (.init M P T stored earliest) p) :
    KafkaInv (fun k => (stored k).getD (earliest k)) p := by
  refine hp.invariant ?_ (kafkaInv_init stored earliest)
  intro p act q hi h
  obtain ⟨hone, hstep⟩ := restrict_eq_some.mp h
  exact kafkaInv_step hi hone hstep

omit [DecidableEq P] [DecidableEq T] in
theorem SameButLock.generation {c c' : KafkaConsumer P T} (h : SameButLock c c') :
    c'.generation = c.generation := by
  obtain ⟨lock, closed, rfl⟩ := h
  rfl

-- The deliveries and the generations of the consumers over a step of a call.
theorem kafkaTask_keeps (hi : KafkaInv first p) {t : T} {act : KafkaAct M P} {next : KafkaNext M P T}
    (h : kafkaStep t p.shared (p.loc t) act = some next) {index : Nat} {d : KafkaDelivery M P}
    (hd : p.shared.deliveries[index]? = some d) :
    (∀ m, (next.1.consumers m).generation = (p.shared.consumers m).generation) ∧
      (next.1.deliveries[index]? = some d ∨ d.generation = (p.shared.consumers d.source).generation) := by
  cases kafkaStep_effect h with
  | passed _ s' l' same phase =>
      obtain ⟨consumers, orphans, rfl⟩ := same.state
      exact ⟨fun m => (same.consumers m).generation, .inl hd⟩
  | called => exact ⟨fun _ => rfl, .inl hd⟩
  | taken m k r group phase record joined =>
      obtain ⟨-, hspec⟩ := takeRecord_fresh t r group (hi.free_of_next record)
      constructor
      · intro m'
        by_cases hm : m' = m
        · subst hm
          exact hspec.consumer.generation
        · exact (hspec.others m' hm).generation
      · left
        rw [hspec.deliveries]
        exact (getElem?_concat _ _ _ _).mpr (.inl hd)
  | executed m other commit phase =>
      obtain ⟨-, heq⟩ | ⟨-, heq⟩ := commitOffset_cases p.shared commit
      · rw [heq]
        exact ⟨fun _ => rfl, .inl hd⟩
      · rw [heq]
        exact ⟨fun _ => rfl, .inl hd⟩
  | resent => exact ⟨fun _ => rfl, .inl hd⟩
  | settled m other commit x phase delivery current =>
      refine ⟨fun m' => ?_, ?_⟩
      · rw [settleKafka_consumers]
        split
        · rename_i hm
          rw [hm]
          rfl
        · rfl
      · by_cases hindex : other = index
        · subst hindex
          obtain rfl := Option.some.inj (delivery.symm.trans hd)
          obtain ⟨y, hcall⟩ : KafkaPhaseOk p.shared (.committing m other commit (some true)) :=
            phase ▸ hi.phases t
          obtain rfl := Option.some.inj (delivery.symm.trans hcall.delivery)
          right
          rw [hcall.source]
          exact current
        · exact .inl (getElem?_modify_some.mpr ⟨d, hd, (if_neg hindex).symm⟩)

omit [DecidableEq T] in
theorem kafkaEvent_keeps {s s' : KafkaShared M P T} {event : KafkaEvent M P}
    (h : kafkaEvent s event = some s') :
    s'.deliveries = s.deliveries ∧ ∀ m, (s.consumers m).generation ≤ (s'.consumers m).generation := by
  have hset : ∀ (m : M) (c : KafkaConsumer P T), (s.consumers m).generation ≤ c.generation →
      ∀ m', (s.consumers m').generation ≤ (Function.update s.consumers m c m').generation := by
    intro m c hle m'
    by_cases hm : m' = m
    · subst hm
      rw [Function.update_self]
      exact hle
    · exact Nat.le_of_eq (by rw [Function.update_of_ne hm])
  cases kafkaEvent_moved h with
  | produced k offset value ahead => exact ⟨rfl, fun _ => Nat.le_refl _⟩
  | orphan index commit sent =>
      obtain ⟨-, heq⟩ | ⟨-, heq⟩ := commitOffset_cases s commit
      · rw [heq]
        exact ⟨rfl, fun _ => Nat.le_refl _⟩
      · rw [heq]
        exact ⟨rfl, fun _ => Nat.le_refl _⟩
  | rebalance => exact ⟨rfl, fun _ => Nat.le_refl _⟩
  | revoked m running => exact ⟨rfl, hset m _ (Nat.le_succ _)⟩
  | assigned m partitions running outside free => exact ⟨rfl, hset m _ (Nat.le_refl _)⟩
  | aclose m => exact ⟨rfl, hset m _ (Nat.le_refl _)⟩
  | stop m => exact ⟨rfl, hset m _ (Nat.le_refl _)⟩

-- A delivery of an older generation stays as it is.
theorem stale_kept (hi : KafkaInv first p) {act : (T × KafkaAct M P) ⊕ KafkaEvent M P}
    (h : kafkaPoolStep p act = some q) {index : Nat} {d : KafkaDelivery M P}
    (hd : p.shared.deliveries[index]? = some d)
    (hstale : d.generation < (p.shared.consumers d.source).generation) :
    q.shared.deliveries[index]? = some d ∧ d.generation < (q.shared.consumers d.source).generation := by
  cases act with
  | inl act =>
      obtain ⟨t, act⟩ := act
      obtain ⟨s', l', hstep, rfl⟩ := Pool.step_task h
      obtain ⟨hgeneration, hkept | hcurrent⟩ := kafkaTask_keeps hi hstep hd
      · exact ⟨hkept, (hgeneration d.source).symm ▸ hstale⟩
      · omega
  | inr event =>
      obtain ⟨s', hevent, rfl⟩ := Pool.step_env h
      obtain ⟨hdeliveries, hgeneration⟩ := kafkaEvent_keeps hevent
      exact ⟨hdeliveries ▸ hd, Nat.lt_of_lt_of_le hstale (hgeneration d.source)⟩

theorem stale_reaches (hi : KafkaInv first p) (hq : Reaches (restrict OneCall kafkaPoolStep) p q)
    {index : Nat}
    {d : KafkaDelivery M P} (hd : p.shared.deliveries[index]? = some d)
    (hstale : d.generation < (p.shared.consumers d.source).generation) :
      q.shared.deliveries[index]? = some d := by
  have hkeep : ∀ (p : KafkaPool M P T) act q,
      (KafkaInv first p ∧ p.shared.deliveries[index]? = some d ∧
        d.generation < (p.shared.consumers d.source).generation) →
      restrict OneCall kafkaPoolStep p act = some q →
      KafkaInv first q ∧ q.shared.deliveries[index]? = some d ∧
        d.generation < (q.shared.consumers d.source).generation := by
    rintro p act q ⟨hi, hd, hstale⟩ h
    obtain ⟨hone, hstep⟩ := restrict_eq_some.mp h
    exact ⟨kafkaInv_step hi hone hstep, stale_kept hi hstep hd hstale⟩
  exact (hq.invariant hkeep ⟨hi, hd, hstale⟩).2.1

-- A call on such a delivery leaves the consumers as they are, whatever comes back from its commit.
theorem stale_call (hi : KafkaInv first p) {t : T} {m : M} {index : Nat} {commit : KafkaCommit P}
    {reply : Option Bool} {d : KafkaDelivery M P} (hloc : p.loc t = .committing m index commit reply)
    (hd : p.shared.deliveries[index]? = some d)
    (hstale : d.generation < (p.shared.consumers d.source).generation) {act : KafkaAct M P}
    {next : KafkaNext M P T} (h : kafkaStep t p.shared (p.loc t) act = some next) (m' : M) :
    SameButLock (p.shared.consumers m') (next.1.consumers m') := by
  obtain ⟨x, hcall⟩ : KafkaPhaseOk p.shared (.committing m index commit reply) := hloc ▸ hi.phases t
  obtain rfl := Option.some.inj (hd.symm.trans hcall.delivery)
  cases kafkaStep_effect h with
  | passed _ _ _ same phase => exact same.consumers m'
  | called => exact sameButLock_refl _
  | taken _ _ _ _ phase => cases hloc.symm.trans phase
  | executed _ _ sent _ =>
      obtain ⟨-, heq⟩ | ⟨-, heq⟩ := commitOffset_cases p.shared sent
      · rw [heq]
        exact sameButLock_refl _
      · rw [heq]
        exact sameButLock_refl _
  | resent => exact sameButLock_refl _
  | settled _ other _ x phase delivery current =>
      rw [hloc] at phase
      injection phase with hsource hindex
      subst hsource hindex
      obtain rfl := Option.some.inj (hd.symm.trans delivery)
      rw [hcall.source] at hstale
      omega

end Steps

end Invariant

section Results

variable [DecidableEq M] [DecidableEq P] [DecidableEq T]

-- What the driver promises in a state, and for the runs from it on whose steps meet `ok`.
structure KafkaSafe (ok : KafkaPool M P T → (T × KafkaAct M P) ⊕ KafkaEvent M P → Prop) (first : P → Nat)
    (p : KafkaPool M P T) : Prop where
  -- every record below a committed offset was acknowledged by a delivery of that record
  committed : ∀ k n, p.shared.committed k = some n → ∀ r ∈ p.shared.log k, first k ≤ r.offset →
    r.offset < n →
    ∃ (index : Nat) (d : KafkaDelivery M P), p.shared.deliveries[index]? = some d ∧ d.partition = k ∧
      d.offset = r.offset ∧ d.payload = r.value.getD [] ∧ index ∈ p.shared.acknowledges
  -- a consumer has at most one delivery of a partition pending, and at most one to acknowledge
  pending : ∀ m, ((p.shared.consumers m).pending.map (·.1)).Nodup
  alive : ∀ (i j : Nat) (x y : KafkaDelivery M P), p.shared.deliveries[i]? = some x →
    p.shared.deliveries[j]? = some y → x.source = y.source → x.partition = y.partition →
    x.generation = (p.shared.consumers x.source).generation →
    y.generation = (p.shared.consumers y.source).generation → x.settled = false → y.settled = false → i = j
  -- a delivery of an older generation is never settled
  unsettled : ∀ (index : Nat) (d : KafkaDelivery M P), p.shared.deliveries[index]? = some d →
    d.generation < (p.shared.consumers d.source).generation → d.settled = false →
    ∀ q, Reaches (restrict ok kafkaPoolStep) p q → q.shared.deliveries[index]? = some d
  -- `acknowledge` on it raises at once and sends nothing
  refused : ∀ (t : T) (index : Nat) (d : KafkaDelivery M P), p.loc t = .idle →
    p.shared.deliveries[index]? = some d →
    d.generation < (p.shared.consumers d.source).generation →
    kafkaPoolStep p (.inl (t, .acknowledge index)) = some (p.move t p.shared (.raised .deliveryLost))
  -- and a call that was under way removes no pending delivery, resumes and trusts no partition
  harmless : ∀ (t : T) (m : M) (index : Nat) (commit : KafkaCommit P) (reply : Option Bool)
    (d : KafkaDelivery M P), p.loc t = .committing m index commit reply →
    p.shared.deliveries[index]? = some d → d.generation < (p.shared.consumers d.source).generation →
    ∀ act q, kafkaPoolStep p (.inl (t, act)) = some q →
    ∀ m', (q.shared.consumers m').pending = (p.shared.consumers m').pending ∧
      (q.shared.consumers m').paused = (p.shared.consumers m').paused ∧
      (q.shared.consumers m').trustedPartitions = (p.shared.consumers m').trustedPartitions

variable {p : KafkaPool M P T} {stored : P → Option Nat} {earliest : P → Nat}

theorem offset_inj {log : List KafkaRecord} (hsorted : log.Pairwise (·.offset < ·.offset))
    {a b : KafkaRecord}
    (ha : a ∈ log) (hb : b ∈ log) (h : a.offset = b.offset) : a = b := by
  have hnodup : (log.map (·.offset)).Nodup := by
    rw [List.Nodup, List.pairwise_map]
    exact hsorted.imp Nat.ne_of_lt
  exact List.inj_on_of_nodup_map hnodup ha hb h

theorem kafka_safe (hp : Reaches (restrict OneCall kafkaPoolStep) (.init M P T stored earliest) p) :
    KafkaSafe OneCall (fun k => (stored k).getD (earliest k)) p := by
  have hi := kafkaInv_reaches hp
  refine ⟨?_, fun m => (hi.pending m).keys, ?_, ?_, ?_, ?_⟩
  · intro k n hcommitted r hr hfirst hlt
    have hdone := hi.starts k
    have hstart : startOffset p.shared k = n := by rw [startOffset, hcommitted, Option.getD_some]
    rw [hstart] at hdone
    obtain ⟨index, d, hd, hpartition, hoffset, hindex⟩ := hdone.acknowledged r hr hfirst hlt
    refine ⟨index, d, hd, hpartition, hoffset, ?_, hindex⟩
    -- the offsets of a log are distinct, so the record of the delivery is this one
    obtain ⟨record, hrecord, heq, hpayload⟩ := (hi.deliveries d (List.mem_of_getElem? hd)).record
    rw [hpartition] at hrecord
    rw [hpayload, offset_inj (hi.sorted k) hrecord hr (heq.trans hoffset)]
  · intro i j x y hx hy hsource hpartition hxcurrent hycurrent hxopen hyopen
    refine (hi.pending x.source).unique hx hy ⟨rfl, hxcurrent, hxopen⟩ ⟨hsource.symm, ?_, hyopen⟩ hpartition
    rw [hsource]
    exact hycurrent
  · intro index d hd hstale _ q hq
    exact stale_reaches hi hq hd hstale
  · intro t index d hloc hd hstale
    have hlost : d.settled ∨ (p.shared.consumers d.source).closed ∨
        d.generation ≠ (p.shared.consumers d.source).generation := .inr (.inr (Nat.ne_of_lt hstale))
    refine Pool.step_of_task ?_
    simp only [kafkaStep, hloc, hd, callCommit, if_pos hlost]
  · intro t m index commit reply d hloc hd hstale act q hstep m'
    obtain ⟨s', l', hl, rfl⟩ := Pool.step_task hstep
    obtain ⟨lock, closed, heq⟩ := stale_call hi hloc hd hstale hl m'
    rw [Pool.move_shared, heq]
    exact ⟨rfl, rfl, rfl⟩

end Results

section Calls

variable [DecidableEq M] [DecidableEq P] [DecidableEq T] {p q : KafkaPool M P T}

-- The delivery on which an action calls `acknowledge`.
def acknowledgeOf : (T × KafkaAct M P) ⊕ KafkaEvent M P → Option Nat
  | .inl (_, .acknowledge index) => some index
  | _ => none

-- A call that waits for its commit waited before the step, or begins with it.
theorem committing_step {act : (T × KafkaAct M P) ⊕ KafkaEvent M P}
    (h : kafkaPoolStep p act = some q) {t : T}
    {m : M} {index : Nat} {commit : KafkaCommit P} {reply : Option Bool}
    (hloc : q.loc t = .committing m index commit reply) :
    (∃ m commit reply, p.loc t = .committing m index commit reply) ∨ acknowledgeOf act = some index := by
  cases act with
  | inl act =>
      obtain ⟨t', act⟩ := act
      obtain ⟨next, hstep, rfl⟩ := Option.map_eq_some_iff.mp h
      by_cases ht : t = t'
      · subst ht
        rw [Pool.move_loc_self] at hloc
        cases kafkaStep_effect hstep with
        | passed _ s' l' same phase => exact absurd hloc (phase _ _ _ _)
        | called other d group delivery unsettled current joined =>
            injection hloc with _ hindex
            exact .inr (congrArg some hindex)
        | taken m' k r group phase record joined =>
            have hreceived : (takeRecord p.shared t m' k r group).2 ≠ .committing m index commit reply := by
              simp only [takeRecord]
              split <;> exact nofun
            exact absurd hloc hreceived
        | executed m' other sent phase =>
            injection hloc with _ hindex
            exact .inl ⟨m', sent, none, hindex ▸ phase⟩
        | resent m' other sent reply' phase =>
            injection hloc with _ hindex
            exact .inl ⟨m', sent, reply', hindex ▸ phase⟩
        | settled m' other sent d phase delivery current => cases hloc
      · rw [Pool.move_loc_ne _ _ _ ht] at hloc
        exact .inl ⟨m, commit, reply, hloc⟩
  | inr event =>
      obtain ⟨s', -, rfl⟩ := Pool.step_env h
      exact .inl ⟨m, commit, reply, hloc⟩

-- A schedule that acknowledges no delivery twice.
theorem oneCall_along {acts : List ((T × KafkaAct M P) ⊕ KafkaEvent M P)}
    (hnodup : (acts.filterMap acknowledgeOf).Nodup)
    (hfree : ∀ t m index commit reply, p.loc t = .committing m index commit reply →
      index ∉ acts.filterMap acknowledgeOf) : Along kafkaPoolStep OneCall p acts := by
  induction acts generalizing p with
  | nil => trivial
  | cons act rest ih =>
      refine ⟨?_, fun next hnext => ?_⟩
      · unfold OneCall
        split
        · rename_i index
          intro t m commit reply hloc
          exact hfree t m index commit reply hloc (by simp [acknowledgeOf])
        · trivial
      · have hsublist : (rest.filterMap acknowledgeOf).Sublist ((act :: rest).filterMap acknowledgeOf) :=
          (List.sublist_cons_self act rest).filterMap _
        refine ih (hnodup.sublist hsublist) fun t m index commit reply hloc hmem => ?_
        obtain ⟨m', commit', reply', hold⟩ | hnew := committing_step hnext hloc
        · exact hfree t m' index commit' reply' hold (hsublist.subset hmem)
        · rw [List.filterMap_cons_some hnew] at hnodup
          exact (List.nodup_cons.mp hnodup).1 hmem

end Calls

-- Three records of one partition, which one consumer reads.
def threeRecords : List ((Nat × KafkaAct Unit Unit) ⊕ KafkaEvent Unit Unit) :=
  [.inr (.produced () 0 (some [0])), .inr (.produced () 1 (some [1])), .inr (.produced () 2 (some [2])),
    .inr (.assigned () [()])]

def receives (t : Nat) : List ((Nat × KafkaAct Unit Unit) ⊕ KafkaEvent Unit Unit) :=
  [.inl (t, .receive ()), .inl (t, .acquire), .inl (t, .getone ())]

-- Two calls acknowledge the first delivery together. The second one to return takes the next
-- delivery out of `pending` and lets the partition go on, so that the third record is committed while
-- nobody has acknowledged the second one.
theorem overlapping_acknowledges_skip : ¬ ∀ p : KafkaPool Unit Unit Nat,
    Reaches kafkaPoolStep (.init Unit Unit Nat (fun _ => none) fun _ => 0) p →
    KafkaSafe (fun _ _ => True) (fun _ => 0) p := by
  intro h
  let acts := threeRecords ++ receives 0 ++ [.inl (1, .acknowledge 0), .inl (2, .acknowledge 0),
    .inl (1, .execute), .inl (2, .execute),
    .inl (1, .reply)] ++ receives 3 ++ [.inl (2, .reply)] ++ receives 4 ++
    [.inl (5, .acknowledge 2), .inl (5, .execute)]
  have hrun : run kafkaPoolStep (.init Unit Unit Nat (fun _ => none) fun _ => 0) acts = some _ := rfl
  obtain ⟨index, d, hd, -, hoffset, -, hindex⟩ :=
    (h _ ⟨acts, hrun⟩).committed () 3 rfl ⟨1, some [1]⟩ (by decide) (by decide) (by decide)
  have hcalls : index ∈ [0, 0, 2] := hindex
  obtain rfl | rfl | rfl : index = 0 ∨ index = 0 ∨ index = 2 := by simpa using hcalls
  · obtain rfl := Option.some.inj hd
    cases hoffset
  · obtain rfl := Option.some.inj hd
    cases hoffset
  · obtain rfl := Option.some.inj hd
    cases hoffset

-- A rebalance takes the partition away and back while the commit of the first delivery is under way.
-- The commit is applied, its call is lost, and the delivery of the new assignment stays pending.
theorem kafka_safe_rebalanced : ∃ p q : KafkaPool Unit Unit Nat,
    Reaches (restrict OneCall kafkaPoolStep) (.init Unit Unit Nat (fun _ => none) fun _ => 0) p ∧
      p.shared.committed () = some 1 ∧
      p.shared.deliveries.map (fun d => (d.offset, d.generation, d.settled)) =
        [(0, 0, false), (1, 1, false)] ∧
      kafkaPoolStep p (.inl (1, .reply)) = some q ∧ q.loc 1 = .raised .deliveryLost ∧
      (p.shared.consumers ()).pending = [((), 1)] ∧
      (q.shared.consumers ()).pending = (p.shared.consumers ()).pending := by
  let acts := threeRecords ++ receives 0 ++ [.inl (1, .acknowledge 0), .inr (.revoked ()),
    .inl (1, .execute),
    .inr .rebalance, .inr (.assigned () [()])] ++ receives 2
  have hone : Along kafkaPoolStep OneCall (.init Unit Unit Nat (fun _ => none) fun _ => 0) acts :=
    oneCall_along (by decide) nofun
  have hrun : run kafkaPoolStep (.init Unit Unit Nat (fun _ => none) fun _ => 0) acts = some _ := rfl
  have hreach : Reaches (restrict OneCall kafkaPoolStep)
    (.init Unit Unit Nat (fun _ => none) fun _ => 0) _ :=
    ⟨acts, run_restrict hone hrun⟩
  refine ⟨_, _, hreach, rfl, rfl, rfl, rfl, rfl, ?_⟩
  exact ((kafka_safe hreach).harmless 1 () 0 ⟨(), 1, 0⟩ (some true) _ rfl rfl (by decide) .reply _ rfl ()).1

end Scaffold.Queue
