import Scaffold.Amqp.Theorems
import Scaffold.Ledger
import Scaffold.Queue.Rabbit

namespace Scaffold.Queue

open Machine Ledger
open Amqp (QueueOk Sent)

variable {C T : Type} [DecidableEq C] [DecidableEq T] {t : T} {s s' : RabbitShared C T}
  {l l' : RabbitPhase C} {c : C}

section Invariant

-- `acknowledge` was called for the delivery with this tag.
def Called (s : RabbitShared C T) (c : C) (tag : Nat) : Prop :=
  ∃ index d, s.deliveries[index]? = some d ∧ d.source = c ∧ d.tag = tag ∧ index ∈ s.calls

-- The iterator returns the messages in the order of their tags, and gives back only what it has not
-- returned. What it holds is without acknowledgement as long as the channel is open.
structure ConsumerOk (s : RabbitShared C T) (c : C) : Prop where
  buffer : ∀ x ∈ (s.consumers c).buffer, x.channel = c ∧ x ∈ s.broker.sent ∧
    (s.broker.closed c = false → x ∈ s.broker.unacked)
  order : (s.consumers c).buffer.Pairwise (·.tag < ·.tag)
  handed : ∀ d ∈ s.deliveries, d.source = c → ∀ x ∈ (s.consumers c).buffer, d.tag < x.tag
  acks : ∀ tag, .ack tag ∈ (s.consumers c).frames → Called s c tag
  nacks : ∀ tag, .nack tag ∈ (s.consumers c).frames →
    (∃ x ∈ s.broker.sent, x.channel = c ∧ x.tag = tag) ∧
      (∀ x ∈ (s.consumers c).buffer, tag < x.tag) ∧ ∀ d ∈ s.deliveries, d.source = c → d.tag ≠ tag

structure RabbitOk (s : RabbitShared C T) : Prop where
  broker : QueueOk s.broker
  consumers : ∀ c, ConsumerOk s c
  deliveries : ∀ d ∈ s.deliveries, ∃ x ∈ s.broker.sent, d = rabbitDelivery x
  order : s.deliveries.Pairwise fun d e => d.source = e.source → d.tag < e.tag
  held : ∀ d ∈ s.deliveries, s.broker.closed d.source = false →
    ∃ x, d = rabbitDelivery x ∧ (x ∈ s.broker.unacked ∨ x ∈ s.broker.acked)
  acked : ∀ x ∈ s.broker.acked, Called s x.channel x.tag
  declared : s.declared = true → s.present = true

-- The channel is closed, or will be when the broker has read what was written.
def CloseWritten (s : RabbitShared C T) (c : C) : Prop :=
  s.broker.closed c = true ∨ .close ∈ (s.consumers c).frames

-- What holds of a call at its await.
def RabbitPhaseOk (t : T) (s : RabbitShared C T) : RabbitPhase C → Prop
  | .getting c => (s.consumers c).receiveLock = some t
  | .acking index _ => index ∈ s.calls
  | .declaring _ reply => s.lock = some t ∧ (reply = true → s.present = true)
  | .publishing _ none => s.present = true
  | .publishing payload (some id) => s.broker.log[id]? = some { body := payload }
  | .acknowledged index => index ∈ s.calls
  | .closing c true _ => CloseWritten s c
  | .closed c => CloseWritten s c
  | .published payload id => s.broker.log[id]? = some { body := payload }
  | _ => True

-- What a call leaves to the others.
structure RabbitGrows (s s' : RabbitShared C T) : Prop where
  present : s.present = true → s'.present = true
  calls : s.calls ⊆ s'.calls
  deliveries : s.deliveries <+: s'.deliveries
  log : s.broker.log <+: s'.broker.log
  closing : ∀ c, CloseWritten s c → CloseWritten s' c

structure RabbitRely (t : T) (s s' : RabbitShared C T) : Prop where
  grows : RabbitGrows s s'
  receive : ∀ c, (s.consumers c).receiveLock = some t → (s'.consumers c).receiveLock = some t
  lock : s.lock = some t → s'.lock = some t

omit [DecidableEq C] [DecidableEq T] in
theorem RabbitGrows.refl (s : RabbitShared C T) : RabbitGrows s s :=
  ⟨id, List.Subset.refl _, List.prefix_rfl, List.prefix_rfl, fun _ h => h⟩

omit [DecidableEq C] [DecidableEq T] in
theorem RabbitPhaseOk.stable (h : RabbitPhaseOk t s l) (hrely : RabbitRely t s s') :
    RabbitPhaseOk t s' l := by
  cases l with
  | getting c => exact hrely.receive c h
  | acking index sent => exact hrely.grows.calls h
  | declaring payload reply => exact ⟨hrely.lock h.1, fun hreply => hrely.grows.present (h.2 hreply)⟩
  | publishing payload confirm =>
      cases confirm with
      | none => exact hrely.grows.present h
      | some id => exact getElem?_of_prefix hrely.grows.log h
  | acknowledged index => exact hrely.grows.calls h
  | published payload id => exact getElem?_of_prefix hrely.grows.log h
  | idle => trivial
  | receiveLock c => trivial
  | cancelling c => trivial
  | closing c sent failed =>
      cases sent with
      | false => trivial
      | true => exact hrely.grows.closing c h
  | publishLock payload => trivial
  | received index => trivial
  | closed c => exact hrely.grows.closing c h
  | raised error => trivial

omit [DecidableEq C] [DecidableEq T] in
theorem Called.grows {tag : Nat} (h : Called s c tag) (hs : RabbitGrows s s') : Called s' c tag := by
  obtain ⟨index, d, hd, hsource, htag, hcalled⟩ := h
  exact ⟨index, d, getElem?_of_prefix hs.deliveries hd, hsource, htag, hs.calls hcalled⟩

end Invariant

section Shared

variable {x : Sent C RabbitMessage}

-- A step that leaves the broker, the deliveries, the buffers and the frames as they are.
structure RabbitSame (s s' : RabbitShared C T) : Prop where
  broker : s'.broker = s.broker
  deliveries : s'.deliveries = s.deliveries
  calls : s'.calls = s.calls
  buffer : ∀ c, (s'.consumers c).buffer = (s.consumers c).buffer
  frames : ∀ c, (s'.consumers c).frames = (s.consumers c).frames
  present : s.present = true → s'.present = true

omit [DecidableEq C] [DecidableEq T] in
theorem RabbitSame.grows (h : RabbitSame s s') : RabbitGrows s s' := by
  refine ⟨h.present, h.calls ▸ List.Subset.refl _, h.deliveries ▸ List.prefix_rfl, h.broker ▸ List.prefix_rfl, fun c hc => ?_⟩
  unfold CloseWritten
  rw [h.broker, h.frames]
  exact hc

omit [DecidableEq C] [DecidableEq T] in
theorem RabbitSame.refl (s : RabbitShared C T) : RabbitSame s s :=
  ⟨rfl, rfl, rfl, fun _ => rfl, fun _ => rfl, id⟩

omit [DecidableEq C] [DecidableEq T] in
theorem RabbitSame.trans {s₁ : RabbitShared C T} (h : RabbitSame s s₁) (h' : RabbitSame s₁ s') :
    RabbitSame s s' where
  broker := h'.broker.trans h.broker
  deliveries := h'.deliveries.trans h.deliveries
  calls := h'.calls.trans h.calls
  buffer c := (h'.buffer c).trans (h.buffer c)
  frames c := (h'.frames c).trans (h.frames c)
  present hs := h'.present (h.present hs)

omit [DecidableEq C] in
theorem releaseRabbit_same (s : RabbitShared C T) (t : T) : RabbitSame s (releaseRabbit s t) :=
  ⟨rfl, rfl, rfl, fun _ => rfl, fun _ => rfl, id⟩

omit [DecidableEq T] in
theorem setRabbitConsumer_same {consumer : RabbitConsumer C T}
    (hbuffer : consumer.buffer = (s.consumers c).buffer)
    (hframes : consumer.frames = (s.consumers c).frames) : RabbitSame s (setRabbitConsumer s c consumer) := by
  refine ⟨rfl, rfl, rfl, fun key => ?_, fun key => ?_, id⟩
  · by_cases hkey : key = c
    · subst hkey
      simpa [setRabbitConsumer] using hbuffer
    · simp [setRabbitConsumer, hkey]
  · by_cases hkey : key = c
    · subst hkey
      simpa [setRabbitConsumer] using hframes
    · simp [setRabbitConsumer, hkey]

omit [DecidableEq T] in
theorem RabbitOk.same (h : RabbitOk s) (hs : RabbitSame s s')
    (hdeclared : s'.declared = true → s.declared = true ∨ s'.present = true) : RabbitOk s' where
  broker := hs.broker ▸ h.broker
  consumers c := by
    have hc := h.consumers c
    refine ⟨?_, ?_, ?_, ?_, ?_⟩
    · rw [hs.buffer, hs.broker]
      exact hc.buffer
    · rw [hs.buffer]
      exact hc.order
    · rw [hs.buffer, hs.deliveries]
      exact hc.handed
    · rw [hs.frames]
      exact fun tag htag => (hc.acks tag htag).grows hs.grows
    · rw [hs.frames, hs.buffer, hs.broker, hs.deliveries]
      exact hc.nacks
  deliveries := by
    rw [hs.deliveries, hs.broker]
    exact h.deliveries
  order := by
    rw [hs.deliveries]
    exact h.order
  held := by
    rw [hs.deliveries, hs.broker]
    exact h.held
  acked x hx := by
    rw [hs.broker] at hx
    exact (h.acked x hx).grows hs.grows
  declared hd := (hdeclared hd).elim (fun hold => hs.present (h.declared hold)) id

omit [DecidableEq C] [DecidableEq T] in
theorem call_grows (s : RabbitShared C T) (index : Nat) :
    RabbitGrows s { s with calls := s.calls ++ [index] } :=
  ⟨id, List.subset_append_left _ _, List.prefix_rfl, List.prefix_rfl, fun _ h => h⟩

omit [DecidableEq T] in
theorem RabbitOk.call (h : RabbitOk s) (index : Nat) : RabbitOk { s with calls := s.calls ++ [index] } where
  broker := h.broker
  consumers c := by
    have hc := h.consumers c
    exact ⟨hc.buffer, hc.order, hc.handed, fun tag htag => (hc.acks tag htag).grows (call_grows s index),
      hc.nacks⟩
  deliveries := h.deliveries
  order := h.order
  held := h.held
  acked x hx := (h.acked x hx).grows (call_grows s index)
  declared := h.declared

-- A consumer that holds no more than before and writes frames that are in order.
omit [DecidableEq T] in
theorem RabbitOk.setConsumer (h : RabbitOk s) {consumer : RabbitConsumer C T}
    (hc : ConsumerOk (setRabbitConsumer s c consumer) c) : RabbitOk (setRabbitConsumer s c consumer) where
  broker := h.broker
  consumers key := by
    by_cases hkey : key = c
    · exact hkey ▸ hc
    · have hold := h.consumers key
      have hsame : (setRabbitConsumer s c consumer).consumers key = s.consumers key := by
        simp [setRabbitConsumer, hkey]
      refine ⟨?_, ?_, ?_, ?_, ?_⟩
      · rw [hsame]
        exact hold.buffer
      · rw [hsame]
        exact hold.order
      · rw [hsame]
        exact hold.handed
      · rw [hsame]
        exact hold.acks
      · rw [hsame]
        exact hold.nacks
  deliveries := h.deliveries
  order := h.order
  held := h.held
  acked := h.acked
  declared := h.declared

omit [DecidableEq T] in
theorem setRabbitConsumer_self (s : RabbitShared C T) (c : C) (consumer : RabbitConsumer C T) :
    (setRabbitConsumer s c consumer).consumers c = consumer := by
  simp [setRabbitConsumer]

omit [DecidableEq T] in
theorem RabbitOk.writeFrame (h : RabbitOk s) {frame : RabbitFrame}
    (hframe : frame = .close ∨ ∃ tag, frame = .ack tag ∧ Called s c tag) : RabbitOk (writeFrame s c frame) := by
  have hc := h.consumers c
  refine h.setConsumer ⟨?_, ?_, ?_, ?_, ?_⟩
  · rw [setRabbitConsumer_self]
    exact hc.buffer
  · rw [setRabbitConsumer_self]
    exact hc.order
  · rw [setRabbitConsumer_self]
    exact hc.handed
  · rw [setRabbitConsumer_self]
    intro tag htag
    obtain hold | hnew := List.mem_append.mp htag
    · exact hc.acks tag hold
    · obtain rfl := List.mem_singleton.mp hnew
      obtain heq | ⟨other, heq, hcalled⟩ := hframe
      · cases heq
      · obtain rfl := RabbitFrame.ack.inj heq
        exact hcalled
  · rw [setRabbitConsumer_self]
    intro tag htag
    obtain hold | hnew := List.mem_append.mp htag
    · exact hc.nacks tag hold
    · obtain rfl := List.mem_singleton.mp hnew
      obtain heq | ⟨other, heq, -⟩ := hframe <;> cases heq

omit [DecidableEq T] in
theorem RabbitOk.closeIterator (h : RabbitOk s) (c : C) : RabbitOk (closeIterator s c) := by
  have hc := h.consumers c
  refine h.setConsumer ⟨?_, ?_, ?_, ?_, ?_⟩
  · rw [setRabbitConsumer_self]
    exact fun _ hx => nomatch hx
  · rw [setRabbitConsumer_self]
    exact .nil
  · rw [setRabbitConsumer_self]
    exact fun _ _ _ _ hx => nomatch hx
  · rw [setRabbitConsumer_self]
    intro tag htag
    obtain hold | hnew := List.mem_append.mp htag
    · exact hc.acks tag hold
    · obtain ⟨x, -, heq⟩ := List.mem_map.mp hnew
      cases heq
  · rw [setRabbitConsumer_self]
    intro tag htag
    obtain hold | hnew := List.mem_append.mp htag
    · obtain ⟨hsent, -, hother⟩ := hc.nacks tag hold
      exact ⟨hsent, nofun, hother⟩
    · obtain ⟨x, hx, heq⟩ := List.mem_map.mp hnew
      obtain ⟨hchannel, hsent, -⟩ := hc.buffer x hx
      obtain rfl := RabbitFrame.nack.inj heq
      exact ⟨⟨x, hsent, hchannel, rfl⟩, nofun, fun d hd hsource => Nat.ne_of_lt (hc.handed d hd hsource x hx)⟩

omit [DecidableEq T] in
theorem RabbitOk.publishMessage (h : RabbitOk s) (message : RabbitMessage) :
    RabbitOk (publishMessage s message) where
  broker := h.broker.publish message
  consumers c := by
    have hc := h.consumers c
    exact ⟨hc.buffer, hc.order, hc.handed, hc.acks, hc.nacks⟩
  deliveries := h.deliveries
  order := h.order
  held := h.held
  acked := h.acked
  declared := h.declared

omit [DecidableEq T] in
theorem setRabbitConsumer_frames {consumer : RabbitConsumer C T}
    (h : ∀ frame ∈ (s.consumers c).frames, frame ∈ consumer.frames) (key : C) {frame : RabbitFrame}
    (hframe : frame ∈ (s.consumers key).frames) :
    frame ∈ ((setRabbitConsumer s c consumer).consumers key).frames := by
  by_cases hkey : key = c
  · subst hkey
    rw [setRabbitConsumer_self]
    exact h frame hframe
  · simpa [setRabbitConsumer, hkey] using hframe

omit [DecidableEq T] in
theorem setBuffer_frames {buffer : List (Sent C RabbitMessage)} {frame : RabbitFrame} (key : C)
    (hframe : frame ∈ (s.consumers key).frames) :
    frame ∈ ((setRabbitConsumer s c { s.consumers c with buffer := buffer }).consumers key).frames := by
  refine setRabbitConsumer_frames ?_ key hframe
  exact fun _ h => h

omit [DecidableEq T] in
theorem handOut_grows {rest : List (Sent C RabbitMessage)} :
    RabbitGrows s { setRabbitConsumer s c { s.consumers c with buffer := rest } with
      deliveries := s.deliveries ++ [rabbitDelivery x] } :=
  ⟨id, List.Subset.refl _, List.prefix_append _ _, List.prefix_rfl, fun key hkey =>
    hkey.imp_right (setBuffer_frames key)⟩

-- The consumers after the first buffered message has been handed out.
omit [DecidableEq T] in
theorem RabbitOk.handOut_consumers (h : RabbitOk s) {rest : List (Sent C RabbitMessage)}
    (hbuffer : (s.consumers c).buffer = x :: rest) (key : C) :
    ConsumerOk { setRabbitConsumer s c { s.consumers c with buffer := rest } with
      deliveries := s.deliveries ++ [rabbitDelivery x] } key := by
  have hc := h.consumers c
  have horder := hc.order
  rw [hbuffer, List.pairwise_cons] at horder
  obtain ⟨hchannel, -, -⟩ := hc.buffer x (hbuffer ▸ List.mem_cons_self)
  have hrest : ∀ y ∈ rest, y ∈ (s.consumers c).buffer := fun y hy =>
    hbuffer ▸ List.mem_cons_of_mem _ hy
  have hgrows : RabbitGrows s { setRabbitConsumer s c { s.consumers c with buffer := rest } with
      deliveries := s.deliveries ++ [rabbitDelivery x] } := handOut_grows
  by_cases hkey : key = c
  · subst hkey
    refine ⟨?_, ?_, ?_, ?_, ?_⟩ <;> simp only [setRabbitConsumer_self]
    · exact fun y hy => hc.buffer y (hrest y hy)
    · exact horder.2
    · intro d hd hsource y hy
      obtain hold | hnew := List.mem_append.mp hd
      · exact hc.handed d hold hsource y (hrest y hy)
      · obtain rfl := List.mem_singleton.mp hnew
        exact horder.1 y hy
    · exact fun tag htag => (hc.acks tag htag).grows hgrows
    · intro tag htag
      obtain ⟨hknown, hbelow, hother⟩ := hc.nacks tag htag
      refine ⟨hknown, fun y hy => hbelow y (hrest y hy), fun d hd hsource => ?_⟩
      obtain hold | hnew := List.mem_append.mp hd
      · exact hother d hold hsource
      · obtain rfl := List.mem_singleton.mp hnew
        exact Nat.ne_of_gt (hbelow x (hbuffer ▸ List.mem_cons_self))
  · have hold := h.consumers key
    have hsame : (setRabbitConsumer s c { s.consumers c with buffer := rest }).consumers key =
        s.consumers key := by
      simp [setRabbitConsumer, hkey]
    refine ⟨?_, ?_, ?_, ?_, ?_⟩ <;> simp only [hsame]
    · exact hold.buffer
    · exact hold.order
    · intro d hd hsource y hy
      obtain hin | hnew := List.mem_append.mp hd
      · exact hold.handed d hin hsource y hy
      · obtain rfl := List.mem_singleton.mp hnew
        exact absurd (hsource.symm.trans hchannel) hkey
    · exact fun tag htag => (hold.acks tag htag).grows hgrows
    · intro tag htag
      obtain ⟨hknown, hbelow, hother⟩ := hold.nacks tag htag
      refine ⟨hknown, hbelow, fun d hd hsource => ?_⟩
      obtain hin | hnew := List.mem_append.mp hd
      · exact hother d hin hsource
      · obtain rfl := List.mem_singleton.mp hnew
        exact absurd (hsource.symm.trans hchannel) hkey

-- The head of the buffer becomes a delivery.
omit [DecidableEq T] in
theorem RabbitOk.handOut (h : RabbitOk s) {rest : List (Sent C RabbitMessage)}
    (hbuffer : (s.consumers c).buffer = x :: rest) :
    RabbitOk { setRabbitConsumer s c { s.consumers c with buffer := rest } with
      deliveries := s.deliveries ++ [rabbitDelivery x] } := by
  have hc := h.consumers c
  obtain ⟨hchannel, hsent, hheld⟩ := hc.buffer x (hbuffer ▸ List.mem_cons_self)
  have hgrows : RabbitGrows s { setRabbitConsumer s c { s.consumers c with buffer := rest } with
      deliveries := s.deliveries ++ [rabbitDelivery x] } := handOut_grows
  constructor
  · exact h.broker
  · exact h.handOut_consumers hbuffer
  · intro d hd
    obtain hold | hnew := List.mem_append.mp hd
    · exact h.deliveries d hold
    · obtain rfl := List.mem_singleton.mp hnew
      exact ⟨x, hsent, rfl⟩
  · refine List.pairwise_append.mpr ⟨h.order, List.pairwise_singleton _ _, fun d hd e he hsource => ?_⟩
    obtain rfl := List.mem_singleton.mp he
    exact hc.handed d hd (hsource.trans hchannel) x (hbuffer ▸ List.mem_cons_self)
  · intro d hd hopen
    obtain hold | hnew := List.mem_append.mp hd
    · exact h.held d hold hopen
    · obtain rfl := List.mem_singleton.mp hnew
      exact ⟨x, rfl, .inl (hheld (hchannel ▸ hopen))⟩
  · exact fun y hy => (h.acked y hy).grows hgrows
  · exact h.declared

end Shared

section Steps

-- What a step of a call does: it moves the call alone, hands out a message, writes a frame, gives back
-- what the iterator holds, or publishes.
inductive RabbitEffect (t : T) (s : RabbitShared C T) (l : RabbitPhase C) (act : RabbitAct C) :
    RabbitNext C T → Prop
  | passed (s' : RabbitShared C T) (l' : RabbitPhase C) (same : RabbitSame s s')
      (declared : RabbitPhaseOk t s l → s'.declared = true → s.declared = true ∨ s'.present = true)
      (receive : ∀ t' c, t' ≠ t → (s.consumers c).receiveLock = some t' →
        (s'.consumers c).receiveLock = some t')
      (lock : ∀ t', t' ≠ t → s.lock = some t' → s'.lock = some t')
      (phase : RabbitOk s → RabbitPhaseOk t s l → RabbitPhaseOk t s' l')
      (confirm : ∀ payload id, l' ≠ .publishing payload (some id))
      (confirmed : ∀ payload id, l' = .published payload id → l = .publishing payload (some id)) :
      RabbitEffect t s l act (s', l')
  | called (index : Nat) (hact : act = .acknowledge index) :
      RabbitEffect t s l act ({ s with calls := s.calls ++ [index] }, .acking index false)
  | handed (c : C) (x : Sent C RabbitMessage) (rest : List (Sent C RabbitMessage))
      (hact : act = .next) (hl : l = .getting c) (hbuffer : (s.consumers c).buffer = x :: rest) :
      RabbitEffect t s l act (handOut s t c x rest)
  | acked (index : Nat) (d : RabbitDelivery C) (hl : l = .acking index false)
      (hd : s.deliveries[index]? = some d) :
      RabbitEffect t s l act (writeFrame s d.source (.ack d.tag), .acking index true)
  | cancelled (c : C) (hl : l = .cancelling c) :
      RabbitEffect t s l act (closeIterator s c, .closing c false false)
  | closed (c : C) (failed : Bool) (hl : l = .closing c false failed) :
      RabbitEffect t s l act (writeFrame s c .close, .closing c true failed)
  | published (payload : Bytes) (hl : l = .publishing payload none) (hpresent : s.present = true) :
      RabbitEffect t s l act (publishMessage s { body := payload }, .publishing payload (some s.broker.log.length))

variable {next : RabbitNext C T} {act : RabbitAct C}

omit [DecidableEq C] in
theorem releaseRabbit_receive {t' : T} (ht : t' ≠ t) (h : (s.consumers c).receiveLock = some t') :
    ((releaseRabbit s t).consumers c).receiveLock = some t' := by
  have hne : (s.consumers c).receiveLock ≠ some t := fun heq => ht (Option.some.inj (h.symm.trans heq))
  exact (if_neg hne).trans h

omit [DecidableEq C] in
theorem releaseRabbit_lock {t' : T} (ht : t' ≠ t) (h : s.lock = some t') :
    (releaseRabbit s t).lock = some t' := by
  have hne : s.lock ≠ some t := fun heq => ht (Option.some.inj (h.symm.trans heq))
  exact (if_neg hne).trans h

-- A call that only goes on, or gives up its locks.
theorem stays_effect (h : RabbitPhaseOk t s l → RabbitPhaseOk t s l')
    (confirm : ∀ payload id, l' ≠ .publishing payload (some id))
    (confirmed : ∀ payload id, l' = .published payload id → l = .publishing payload (some id)) :
    RabbitEffect t s l act (s, l') :=
  .passed s l' (.refl s) (fun _ => .inl) (fun _ _ _ hold => hold) (fun _ _ hold => hold) (fun _ => h) confirm confirmed

theorem raiseRabbit_effect {s₀ : RabbitShared C T} {error : RabbitError} (same : RabbitSame s s₀)
    (declared : s₀.declared = s.declared)
    (receive : ∀ c, (s₀.consumers c).receiveLock = (s.consumers c).receiveLock) (lock : s₀.lock = s.lock) :
    RabbitEffect t s l act (raiseRabbit s₀ t error) := by
  refine .passed _ _ (same.trans (releaseRabbit_same s₀ t)) (fun _ hd => .inl (declared.symm.trans hd))
    (fun t' c ht hold => ?_) (fun t' ht hold => ?_) (fun _ _ => trivial) (fun _ _ => nofun) fun _ _ => nofun
  · exact releaseRabbit_receive ht ((receive c).trans hold)
  · exact releaseRabbit_lock ht (lock.trans hold)

theorem raises_effect {error : RabbitError} : RabbitEffect t s l act (raiseRabbit s t error) :=
  raiseRabbit_effect (.refl s) rfl (fun _ => rfl) rfl

theorem acquireRabbit_effect (h : acquireRabbit s t l = some next) : RabbitEffect t s l act next := by
  unfold acquireRabbit at h
  split at h
  · rename_i c
    dsimp only at h
    split_ifs at h with hfree hclosed
    · obtain rfl := Option.some.inj h
      exact raises_effect
    · obtain rfl := Option.some.inj h
      refine .passed _ _ (setRabbitConsumer_same rfl rfl) (fun _ => .inl) (fun t' key ht hold => ?_)
        (fun _ _ hold => hold) (fun _ _ => ?_) (fun _ _ => nofun) fun _ _ => nofun
      · by_cases hkey : key = c
        · subst hkey
          rw [hfree] at hold
          cases hold
        · simpa [setRabbitConsumer, hkey] using hold
      · exact congrArg RabbitConsumer.receiveLock (setRabbitConsumer_self s c _)
  · split_ifs at h with hfree hdeclared
    · obtain rfl := Option.some.inj h
      exact .passed _ _ (.refl s) (fun _ => .inl) (fun _ _ _ hold => hold) (fun _ _ hold => hold)
        (fun hok _ => hok.declared hdeclared) (fun _ _ => nofun) fun _ _ => nofun
    · obtain rfl := Option.some.inj h
      refine .passed _ _ ⟨rfl, rfl, rfl, fun _ => rfl, fun _ => rfl, id⟩ (fun _ => .inl)
        (fun _ _ _ hold => hold) (fun t' ht hold => ?_) (fun _ _ => ⟨rfl, nofun⟩) (fun _ _ => nofun)
        fun _ _ => nofun
      rw [hfree] at hold
      cases hold
  · cases h

theorem executeRabbit_effect (h : executeRabbit s t l = some next) : RabbitEffect t s l act next := by
  unfold executeRabbit at h
  split at h
  · split at h
    · cases h
    · rename_i d hd
      obtain rfl := Option.some.inj h
      exact .acked _ d rfl hd
  · obtain rfl := Option.some.inj h
    exact .cancelled _ rfl
  · obtain rfl := Option.some.inj h
    exact .closed _ _ rfl
  · obtain rfl := Option.some.inj h
    exact .passed _ _ ⟨rfl, rfl, rfl, fun _ => rfl, fun _ => rfl, fun _ => rfl⟩ (fun _ => .inl)
      (fun _ _ _ hold => hold) (fun _ _ hold => hold) (fun _ hl => ⟨hl.1, fun _ => rfl⟩)
      (fun _ _ => nofun) fun _ _ => nofun
  · split_ifs at h with hpresent
    · obtain rfl := Option.some.inj h
      exact .published _ rfl hpresent
    · obtain rfl := Option.some.inj h
      exact raises_effect
  · cases h

theorem replyRabbit_effect (h : replyRabbit s t l = some next) : RabbitEffect t s l act next := by
  unfold replyRabbit at h
  split at h
  · obtain rfl := Option.some.inj h
    exact stays_effect id (fun _ _ => nofun) fun _ _ => nofun
  · split_ifs at h
    · obtain rfl := Option.some.inj h
      exact raises_effect
    · obtain rfl := Option.some.inj h
      exact stays_effect id (fun _ _ => nofun) fun _ _ => nofun
  · obtain rfl := Option.some.inj h
    refine .passed _ _ ?_ (fun hl _ => .inr (hl.2 rfl)) (fun _ _ ht hold => releaseRabbit_receive ht hold)
      (fun _ ht hold => releaseRabbit_lock ht hold) (fun _ hl => hl.2 rfl) (fun _ _ => nofun) fun _ _ => nofun
    have hdeclared : RabbitSame s { s with declared := true } :=
      ⟨rfl, rfl, rfl, fun _ => rfl, fun _ => rfl, id⟩
    exact hdeclared.trans (releaseRabbit_same _ t)
  · obtain rfl := Option.some.inj h
    refine stays_effect id (fun _ _ => nofun) fun _ _ heq => ?_
    obtain ⟨rfl, rfl⟩ := RabbitPhase.published.inj heq
    rfl
  · cases h

theorem raiseAtAwait_effect (h : raiseAtAwait s t l = some next) : RabbitEffect t s l act next := by
  unfold raiseAtAwait at h
  split at h
  · obtain rfl := Option.some.inj h
    exact raises_effect
  · obtain rfl := Option.some.inj h
    exact raises_effect
  · obtain rfl := Option.some.inj h
    exact raises_effect
  · obtain rfl := Option.some.inj h
    exact stays_effect (fun _ => trivial) (fun _ _ => nofun) fun _ _ => nofun
  · obtain rfl := Option.some.inj h
    exact raises_effect
  · obtain rfl := Option.some.inj h
    exact raises_effect
  · obtain rfl := Option.some.inj h
    exact raises_effect
  · obtain rfl := Option.some.inj h
    exact raiseRabbit_effect ⟨rfl, rfl, rfl, fun _ => rfl, fun _ => rfl, id⟩ rfl (fun _ => rfl) rfl
  · obtain rfl := Option.some.inj h
    exact raises_effect
  · cases h

theorem rabbitStep_effect (h : rabbitStep t s l act = some next) :
    RabbitEffect t s l act next := by
  cases act with
  | receive c =>
      simp only [rabbitStep] at h
      split at h
      · obtain rfl := Option.some.inj h
        exact stays_effect (fun _ => trivial) (fun _ _ => nofun) fun _ _ => nofun
      · cases h
  | acknowledge index =>
      simp only [rabbitStep] at h
      split at h
      · split_ifs at h
        obtain rfl := Option.some.inj h
        exact .called index rfl
      · cases h
  | aclose c =>
      simp only [rabbitStep] at h
      split at h
      · obtain rfl := Option.some.inj h
        refine .passed _ _ (setRabbitConsumer_same rfl rfl) (fun _ => .inl) (fun t' key _ hold => ?_)
          (fun _ _ hold => hold) (fun _ _ => trivial) (fun _ _ => nofun) fun _ _ => nofun
        by_cases hkey : key = c
        · subst hkey
          exact (congrArg RabbitConsumer.receiveLock (setRabbitConsumer_self s key _)).trans hold
        · simpa [setRabbitConsumer, hkey] using hold
      · cases h
  | publish payload =>
      simp only [rabbitStep] at h
      split at h
      · obtain rfl := Option.some.inj h
        exact stays_effect (fun _ => trivial) (fun _ _ => nofun) fun _ _ => nofun
      · cases h
  | acquire => exact acquireRabbit_effect h
  | next =>
      simp only [rabbitStep] at h
      split at h
      · split at h
        · cases h
        · rename_i hbuffer
          obtain rfl := Option.some.inj h
          exact .handed _ _ _ rfl rfl hbuffer
      · cases h
  | ended =>
      simp only [rabbitStep] at h
      split at h
      · split_ifs at h
        obtain rfl := Option.some.inj h
        exact raises_effect
      · cases h
  | execute => exact executeRabbit_effect h
  | reply => exact replyRabbit_effect h
  | raises => exact raiseAtAwait_effect h

end Steps

section Keeps

variable {next : RabbitNext C T} {act : RabbitAct C} {x : Sent C RabbitMessage}

theorem RabbitEffect.ok (h : RabbitEffect t s l act next) (hs : RabbitOk s) (hl : RabbitPhaseOk t s l) :
    RabbitOk next.1 := by
  cases h with
  | passed s' l' same declared => exact hs.same same (declared hl)
  | called index => exact hs.call index
  | handed c x rest _ _ hbuffer => exact (hs.handOut hbuffer).same (releaseRabbit_same _ t) .inl
  | acked index d heq hd =>
      subst heq
      exact hs.writeFrame (.inr ⟨d.tag, rfl, index, d, hd, rfl, rfl, hl⟩)
  | cancelled c => exact hs.closeIterator c
  | closed c failed => exact hs.writeFrame (.inl rfl)
  | published payload => exact hs.publishMessage _

omit [DecidableEq T] in
theorem setRabbitConsumer_grows {consumer : RabbitConsumer C T}
    (h : ∀ frame ∈ (s.consumers c).frames, frame ∈ consumer.frames) :
    RabbitGrows s (setRabbitConsumer s c consumer) :=
  ⟨id, List.Subset.refl _, List.prefix_rfl, List.prefix_rfl, fun _ =>
    Or.imp_right (setRabbitConsumer_frames h _)⟩

theorem RabbitEffect.grows (h : RabbitEffect t s l act next) : RabbitGrows s next.1 := by
  cases h with
  | passed s' l' same => exact same.grows
  | called index => exact call_grows s index
  | handed c x rest =>
      exact ⟨id, List.Subset.refl _, List.prefix_append _ _, List.prefix_rfl, fun key hkey =>
        hkey.imp_right (setBuffer_frames key)⟩
  | acked index d => exact setRabbitConsumer_grows fun _ => List.mem_append_left _
  | cancelled c => exact setRabbitConsumer_grows fun _ => List.mem_append_left _
  | closed c failed => exact setRabbitConsumer_grows fun _ => List.mem_append_left _
  | published payload => exact ⟨id, List.Subset.refl _, List.prefix_rfl, List.prefix_append _ _, fun _ h => h⟩

omit [DecidableEq T] in
theorem setRabbitConsumer_receive {consumer : RabbitConsumer C T} {t' : T} {key : C}
    (hsame : consumer.receiveLock = (s.consumers c).receiveLock)
    (h : (s.consumers key).receiveLock = some t') :
    ((setRabbitConsumer s c consumer).consumers key).receiveLock = some t' := by
  by_cases hkey : key = c
  · subst hkey
    rw [setRabbitConsumer_self]
    exact hsame.trans h
  · simpa [setRabbitConsumer, hkey] using h

theorem RabbitEffect.rely (h : RabbitEffect t s l act next) {t' : T} (ht : t' ≠ t) :
    RabbitRely t' s next.1 := by
  refine ⟨h.grows, fun c hold => ?_, fun hold => ?_⟩
  · cases h with
    | passed s' l' _ _ receive => exact receive t' c ht hold
    | called => exact hold
    | handed => exact releaseRabbit_receive ht (setRabbitConsumer_receive rfl hold)
    | acked => exact setRabbitConsumer_receive rfl hold
    | cancelled => exact setRabbitConsumer_receive rfl hold
    | closed => exact setRabbitConsumer_receive rfl hold
    | published => exact hold
  · cases h with
    | passed s' l' _ _ _ lock => exact lock t' ht hold
    | called => exact hold
    | handed => exact releaseRabbit_lock ht hold
    | acked => exact hold
    | cancelled => exact hold
    | closed => exact hold
    | published => exact hold

theorem RabbitEffect.phase (h : RabbitEffect t s l act next) (hs : RabbitOk s) (hl : RabbitPhaseOk t s l) :
    RabbitPhaseOk t next.1 next.2 := by
  cases h with
  | passed s' l' _ _ _ _ phase => exact phase hs hl
  | called index => exact List.mem_append_right _ List.mem_cons_self
  | handed => trivial
  | acked index d heq =>
      subst heq
      exact hl
  | cancelled => trivial
  | closed c failed =>
      refine .inr ?_
      have hframes : ((writeFrame s c .close).consumers c).frames = (s.consumers c).frames ++ [.close] :=
        congrArg RabbitConsumer.frames (setRabbitConsumer_self s c _)
      exact hframes ▸ List.mem_append_right _ List.mem_cons_self
  | published payload => exact List.getElem?_concat_length

end Keeps

section Broker

variable {x : Sent C RabbitMessage} {position : Nat} {broker : Amqp.Queue C RabbitMessage}

-- The broker has settled what it read on a channel.
omit [DecidableEq T] in
theorem RabbitOk.settled (h : RabbitOk s) {gone : Sent C RabbitMessage → Prop} (hbroker : QueueOk broker)
    (hs : Amqp.Settles gone s.broker broker) (hgone : ∀ c, ∀ x ∈ (s.consumers c).buffer, ¬ gone x)
    (hheld : ∀ x ∈ s.broker.unacked, rabbitDelivery x ∈ s.deliveries → gone x → x ∈ broker.acked)
    (hacked : ∀ x ∈ broker.acked, Called s x.channel x.tag) : RabbitOk { s with broker := broker } where
  broker := hbroker
  consumers c := by
    have hc := h.consumers c
    refine ⟨fun x hx => ?_, hc.order, hc.handed, hc.acks, fun tag htag => ?_⟩
    · obtain ⟨hchannel, hsent, hheld⟩ := hc.buffer x hx
      refine ⟨hchannel, hs.sent ▸ hsent, fun hopen => ?_⟩
      exact hs.kept x (hheld (hs.closed c hopen)) (hchannel ▸ hopen) (hgone c x hx)
    · show (∃ x ∈ broker.sent, x.channel = c ∧ x.tag = tag) ∧ _
      rw [hs.sent]
      exact hc.nacks tag htag
  deliveries := by
    show ∀ d ∈ s.deliveries, ∃ x ∈ broker.sent, d = rabbitDelivery x
    rw [hs.sent]
    exact h.deliveries
  order := h.order
  held d hd hopen := by
    obtain ⟨x, rfl, hin | hdone⟩ := h.held d hd (hs.closed d.source hopen)
    · by_cases hx : gone x
      · exact ⟨x, rfl, .inr (hheld x hin hd hx)⟩
      · exact ⟨x, rfl, .inl (hs.kept x hin hopen hx)⟩
    · exact ⟨x, rfl, .inr (hs.acked hdone)⟩
  acked := hacked
  declared := h.declared

omit [DecidableEq T] in
theorem RabbitOk.runFrame (h : RabbitOk s) {frame : RabbitFrame} (hframe : frame ∈ (s.consumers c).frames) :
    RabbitOk { s with broker := runFrame s.broker c frame } := by
  have hc := h.consumers c
  have hother : ∀ {tag : Nat}, (∀ x ∈ (s.consumers c).buffer, tag < x.tag) →
      ∀ key, ∀ x ∈ (s.consumers key).buffer, ¬ (x.channel = c ∧ x.tag = tag) := by
    rintro tag hlt key x hx ⟨hchannel, htag⟩
    obtain rfl := ((h.consumers key).buffer x hx).1.symm.trans hchannel
    exact Nat.ne_of_lt (hlt x hx) htag.symm
  cases frame with
  | ack tag =>
      obtain ⟨index, d, hd, hsource, htag, hcalled⟩ := hc.acks tag hframe
      refine h.settled (h.broker.ack c tag) (Amqp.ack_settles s.broker c tag) (hother fun x hx => ?_) ?_ ?_
      · exact htag ▸ hc.handed d (List.mem_of_getElem? hd) hsource x hx
      · rintro x hx - ⟨rfl, rfl⟩
        exact h.broker.mem_acked hx
      · intro x hx
        obtain hold | ⟨rfl, rfl⟩ := Amqp.ack_acked hx
        · exact h.acked x hold
        · exact ⟨index, d, hd, hsource, htag, hcalled⟩
  | nack tag =>
      obtain ⟨-, hbelow, hfree⟩ := hc.nacks tag hframe
      refine h.settled (h.broker.nack c tag) (Amqp.nack_settles s.broker c tag) (hother hbelow) ?_ ?_
      · rintro x - hx ⟨hchannel, htag⟩
        exact absurd htag (hfree _ hx hchannel)
      · exact fun x hx => h.acked x (Amqp.nack_acked s.broker c tag ▸ hx)
  | close =>
      exact h.settled (h.broker.close c) (Amqp.close_settles s.broker c) (fun _ _ _ => id) (fun _ _ _ => nofun)
        h.acked

-- A consumer that has one frame less to send.
omit [DecidableEq T] in
theorem RabbitOk.readFrame (h : RabbitOk s) {frame : RabbitFrame} {rest : List RabbitFrame}
    (hframes : (s.consumers c).frames = frame :: rest) :
    RabbitOk (setRabbitConsumer s c { s.consumers c with frames := rest }) := by
  have hc := h.consumers c
  have hrest : ∀ other ∈ rest, other ∈ (s.consumers c).frames := fun other hother =>
    hframes ▸ List.mem_cons_of_mem _ hother
  refine h.setConsumer ⟨?_, ?_, ?_, ?_, ?_⟩ <;> rw [setRabbitConsumer_self]
  · exact hc.buffer
  · exact hc.order
  · exact hc.handed
  · exact fun tag htag => hc.acks tag (hrest _ htag)
  · exact fun tag htag => hc.nacks tag (hrest _ htag)

-- The consumers after a message has been sent to one of them.
omit [DecidableEq T] in
theorem RabbitOk.deliver_consumers (h : RabbitOk s) (hs : s.broker.deliver c position = some (broker, x)) (key : C) :
    ConsumerOk { setRabbitConsumer s c { s.consumers c with buffer := (s.consumers c).buffer ++ [x] } with
      broker := broker } key := by
  obtain ⟨-, -, -, hx, rfl⟩ := Amqp.deliver_eq hs
  have hchannel : x.channel = c := by rw [hx]
  have htag : x.tag = s.broker.tags c + 1 := by rw [hx]
  have hlast : ∀ y ∈ s.broker.sent, y.channel = c → y.tag < x.tag := by
    intro y hy hsame
    have hle := h.broker.tags y hy
    rw [hsame] at hle
    omega
  have hsent : ∀ y ∈ s.broker.sent, y ∈ s.broker.sent ++ [x] := fun _ hy => List.mem_append_left _ hy
  have hunacked : ∀ y ∈ s.broker.unacked, y ∈ s.broker.unacked ++ [x] := fun _ hy =>
    List.mem_append_left _ hy
  have hkeep := h.consumers key
  by_cases hkey : key = c
  · subst hkey
    refine ⟨?_, ?_, ?_, ?_, ?_⟩ <;> simp only [setRabbitConsumer_self]
    · intro y hy
      obtain hold | hnew := List.mem_append.mp hy
      · obtain ⟨hy₁, hy₂, hy₃⟩ := hkeep.buffer y hold
        exact ⟨hy₁, hsent y hy₂, fun hclosed => hunacked y (hy₃ hclosed)⟩
      · obtain rfl := List.mem_singleton.mp hnew
        exact ⟨hchannel, List.mem_append_right _ hnew, fun _ => List.mem_append_right _ hnew⟩
    · refine List.pairwise_append.mpr ⟨hkeep.order, List.pairwise_singleton _ _, fun y hy z hz => ?_⟩
      obtain rfl := List.mem_singleton.mp hz
      obtain ⟨hy₁, hy₂, -⟩ := hkeep.buffer y hy
      exact hlast y hy₂ hy₁
    · intro d hd hsource y hy
      obtain hold | hnew := List.mem_append.mp hy
      · exact hkeep.handed d hd hsource y hold
      · obtain rfl := List.mem_singleton.mp hnew
        obtain ⟨z, hz, rfl⟩ := h.deliveries d hd
        exact hlast z hz hsource
    · exact hkeep.acks
    · intro tag hmem
      obtain ⟨⟨z, hz, hz₁, hz₂⟩, hbelow, hother⟩ := hkeep.nacks tag hmem
      refine ⟨⟨z, hsent z hz, hz₁, hz₂⟩, fun y hy => ?_, hother⟩
      obtain hold | hnew := List.mem_append.mp hy
      · exact hbelow y hold
      · obtain rfl := List.mem_singleton.mp hnew
        exact hz₂ ▸ hlast z hz hz₁
  · have hsame : (setRabbitConsumer s c { s.consumers c with
        buffer := (s.consumers c).buffer ++ [x] }).consumers key = s.consumers key := by
      simp [setRabbitConsumer, hkey]
    refine ⟨?_, ?_, ?_, ?_, ?_⟩ <;> simp only [hsame]
    · intro y hy
      obtain ⟨hy₁, hy₂, hy₃⟩ := hkeep.buffer y hy
      exact ⟨hy₁, hsent y hy₂, fun hclosed => hunacked y (hy₃ hclosed)⟩
    · exact hkeep.order
    · exact hkeep.handed
    · exact hkeep.acks
    · intro tag hmem
      obtain ⟨⟨z, hz, hz₁, hz₂⟩, hrest⟩ := hkeep.nacks tag hmem
      exact ⟨⟨z, hsent z hz, hz₁, hz₂⟩, hrest⟩

omit [DecidableEq T] in
theorem RabbitOk.deliver (h : RabbitOk s) (hs : s.broker.deliver c position = some (broker, x)) :
    RabbitOk { setRabbitConsumer s c { s.consumers c with buffer := (s.consumers c).buffer ++ [x] } with
      broker := broker } := by
  have hbroker := h.broker.deliver hs
  have hconsumers := h.deliver_consumers hs
  obtain ⟨-, -, -, -, rfl⟩ := Amqp.deliver_eq hs
  have hsent : ∀ y ∈ s.broker.sent, y ∈ s.broker.sent ++ [x] := fun _ hy => List.mem_append_left _ hy
  have hunacked : ∀ y ∈ s.broker.unacked, y ∈ s.broker.unacked ++ [x] := fun _ hy =>
    List.mem_append_left _ hy
  constructor
  · exact hbroker
  · exact hconsumers
  · intro d hd
    obtain ⟨y, hy, rfl⟩ := h.deliveries d hd
    exact ⟨y, hsent y hy, rfl⟩
  · exact h.order
  · intro d hd hclosed
    obtain ⟨y, rfl, hy⟩ := h.held d hd hclosed
    exact ⟨y, rfl, hy.imp (hunacked y) id⟩
  · exact h.acked
  · exact h.declared

omit [DecidableEq T] in
theorem runFrame_closed {frame : RabbitFrame} {key : C} (h : s.broker.closed key = true) :
    (runFrame s.broker c frame).closed key = true := by
  rw [← Bool.not_eq_false] at h ⊢
  refine fun hopen => h ?_
  cases frame with
  | ack tag => exact (Amqp.ack_settles s.broker c tag).closed key hopen
  | nack tag => exact (Amqp.nack_settles s.broker c tag).closed key hopen
  | close => exact (Amqp.close_settles s.broker c).closed key hopen

-- What happens outside of the calls leaves the locks alone.
omit [DecidableEq T] in
theorem rabbitEvent_keeps {event : RabbitEvent C} (h : rabbitEvent s event = some s') :
    RabbitGrows s s' ∧ s'.lock = s.lock ∧
      ∀ key, (s'.consumers key).receiveLock = (s.consumers key).receiveLock := by
  have hset : ∀ (c : C) (consumer : RabbitConsumer C T),
      consumer.receiveLock = (s.consumers c).receiveLock →
      ∀ key, ((setRabbitConsumer s c consumer).consumers key).receiveLock =
        (s.consumers key).receiveLock := by
    intro c consumer hsame key
    by_cases hkey : key = c
    · subst hkey
      rw [setRabbitConsumer_self]
      exact hsame
    · simp [setRabbitConsumer, hkey]
  cases event with
  | published message =>
      simp only [rabbitEvent] at h
      split_ifs at h
      obtain rfl := Option.some.inj h
      exact ⟨⟨id, List.Subset.refl _, List.prefix_rfl, List.prefix_append _ _, fun _ h => h⟩, rfl, fun _ => rfl⟩
  | orphan index =>
      simp only [rabbitEvent] at h
      split at h
      · cases h
      · obtain rfl := Option.some.inj h
        split
        · exact ⟨⟨id, List.Subset.refl _, List.prefix_rfl, List.prefix_append _ _, fun _ h => h⟩, rfl, fun _ => rfl⟩
        · exact ⟨⟨id, List.Subset.refl _, List.prefix_rfl, List.prefix_rfl, fun _ h => h⟩, rfl, fun _ => rfl⟩
  | consumer c concurrency =>
      simp only [rabbitEvent] at h
      obtain ⟨broker, hbroker, rfl⟩ := Option.map_eq_some_iff.mp h
      unfold Amqp.Queue.consume at hbroker
      split_ifs at hbroker
      obtain rfl := Option.some.inj hbroker
      exact ⟨⟨fun _ => rfl, List.Subset.refl _, List.prefix_rfl, List.prefix_rfl, fun _ h => h⟩, rfl, fun _ => rfl⟩
  | deliver c position =>
      simp only [rabbitEvent] at h
      split at h
      · cases h
      · rename_i broker x hdeliver
        obtain rfl := Option.some.inj h
        obtain ⟨-, -, -, -, rfl⟩ := Amqp.deliver_eq hdeliver
        exact ⟨⟨id, List.Subset.refl _, List.prefix_rfl, List.prefix_rfl, fun key hkey =>
          hkey.imp_right (setBuffer_frames key)⟩, rfl, hset c _ rfl⟩
  | process c =>
      simp only [rabbitEvent] at h
      split at h
      · cases h
      · rename_i frame rest hframes
        split_ifs at h
        obtain rfl := Option.some.inj h
        have hlog : (runFrame s.broker c frame).log = s.broker.log := by
          cases frame with
          | ack tag => exact (Amqp.ack_settles s.broker c tag).log
          | nack tag => exact (Amqp.nack_settles s.broker c tag).log
          | close => rfl
        refine ⟨⟨id, List.Subset.refl _, List.prefix_rfl, hlog ▸ List.prefix_rfl, fun key hkey => ?_⟩, rfl,
          hset c _ rfl⟩
        obtain hclosed | hwritten := hkey
        · exact .inl (runFrame_closed hclosed)
        · by_cases hsame : key = c
          · subst hsame
            rw [hframes] at hwritten
            obtain rfl | hrest := List.mem_cons.mp hwritten
            · exact .inl (Function.update_self ..)
            · right
              show _ ∈ ((setRabbitConsumer s key _).consumers key).frames
              rw [setRabbitConsumer_self]
              exact hrest
          · right
            show _ ∈ ((setRabbitConsumer s c _).consumers key).frames
            simpa [setRabbitConsumer, hsame] using hwritten
  | lost c =>
      obtain rfl := Option.some.inj h
      refine ⟨⟨id, List.Subset.refl _, List.prefix_rfl, List.prefix_rfl, fun key => ?_⟩, rfl, fun _ => rfl⟩
      refine Or.imp_left fun hclosed => ?_
      show (runFrame s.broker c .close).closed key = true
      exact runFrame_closed hclosed
  | cancels c =>
      obtain rfl := Option.some.inj h
      exact ⟨setRabbitConsumer_grows fun _ => List.mem_append_left _, rfl, hset c _ rfl⟩
  | ends c =>
      obtain rfl := Option.some.inj h
      exact ⟨setRabbitConsumer_grows fun _ h => h, rfl, hset c _ rfl⟩

omit [DecidableEq T] in
theorem rabbitEvent_ok {event : RabbitEvent C} (hs : RabbitOk s) (h : rabbitEvent s event = some s') :
    RabbitOk s' := by
  cases event with
  | published message =>
      simp only [rabbitEvent] at h
      split_ifs at h
      obtain rfl := Option.some.inj h
      exact hs.publishMessage message
  | orphan index =>
      simp only [rabbitEvent] at h
      split at h
      · cases h
      · obtain rfl := Option.some.inj h
        split
        · exact (hs.publishMessage _).same ⟨rfl, rfl, rfl, fun _ => rfl, fun _ => rfl, id⟩ .inl
        · exact hs.same ⟨rfl, rfl, rfl, fun _ => rfl, fun _ => rfl, id⟩ .inl
  | consumer c concurrency =>
      simp only [rabbitEvent] at h
      obtain ⟨broker, hbroker, rfl⟩ := Option.map_eq_some_iff.mp h
      have hok := hs.broker.consume hbroker
      unfold Amqp.Queue.consume at hbroker
      split_ifs at hbroker
      obtain rfl := Option.some.inj hbroker
      exact ⟨hok, fun key => ⟨(hs.consumers key).buffer, (hs.consumers key).order,
        (hs.consumers key).handed, (hs.consumers key).acks, (hs.consumers key).nacks⟩, hs.deliveries,
        hs.order, hs.held, hs.acked, fun _ => rfl⟩
  | deliver c position =>
      simp only [rabbitEvent] at h
      split at h
      · cases h
      · rename_i broker x hdeliver
        obtain rfl := Option.some.inj h
        exact hs.deliver hdeliver
  | process c =>
      simp only [rabbitEvent] at h
      split at h
      · cases h
      · rename_i frame rest hframes
        split_ifs at h
        obtain rfl := Option.some.inj h
        exact (hs.runFrame (hframes ▸ List.mem_cons_self)).readFrame hframes
  | lost c =>
      obtain rfl := Option.some.inj h
      exact hs.settled (hs.broker.close c) (Amqp.close_settles s.broker c) (fun _ _ _ => id)
        (fun _ _ _ => nofun) hs.acked
  | cancels c =>
      obtain rfl := Option.some.inj h
      exact hs.closeIterator c
  | ends c =>
      obtain rfl := Option.some.inj h
      exact hs.same (setRabbitConsumer_same rfl rfl) .inl

end Broker

section Runs

variable {p q : RabbitPool C T}

def rabbitDiscipline (C T : Type) [DecidableEq C] [DecidableEq T] :
    Pool.Discipline (rabbitStep (C := C) (T := T)) rabbitEvent where
  good := RabbitOk
  ok := RabbitPhaseOk
  rely := RabbitRely
  stable _ _ _ _ hrely h := h.stable hrely
  task_good _ _ _ _ _ _ hs hl h := (rabbitStep_effect h).ok hs hl
  task_ok _ _ _ _ _ _ hs hl h := (rabbitStep_effect h).phase hs hl
  task_rely _ _ _ _ _ _ _ _ h _ ht := (rabbitStep_effect h).rely ht
  env_good _ _ _ hs h := rabbitEvent_ok hs h
  env_rely _ _ _ _ h _ := by
    obtain ⟨hgrows, hlock, hreceive⟩ := rabbitEvent_keeps h
    exact ⟨hgrows, fun c hold => (hreceive c).trans hold, fun hold => hlock.trans hold⟩

-- The id that the broker has confirmed to a publisher.
def confirmed : RabbitPhase C → Option Nat
  | .publishing _ confirm => confirm
  | .published _ id => some id
  | _ => none

-- No two publishers have the confirmation of one message.
structure RabbitInv (p : RabbitPool C T) : Prop where
  calls : (rabbitDiscipline C T).Inv p
  apart : ∀ t t' id, confirmed (p.loc t) = some id → confirmed (p.loc t') = some id → t = t'

omit [DecidableEq C] [DecidableEq T] in
theorem RabbitPhaseOk.confirmed_lt {id : Nat} (h : RabbitPhaseOk t s l) (hid : confirmed l = some id) :
    id < s.broker.log.length := by
  cases l with
  | publishing payload confirm =>
      obtain rfl : confirm = some id := hid
      exact (List.getElem?_eq_some_iff.mp h).1
  | published payload other =>
      obtain rfl := Option.some.inj hid
      exact (List.getElem?_eq_some_iff.mp h).1
  | idle => cases hid
  | receiveLock => cases hid
  | getting => cases hid
  | acking => cases hid
  | cancelling => cases hid
  | closing => cases hid
  | publishLock => cases hid
  | declaring => cases hid
  | received => cases hid
  | acknowledged => cases hid
  | closed => cases hid
  | raised => cases hid

-- A confirmation is an old one, or that of the message which the step publishes.
theorem RabbitEffect.confirmed {next : RabbitNext C T} {act : RabbitAct C} (h : RabbitEffect t s l act next) {id : Nat}
    (hid : confirmed next.2 = some id) : confirmed l = some id ∨ id = s.broker.log.length := by
  cases h with
  | passed s' l' _ _ _ _ _ confirm hpublished =>
      left
      cases l' with
      | publishing payload other =>
          obtain rfl : other = some id := hid
          exact absurd rfl (confirm payload id)
      | published payload other =>
          obtain rfl := Option.some.inj hid
          rw [hpublished payload other rfl]
          rfl
      | idle => cases hid
      | receiveLock => cases hid
      | getting => cases hid
      | acking => cases hid
      | cancelling => cases hid
      | closing => cases hid
      | publishLock => cases hid
      | declaring => cases hid
      | received => cases hid
      | acknowledged => cases hid
      | closed => cases hid
      | raised => cases hid
  | called => cases hid
  | handed => cases hid
  | acked => cases hid
  | cancelled => cases hid
  | closed => cases hid
  | published payload => exact .inr (Option.some.inj hid).symm

theorem rabbitInv_step (p : RabbitPool C T) (act : (T × RabbitAct C) ⊕ RabbitEvent C) (q : RabbitPool C T)
    (hp : RabbitInv p) (h : rabbitPoolStep p act = some q) : RabbitInv q := by
  refine ⟨(rabbitDiscipline C T).inv_step p act q hp.calls h, ?_⟩
  cases act with
  | inr event =>
      obtain ⟨s, -, rfl⟩ := Pool.step_env h
      exact hp.apart
  | inl act =>
      obtain ⟨i, act⟩ := act
      obtain ⟨s, l, hl, rfl⟩ := Pool.step_task h
      have heffect := rabbitStep_effect hl
      -- what another call has is older than what this step publishes
      have hother : ∀ t' id, t' ≠ i → confirmed l = some id → confirmed (p.loc t') ≠ some id := by
        intro t' id ht' hid hsame
        obtain hold | rfl := heffect.confirmed hid
        · exact ht' (hp.apart t' i id hsame hold)
        · exact Nat.lt_irrefl _ ((hp.calls.2 t').confirmed_lt hsame)
      intro t t' id ht ht'
      by_cases hti : t = i
      · subst hti
        rw [Pool.move_loc_self] at ht
        by_cases hti' : t' = t
        · exact hti'.symm
        · rw [Pool.move_loc_ne _ _ _ hti'] at ht'
          exact absurd ht' (hother t' id hti' ht)
      · rw [Pool.move_loc_ne _ _ _ hti] at ht
        by_cases hti' : t' = i
        · subst hti'
          rw [Pool.move_loc_self] at ht'
          exact absurd ht (hother t id hti ht')
        · rw [Pool.move_loc_ne _ _ _ hti'] at ht'
          exact hp.apart t t' id ht ht'

theorem rabbitInv_init : RabbitInv (RabbitPool.init C T) where
  calls := by
    refine ⟨⟨Amqp.queueOk_empty, fun c => ?_, nofun, .nil, nofun, nofun, nofun⟩, fun t => trivial⟩
    exact ⟨nofun, .nil, nofun, nofun, nofun⟩
  apart _ _ _ := nofun

theorem rabbitInv_reaches (hp : Reaches rabbitPoolStep (RabbitPool.init C T) p) : RabbitInv p :=
  hp.invariant rabbitInv_step rabbitInv_init

end Runs

section Safety

variable {p : RabbitPool C T}

-- The consumer has the delivery and the broker has not read an acknowledgement of it.
def Waiting (s : RabbitShared C T) (c : C) (d : RabbitDelivery C) : Bool :=
  d.source = c ∧ s.broker.acked.all fun x => ¬ (x.channel = d.source ∧ x.tag = d.tag)

structure RabbitSafe (p : RabbitPool C T) : Prop where
  -- every message is in one place: ready, without acknowledgement on one channel, or acknowledged
  accounted : p.shared.broker.places.Perm (List.range p.shared.broker.log.length)
  delivered : ∀ d ∈ p.shared.deliveries, ∃ message, p.shared.broker.log[d.entry]? = some message ∧
    message.body = d.payload ∧ d.identity = rabbitIdentity message.messageId d.tag
  -- the broker drops a message for a call of `acknowledge` on a delivery of it alone
  acknowledged : ∀ x ∈ p.shared.broker.acked, ∃ index,
    p.shared.deliveries[index]? = some (rabbitDelivery x) ∧ index ∈ p.shared.calls
  -- a message has at most one delivery without the mark
  unmarked : ∀ (i j : Nat) d e, p.shared.deliveries[i]? = some d → p.shared.deliveries[j]? = some e →
    d.entry = e.entry → d.possiblyRedelivered = false → e.possiblyRedelivered = false → i = j
  -- no more deliveries wait than the worker has executions
  credit : ∀ c n, p.shared.broker.limit c = some n → n ≠ 0 → p.shared.broker.closed c = false →
    (p.shared.deliveries.filter (Waiting p.shared c)).length ≤ n
  -- one call at a time is at the iterator
  receiving : ∀ t t' c, p.loc t = .getting c → p.loc t' = .getting c → t = t'
  -- a consumer that was closed gives back what it holds
  closed : ∀ t c, p.loc t = .closed c → CloseWritten p.shared c
  restored : ∀ c, p.shared.broker.closed c = true → ∀ x ∈ p.shared.broker.unacked, x.channel ≠ c
  -- a publication that has returned is in the queue, each as a message of its own
  published : ∀ t payload id, p.loc t = .published payload id →
    p.shared.broker.log[id]? = some { body := payload }
  apart : ∀ t t' payload payload' id, p.loc t = .published payload id → p.loc t' = .published payload' id →
    t = t'

-- Deliveries of one consumer are known by their tags.
omit [DecidableEq T] in
theorem RabbitOk.delivery_inj (h : RabbitOk s) {i j : Nat} {d e : RabbitDelivery C}
    (hd : s.deliveries[i]? = some d) (he : s.deliveries[j]? = some e) (hsource : d.source = e.source)
    (htag : d.tag = e.tag) : i = j := by
  obtain ⟨hi, rfl⟩ := List.getElem?_eq_some_iff.mp hd
  obtain ⟨hj, rfl⟩ := List.getElem?_eq_some_iff.mp he
  have horder := List.pairwise_iff_getElem.mp h.order
  obtain hlt | heq | hgt := Nat.lt_trichotomy i j
  · have hless := horder i j hi hj hlt hsource
    omega
  · exact heq
  · have hless := horder j i hj hi hgt hsource.symm
    omega

omit [DecidableEq T] in
theorem RabbitOk.waiting_held (h : RabbitOk s) (hopen : s.broker.closed c = false) {d : RabbitDelivery C}
    (hd : d ∈ s.deliveries) (hwaiting : Waiting s c d = true) :
    d.source = c ∧ d.tag ∈ (s.broker.held c).map (·.tag) := by
  obtain ⟨rfl, hnot⟩ : d.source = c ∧ s.broker.acked.all (fun x =>
    ¬ (x.channel = d.source ∧ x.tag = d.tag)) = true := of_decide_eq_true hwaiting
  refine ⟨rfl, ?_⟩
  obtain ⟨x, rfl, hin | hdone⟩ := h.held d hd hopen
  · exact List.mem_map.mpr ⟨x, List.mem_filter.mpr ⟨hin, by simp [rabbitDelivery]⟩, rfl⟩
  · have hfalse := List.all_eq_true.mp hnot x hdone
    simp [rabbitDelivery] at hfalse

omit [DecidableEq T] in
theorem RabbitOk.waiting_le (h : RabbitOk s) {n : Nat} (hlimit : s.broker.limit c = some n) (hn : n ≠ 0)
    (hopen : s.broker.closed c = false) : (s.deliveries.filter (Waiting s c)).length ≤ n := by
  have hnodup : ((s.deliveries.filter (Waiting s c)).map (·.tag)).Nodup := by
    refine List.pairwise_map.mpr ?_
    refine (h.order.filter _).imp_of_mem fun hd he hless => ?_
    obtain ⟨hd, hdw⟩ := List.mem_filter.mp hd
    obtain ⟨he, hew⟩ := List.mem_filter.mp he
    have hsource := (h.waiting_held hopen hd hdw).1.trans (h.waiting_held hopen he hew).1.symm
    exact Nat.ne_of_lt (hless hsource)
  have hsubset : (s.deliveries.filter (Waiting s c)).map (·.tag) ⊆ (s.broker.held c).map (·.tag) := by
    intro tag htag
    obtain ⟨d, hd, rfl⟩ := List.mem_map.mp htag
    obtain ⟨hd, hdw⟩ := List.mem_filter.mp hd
    exact (h.waiting_held hopen hd hdw).2
  have hle := (List.subperm_of_subset hnodup hsubset).length_le
  rw [List.length_map, List.length_map] at hle
  exact Nat.le_trans hle (h.broker.credit c n hlimit hn)

omit [DecidableEq T] in
theorem RabbitOk.acked_delivery (h : RabbitOk s) {x : Sent C RabbitMessage} (hx : x ∈ s.broker.acked) :
    ∃ index : Nat, s.deliveries[index]? = some (rabbitDelivery x) ∧ index ∈ s.calls := by
  obtain ⟨index, d, hd, hsource, htag, hcalled⟩ := h.acked x hx
  obtain ⟨y, hy, rfl⟩ := h.deliveries d (List.mem_of_getElem? hd)
  obtain rfl := h.broker.distinct y hy x (h.broker.acked x hx) hsource htag
  exact ⟨index, hd, hcalled⟩

theorem rabbit_safe (hp : Reaches rabbitPoolStep (RabbitPool.init C T) p) : RabbitSafe p := by
  have hinv := rabbitInv_reaches hp
  obtain ⟨hok, hphases⟩ := hinv.calls
  refine ⟨hok.broker.accounted, ?_, ?_, ?_, fun c n => hok.waiting_le, ?_, ?_, ?_, ?_, ?_⟩
  · intro d hd
    obtain ⟨x, hx, rfl⟩ := hok.deliveries d hd
    exact ⟨_, hok.broker.sent x hx, rfl, rfl⟩
  · exact fun x => hok.acked_delivery
  · intro i j d e hd he hentry hdmark hemark
    obtain ⟨x, hx, rfl⟩ := hok.deliveries d (List.mem_of_getElem? hd)
    obtain ⟨y, hy, rfl⟩ := hok.deliveries e (List.mem_of_getElem? he)
    obtain rfl := hok.broker.unmarked_eq hx hy hentry hdmark hemark
    exact hok.delivery_inj hd he rfl rfl
  · intro t t' c ht ht'
    have hlock : (p.shared.consumers c).receiveLock = some t := by
      have hphase := hphases t
      rw [ht] at hphase
      exact hphase
    have hlock' : (p.shared.consumers c).receiveLock = some t' := by
      have hphase := hphases t'
      rw [ht'] at hphase
      exact hphase
    exact Option.some.inj (hlock.symm.trans hlock')
  · intro t c ht
    have hphase := hphases t
    rw [ht] at hphase
    exact hphase
  · intro c hclosed x hx hchannel
    have hopen := hok.broker.closed x hx
    rw [hchannel, hclosed] at hopen
    cases hopen
  · intro t payload id ht
    have hphase := hphases t
    rw [ht] at hphase
    exact hphase
  · intro t t' payload payload' id ht ht'
    exact hinv.apart t t' id (by rw [ht]; rfl) (by rw [ht']; rfl)

-- A consumer is lost with a delivery that it has acknowledged, and the message comes back with its mark.
theorem rabbit_safe_lost : ∃ p : RabbitPool Nat Nat,
    Reaches rabbitPoolStep (RabbitPool.init Nat Nat) p ∧ RabbitSafe p ∧
      p.loc 0 = .published [123] 0 ∧ p.loc 2 = .acknowledged 0 ∧
      p.shared.deliveries.map (fun d => (d.source, d.entry, d.possiblyRedelivered)) =
        [(0, 0, false), (1, 0, true)] ∧
      p.shared.broker.acked.map (fun x => (x.channel, x.tag)) = [(1, 1)] := by
  let acts : List ((Nat × RabbitAct Nat) ⊕ RabbitEvent Nat) :=
    [.inr (.consumer 0 1), .inl (0, .publish [123]), .inl (0, .acquire), .inl (0, .execute), .inl (0, .reply),
      .inl (0, .execute), .inl (0, .reply), .inr (.deliver 0 0), .inl (1, .receive 0), .inl (1, .acquire),
      .inl (1, .next), .inl (2, .acknowledge 0), .inl (2, .execute), .inl (2, .reply), .inr (.lost 0),
      .inr (.consumer 1 1), .inr (.deliver 1 0), .inl (3, .receive 1), .inl (3, .acquire), .inl (3, .next),
      .inl (4, .acknowledge 1), .inl (4, .execute), .inr (.process 1)]
  have hrun : run rabbitPoolStep (RabbitPool.init Nat Nat) acts = some _ := rfl
  exact ⟨_, ⟨acts, hrun⟩, rabbit_safe ⟨acts, hrun⟩, rfl, rfl, rfl, rfl⟩

end Safety

end Scaffold.Queue
