import Scaffold.Amqp
import Mathlib.Data.List.Perm.Basic
import Mathlib.Tactic.Common

namespace Scaffold.Amqp

variable {Ch P : Type*} {s s' : Queue Ch P} {x y : Sent Ch P} {ch : Ch} {tag position : Nat}

-- The ids of all messages, by where they are.
def Queue.places (s : Queue Ch P) : List Nat :=
  s.ready.map (·.id) ++ (s.unacked.map (·.message.id) ++ s.acked.map (·.message.id))

-- A message that is not marked was sent at most once; `once` says so of one that is not acknowledged,
-- `fresh` of one that is ready, and `first` of the history.
structure QueueOk [DecidableEq Ch] (s : Queue Ch P) : Prop where
  accounted : s.places.Perm (List.range s.log.length)
  ready : ∀ m ∈ s.ready, s.log[m.id]? = some m.payload
  sent : ∀ x ∈ s.sent, s.log[x.message.id]? = some x.message.payload
  unacked : ∀ x ∈ s.unacked, x ∈ s.sent
  acked : ∀ x ∈ s.acked, x ∈ s.sent
  tags : ∀ x ∈ s.sent, x.tag ≤ s.tags x.channel
  distinct : ∀ x ∈ s.sent, ∀ y ∈ s.sent, x.channel = y.channel → x.tag = y.tag → x = y
  fresh : ∀ m ∈ s.ready, m.redelivered = false → ∀ x ∈ s.sent, x.message.id ≠ m.id
  once : ∀ x ∈ s.unacked, x.message.redelivered = false → ∀ y ∈ s.sent,
    y.message.id = x.message.id → y = x
  first : s.sent.Pairwise fun x y => x.message.id = y.message.id → y.message.redelivered = true
  consumed : ∀ x ∈ s.sent, s.limit x.channel ≠ none
  closed : ∀ x ∈ s.unacked, s.closed x.channel = false
  credit : ∀ ch n, s.limit ch = some n → n ≠ 0 → (s.held ch).length ≤ n

section Places

variable [DecidableEq Ch]

theorem QueueOk.nodup (h : QueueOk s) : s.places.Nodup :=
  h.accounted.nodup_iff.mpr List.nodup_range

theorem QueueOk.unacked_ids (h : QueueOk s) : (s.unacked.map (·.message.id)).Nodup :=
  (List.nodup_append.mp (List.nodup_append.mp h.nodup).2.1).1

theorem QueueOk.unacked_nodup (h : QueueOk s) : s.unacked.Nodup :=
  .of_map _ h.unacked_ids

theorem QueueOk.not_unacked (h : QueueOk s) {m : Message P} (hm : m ∈ s.ready) :
    ∀ x ∈ s.unacked, x.message.id ≠ m.id :=
  fun _ hx heq => (List.nodup_append.mp h.nodup).2.2 _ (List.mem_map_of_mem hm) _
    (List.mem_append_left _ (List.mem_map_of_mem hx)) heq.symm

theorem isTagged_iff : isTagged ch tag x = true ↔ x.channel = ch ∧ x.tag = tag := by
  simp [isTagged]

-- There is one message under a tag.
theorem QueueOk.filter_tagged (h : QueueOk s) (hx : x ∈ s.unacked) (hch : x.channel = ch)
    (htag : x.tag = tag) : s.unacked.filter (isTagged ch tag) = [x] := by
  refine List.perm_singleton.mp ?_
  refine (List.perm_ext_iff_of_nodup (h.unacked_nodup.filter _) (List.nodup_singleton x)).mpr fun y => ?_
  rw [List.mem_filter, List.mem_singleton, isTagged_iff]
  constructor
  · rintro ⟨hy, hych, hytag⟩
    exact h.distinct y (h.unacked y hy) x (h.unacked x hx) (hych.trans hch.symm) (hytag.trans htag.symm)
  · rintro rfl
    exact ⟨hx, hch, htag⟩

theorem QueueOk.log_lt (h : QueueOk s) (hx : x ∈ s.sent) : x.message.id < s.log.length :=
  (List.getElem?_eq_some_iff.mp (h.sent x hx)).1

-- A message is sent at most once without the mark.
theorem QueueOk.unmarked_eq (h : QueueOk s) (hx : x ∈ s.sent) (hy : y ∈ s.sent)
    (hid : x.message.id = y.message.id) (hxmark : x.message.redelivered = false)
    (hymark : y.message.redelivered = false) : x = y := by
  by_contra hne
  obtain ⟨i, hi, rfl⟩ := List.mem_iff_getElem.mp hx
  obtain ⟨j, hj, rfl⟩ := List.mem_iff_getElem.mp hy
  have hfirst := List.pairwise_iff_getElem.mp h.first
  obtain hlt | rfl | hgt := Nat.lt_trichotomy i j
  · rw [hfirst i j hi hj hlt hid] at hymark
    cases hymark
  · exact hne rfl
  · rw [hfirst j i hj hi hgt hid.symm] at hxmark
    cases hxmark

end Places

section Operations

variable [DecidableEq Ch]

theorem queueOk_empty : QueueOk ({} : Queue Ch P) where
  accounted := .refl _
  ready _ h := nomatch h
  sent _ h := nomatch h
  unacked _ h := nomatch h
  acked _ h := nomatch h
  tags _ h := nomatch h
  distinct _ h := nomatch h
  fresh _ h := nomatch h
  once _ h := nomatch h
  first := .nil
  consumed _ h := nomatch h
  closed _ h := nomatch h
  credit _ _ h := nomatch h

theorem QueueOk.publish (h : QueueOk s) (payload : P) : QueueOk (s.publish payload) where
  accounted := by
    have hplaces : (s.publish payload).places.Perm (s.places ++ [s.log.length]) := by
      simp only [Queue.places, Queue.publish, List.map_append, List.map_cons, List.map_nil,
        List.append_assoc]
      refine .append_left _ ?_
      rw [← List.append_assoc (s.unacked.map _)]
      exact List.perm_append_comm
    have hrange : List.range (s.publish payload).log.length = List.range s.log.length ++ [s.log.length] := by
      simp [Queue.publish, List.range_succ]
    rw [hrange]
    exact hplaces.trans (h.accounted.append_right _)
  ready m hm := by
    obtain hold | hnew := List.mem_append.mp hm
    · have hlt := (List.getElem?_eq_some_iff.mp (h.ready m hold)).1
      exact (List.getElem?_append_left hlt).trans (h.ready m hold)
    · obtain rfl := List.mem_singleton.mp hnew
      exact List.getElem?_concat_length
  sent x hx := (List.getElem?_append_left (h.log_lt hx)).trans (h.sent x hx)
  unacked := h.unacked
  acked := h.acked
  tags := h.tags
  distinct := h.distinct
  fresh m hm hmark x hx := by
    obtain hold | hnew := List.mem_append.mp hm
    · exact h.fresh m hold hmark x hx
    · obtain rfl := List.mem_singleton.mp hnew
      exact Nat.ne_of_lt (h.log_lt hx)
  once := h.once
  first := h.first
  consumed := h.consumed
  closed := h.closed
  credit := h.credit

-- A channel that begins to consume has been sent nothing yet.
theorem QueueOk.consume (h : QueueOk s) {limit : Nat} (hs : s.consume ch limit = some s') :
    QueueOk s' := by
  unfold Queue.consume at hs
  split_ifs at hs with hidle
  obtain rfl := Option.some.inj hs
  have hnone : ∀ x ∈ s.sent, x.channel ≠ ch := fun x hx hch => h.consumed x hx (hch ▸ hidle.2)
  refine { h with consumed := fun x hx => ?_, credit := fun other n hlimit hn => ?_ }
  · show Function.update s.limit ch (some limit) x.channel ≠ none
    rw [Function.update_of_ne (hnone x hx)]
    exact h.consumed x hx
  · by_cases hother : other = ch
    · subst hother
      have hheld : s.unacked.filter (·.channel = other) = [] :=
        List.filter_eq_nil_iff.mpr fun x hx => by simpa using hnone x (h.unacked x hx)
      show (s.unacked.filter (·.channel = other)).length ≤ n
      rw [hheld]
      exact Nat.zero_le n
    · exact h.credit other n ((Function.update_of_ne hother _ _).symm.trans hlimit) hn

-- What a delivery takes and what it makes of it.
theorem deliver_eq (hs : s.deliver ch position = some (s', x)) :
    s.closed ch = false ∧ s.hasCredit ch = true ∧ s.ready[position]? = some x.message ∧
      x = ⟨ch, s.tags ch + 1, x.message⟩ ∧
      s' = { s with
        ready := s.ready.eraseIdx position
        unacked := s.unacked ++ [x]
        sent := s.sent ++ [x]
        tags := Function.update s.tags ch (s.tags ch + 1) } := by
  unfold Queue.deliver at hs
  split_ifs at hs with hopen
  split at hs
  · cases hs
  · rename_i message hmessage
    obtain ⟨rfl, rfl⟩ := Prod.mk.inj (Option.some.inj hs)
    exact ⟨hopen.1, hopen.2, hmessage, rfl, rfl⟩

-- Taking one message out of the ready ones leaves the others.
omit [DecidableEq Ch] in
theorem ready_perm {m : Message P} (hm : s.ready[position]? = some m) :
    (m :: s.ready.eraseIdx position).Perm s.ready := by
  obtain ⟨hlt, rfl⟩ := List.getElem?_eq_some_iff.mp hm
  exact List.getElem_cons_eraseIdx_perm hlt

-- A delivery moves one message from the ready ones to those without acknowledgement.
theorem deliver_places (hs : s.deliver ch position = some (s', x)) : s'.places.Perm s.places := by
  obtain ⟨-, -, hready, -, rfl⟩ := deliver_eq hs
  have hperm := (ready_perm hready).map Message.id
  have hplaces : (s.ready.eraseIdx position).map (·.id) ++
      ((s.unacked ++ [x]).map (·.message.id) ++ s.acked.map (·.message.id)) =
      (s.ready.eraseIdx position).map (·.id) ++
        (s.unacked.map (·.message.id) ++ x.message.id :: s.acked.map (·.message.id)) := by
    simp
  rw [Queue.places, hplaces]
  refine .trans (.append_left _ List.perm_middle) ?_
  refine .trans List.perm_middle ?_
  exact hperm.append_right _

theorem QueueOk.deliver_tag_ne (h : QueueOk s) (hs : s.deliver ch position = some (s', x)) :
    ∀ y ∈ s.sent, y.channel = x.channel → y.tag ≠ x.tag := by
  obtain ⟨-, -, -, hx, -⟩ := deliver_eq hs
  intro y hy hsame htags
  have hle := h.tags y hy
  rw [hx] at hsame htags
  rw [hsame] at hle
  dsimp only at hle htags
  omega

theorem QueueOk.deliver_tags (h : QueueOk s) (hs : s.deliver ch position = some (s', x)) :
    ∀ y ∈ s'.sent, y.tag ≤ s'.tags y.channel := by
  obtain ⟨-, -, -, hx, rfl⟩ := deliver_eq hs
  have hch : x.channel = ch := by rw [hx]
  have htag : x.tag = s.tags ch + 1 := by rw [hx]
  intro y hy
  show y.tag ≤ Function.update s.tags ch (s.tags ch + 1) y.channel
  obtain hold | hlast := List.mem_append.mp hy
  · have hle := h.tags y hold
    by_cases hsame : y.channel = ch
    · rw [hsame, Function.update_self]
      rw [hsame] at hle
      omega
    · rw [Function.update_of_ne hsame]
      exact hle
  · obtain rfl := List.mem_singleton.mp hlast
    rw [hch, Function.update_self]
    exact Nat.le_of_eq htag

theorem QueueOk.deliver_distinct (h : QueueOk s) (hs : s.deliver ch position = some (s', x)) :
    ∀ y ∈ s'.sent, ∀ z ∈ s'.sent, y.channel = z.channel → y.tag = z.tag → y = z := by
  have hnew := h.deliver_tag_ne hs
  obtain ⟨-, -, -, -, rfl⟩ := deliver_eq hs
  intro y hy z hz hchannel htags
  obtain hyold | hylast := List.mem_append.mp hy
  · obtain hzold | hzlast := List.mem_append.mp hz
    · exact h.distinct y hyold z hzold hchannel htags
    · obtain rfl := List.mem_singleton.mp hzlast
      exact absurd htags (hnew y hyold hchannel)
  · obtain rfl := List.mem_singleton.mp hylast
    obtain hzold | hzlast := List.mem_append.mp hz
    · exact absurd htags.symm (hnew z hzold hchannel.symm)
    · exact (List.mem_singleton.mp hzlast).symm

-- What is ready has been sent before only with the mark.
theorem QueueOk.deliver_once (h : QueueOk s) (hs : s.deliver ch position = some (s', x)) :
    ∀ y ∈ s'.unacked, y.message.redelivered = false → ∀ z ∈ s'.sent, z.message.id = y.message.id → z = y := by
  obtain ⟨-, -, hready, -, rfl⟩ := deliver_eq hs
  have hmem : x.message ∈ s.ready := List.mem_of_getElem? hready
  intro y hy hmark z hz hid
  obtain hyold | hylast := List.mem_append.mp hy
  · obtain hzold | hzlast := List.mem_append.mp hz
    · exact h.once y hyold hmark z hzold hid
    · obtain rfl := List.mem_singleton.mp hzlast
      exact absurd hid.symm (h.not_unacked hmem y hyold)
  · obtain rfl := List.mem_singleton.mp hylast
    obtain hzold | hzlast := List.mem_append.mp hz
    · exact absurd hid (h.fresh _ hmem hmark z hzold)
    · exact List.mem_singleton.mp hzlast

theorem QueueOk.deliver_credit (h : QueueOk s) (hs : s.deliver ch position = some (s', x)) :
    ∀ other n, s'.limit other = some n → n ≠ 0 → (s'.held other).length ≤ n := by
  obtain ⟨-, hcredit, -, hx, rfl⟩ := deliver_eq hs
  intro other n hlimit hn
  show ((s.unacked ++ [x]).filter (·.channel = other)).length ≤ n
  have hlimit' : s.limit other = some n := hlimit
  rw [List.filter_append, List.length_append]
  by_cases hother : other = ch
  · subst hother
    have hroom : (s.held other).length < n := by
      simp only [Queue.hasCredit, hlimit', decide_eq_true_eq] at hcredit
      exact hcredit.resolve_left hn
    have hone : ([x].filter (·.channel = other)).length ≤ 1 := List.length_filter_le _ _
    unfold Queue.held at hroom
    omega
  · have hnone : [x].filter (·.channel = other) = [] := by
      rw [hx]
      simp [Ne.symm hother]
    have hle := h.credit other n hlimit' hn
    unfold Queue.held at hle
    rw [hnone]
    exact hle

theorem QueueOk.deliver (h : QueueOk s) (hs : s.deliver ch position = some (s', x)) : QueueOk s' := by
  have hplaces := deliver_places hs
  have htags := h.deliver_tags hs
  have hdistinct := h.deliver_distinct hs
  have honce := h.deliver_once hs
  have hheld := h.deliver_credit hs
  obtain ⟨hopen, hcredit, hready, hx, rfl⟩ := deliver_eq hs
  have hmem : x.message ∈ s.ready := List.mem_of_getElem? hready
  have hch : x.channel = ch := by rw [hx]
  have herase : ∀ m ∈ s.ready.eraseIdx position, m ∈ s.ready ∧ m.id ≠ x.message.id := by
    intro m hm
    refine ⟨List.mem_of_mem_eraseIdx hm, ?_⟩
    have hnodup := ((ready_perm hready).map Message.id).nodup_iff.mpr (List.nodup_append.mp h.nodup).1
    exact fun heq => (List.nodup_cons.mp hnodup).1 (List.mem_map.mpr ⟨m, hm, heq⟩)
  refine ⟨hplaces.trans h.accounted, fun m hm => h.ready m (herase m hm).1, fun y hy => ?_, fun y hy => ?_,
    fun y hy => List.mem_append_left _ (h.acked y hy), htags, hdistinct, fun m hm hmark y hy => ?_, honce, ?_,
    fun y hy => ?_, fun y hy => ?_, hheld⟩
  · obtain hold | hlast := List.mem_append.mp hy
    · exact h.sent y hold
    · obtain rfl := List.mem_singleton.mp hlast
      exact h.ready _ hmem
  · obtain hold | hlast := List.mem_append.mp hy
    · exact List.mem_append_left _ (h.unacked y hold)
    · exact List.mem_append_right _ hlast
  · obtain hold | hlast := List.mem_append.mp hy
    · exact h.fresh m (herase m hm).1 hmark y hold
    · obtain rfl := List.mem_singleton.mp hlast
      exact (herase m hm).2.symm
  · refine List.pairwise_append.mpr ⟨h.first, List.pairwise_singleton _ _, fun y hy z hz hid => ?_⟩
    obtain rfl := List.mem_singleton.mp hz
    by_contra hmark
    exact h.fresh _ hmem (by simpa using hmark) y hy hid
  · obtain hold | hlast := List.mem_append.mp hy
    · exact h.consumed y hold
    · obtain rfl := List.mem_singleton.mp hlast
      intro hnone
      have hnone' : s.limit ch = none := hch ▸ hnone
      simp [Queue.hasCredit, hnone'] at hcredit
  · obtain hold | hlast := List.mem_append.mp hy
    · exact h.closed y hold
    · obtain rfl := List.mem_singleton.mp hlast
      exact hch ▸ hopen

theorem QueueOk.requeue (h : QueueOk s) (back : Sent Ch P → Bool) : QueueOk (s.requeue back) where
  accounted := by
    have hids : ((s.unacked.filter back).map Sent.again).map (·.id) =
        (s.unacked.filter back).map (·.message.id) := by
      simp [Sent.again, Function.comp_def]
    have hparts : ((s.unacked.filter back).map (·.message.id) ++
        (s.unacked.filter (!back ·)).map (·.message.id)).Perm (s.unacked.map (·.message.id)) := by
      rw [← List.map_append]
      exact (List.filter_append_perm back s.unacked).map _
    have hplaces : (s.requeue back).places.Perm s.places := by
      simp only [Queue.places, Queue.requeue, List.map_append, hids, List.append_assoc]
      refine .append_left _ ?_
      rw [← List.append_assoc]
      exact hparts.append_right _
    exact hplaces.trans h.accounted
  ready m hm := by
    obtain hold | hback := List.mem_append.mp hm
    · exact h.ready m hold
    · obtain ⟨x, hx, rfl⟩ := List.mem_map.mp hback
      exact h.sent x (h.unacked x (List.mem_filter.mp hx).1)
  sent := h.sent
  unacked x hx := h.unacked x (List.mem_filter.mp hx).1
  acked := h.acked
  tags := h.tags
  distinct := h.distinct
  fresh m hm hmark := by
    obtain hold | hback := List.mem_append.mp hm
    · exact h.fresh m hold hmark
    · obtain ⟨x, -, rfl⟩ := List.mem_map.mp hback
      cases hmark
  once x hx := h.once x (List.mem_filter.mp hx).1
  first := h.first
  consumed := h.consumed
  closed x hx := h.closed x (List.mem_filter.mp hx).1
  credit ch n hlimit hn := by
    refine Nat.le_trans ?_ (h.credit ch n hlimit hn)
    exact (List.filter_sublist.filter _).length_le

theorem QueueOk.close (h : QueueOk s) (ch : Ch) : QueueOk (s.close ch) where
  accounted := (h.requeue _).accounted
  ready := (h.requeue _).ready
  sent := h.sent
  unacked := (h.requeue _).unacked
  acked := h.acked
  tags := h.tags
  distinct := h.distinct
  fresh := (h.requeue _).fresh
  once := (h.requeue _).once
  first := h.first
  consumed := h.consumed
  credit := (h.requeue _).credit
  closed x hx := by
    obtain ⟨hmem, hne⟩ := List.mem_filter.mp hx
    have hch : x.channel ≠ ch := by simpa using hne
    show Function.update s.closed ch true x.channel = false
    rw [Function.update_of_ne hch]
    exact h.closed x hmem

theorem find_tagged (hfind : s.unacked.find? (isTagged ch tag) = some x) :
    x ∈ s.unacked ∧ x.channel = ch ∧ x.tag = tag :=
  ⟨List.mem_of_find?_eq_some hfind, isTagged_iff.mp (List.find?_some hfind)⟩

-- An acknowledgement moves the one message under its tag.
theorem ack_cases (s : Queue Ch P) (ch : Ch) (tag : Nat) :
    (s.unacked.find? (isTagged ch tag) = none ∧ s.ack ch tag = s.close ch) ∨
      ∃ x ∈ s.unacked, x.channel = ch ∧ x.tag = tag ∧
        s.ack ch tag =
          { s with unacked := s.unacked.filter (!isTagged ch tag ·), acked := s.acked ++ [x] } := by
  unfold Queue.ack
  cases hfind : s.unacked.find? (isTagged ch tag) with
  | none => exact .inl ⟨rfl, rfl⟩
  | some x =>
      obtain ⟨hmem, hch, htag⟩ := find_tagged hfind
      exact .inr ⟨x, hmem, hch, htag, rfl⟩

theorem nack_cases (s : Queue Ch P) (ch : Ch) (tag : Nat) :
    s.nack ch tag = s.close ch ∨ s.nack ch tag = s.requeue (isTagged ch tag) := by
  unfold Queue.nack
  split
  · exact .inl rfl
  · exact .inr rfl

theorem QueueOk.ack (h : QueueOk s) (ch : Ch) (tag : Nat) : QueueOk (s.ack ch tag) := by
  obtain ⟨-, heq⟩ | ⟨x, hx, hch, htag, heq⟩ := ack_cases s ch tag
  · exact heq ▸ h.close ch
  · rw [heq]
    have hparts := (List.filter_append_perm (isTagged ch tag) s.unacked).map (·.message.id)
    rw [h.filter_tagged hx hch htag] at hparts
    constructor
    · have hmoved : (s.ready.map (·.id) ++ ((s.unacked.filter (!isTagged ch tag ·)).map (·.message.id) ++
          (s.acked ++ [x]).map (·.message.id))).Perm s.places := by
        refine .append_left _ ?_
        rw [List.map_append, ← List.append_assoc]
        refine .trans List.perm_append_comm ?_
        rw [← List.append_assoc]
        exact hparts.append_right _
      exact hmoved.trans h.accounted
    · exact h.ready
    · exact h.sent
    · exact fun y hy => h.unacked y (List.mem_filter.mp hy).1
    · intro y hy
      obtain hold | hlast := List.mem_append.mp hy
      · exact h.acked y hold
      · exact List.mem_singleton.mp hlast ▸ h.unacked x hx
    · exact h.tags
    · exact h.distinct
    · exact h.fresh
    · exact fun y hy => h.once y (List.mem_filter.mp hy).1
    · exact h.first
    · exact h.consumed
    · exact fun y hy => h.closed y (List.mem_filter.mp hy).1
    · intro other n hlimit hn
      refine Nat.le_trans ?_ (h.credit other n hlimit hn)
      exact (List.filter_sublist.filter _).length_le

theorem QueueOk.nack (h : QueueOk s) (ch : Ch) (tag : Nat) : QueueOk (s.nack ch tag) := by
  obtain heq | heq := nack_cases s ch tag
  · exact heq ▸ h.close ch
  · exact heq ▸ h.requeue _

end Operations

section Settling

variable [DecidableEq Ch]

-- What a channel holds and is not `gone` it goes on to hold, or the channel is closed.
structure Settles (gone : Sent Ch P → Prop) (s s' : Queue Ch P) : Prop where
  sent : s'.sent = s.sent
  log : s'.log = s.log
  tags : s'.tags = s.tags
  acked : s.acked ⊆ s'.acked
  closed : ∀ ch, s'.closed ch = false → s.closed ch = false
  kept : ∀ x ∈ s.unacked, s'.closed x.channel = false → ¬ gone x → x ∈ s'.unacked

omit [DecidableEq Ch] in
theorem Settles.weaken {gone gone' : Sent Ch P → Prop} (h : Settles gone s s')
    (hgone : ∀ x, gone x → gone' x) : Settles gone' s s' :=
  { h with kept := fun x hx hclosed hnot => h.kept x hx hclosed fun hx => hnot (hgone x hx) }

theorem close_settles (s : Queue Ch P) (ch : Ch) : Settles (fun _ => False) s (s.close ch) where
  sent := rfl
  log := rfl
  tags := rfl
  acked := List.Subset.refl _
  closed key hkey := by
    by_cases hch : key = ch
    · subst hch
      have htrue : (s.close key).closed key = true := Function.update_self ..
      rw [htrue] at hkey
      cases hkey
    · exact (Function.update_of_ne hch _ _).symm.trans hkey
  kept x hx hclosed _ := by
    refine List.mem_filter.mpr ⟨hx, ?_⟩
    by_contra hch
    have heq : x.channel = ch := by simpa using hch
    have htrue : (s.close ch).closed x.channel = true := by
      rw [heq]
      exact Function.update_self ..
    rw [htrue] at hclosed
    cases hclosed

-- What is not under the tag stays.
theorem mem_untagged (hx : x ∈ s.unacked) (hother : ¬ (x.channel = ch ∧ x.tag = tag)) :
    x ∈ s.unacked.filter (!isTagged ch tag ·) := by
  refine List.mem_filter.mpr ⟨hx, ?_⟩
  rw [Bool.not_eq_true', ← Bool.not_eq_true]
  exact fun htagged => hother (isTagged_iff.mp htagged)

theorem nack_settles (s : Queue Ch P) (ch : Ch) (tag : Nat) :
    Settles (fun x => x.channel = ch ∧ x.tag = tag) s (s.nack ch tag) := by
  obtain heq | heq := nack_cases s ch tag
  · exact heq ▸ (close_settles s ch).weaken nofun
  · exact heq ▸ ⟨rfl, rfl, rfl, List.Subset.refl _, fun _ h => h,
      fun _ hx _ hother => mem_untagged hx hother⟩

theorem ack_settles (s : Queue Ch P) (ch : Ch) (tag : Nat) :
    Settles (fun x => x.channel = ch ∧ x.tag = tag) s (s.ack ch tag) := by
  obtain ⟨-, heq⟩ | ⟨x, -, -, -, heq⟩ := ack_cases s ch tag
  · exact heq ▸ (close_settles s ch).weaken nofun
  · exact heq ▸ ⟨rfl, rfl, rfl, List.subset_append_left _ _, fun _ h => h,
      fun _ hx _ hother => mem_untagged hx hother⟩

-- Only an acknowledgement adds to what is acknowledged.
theorem nack_acked (s : Queue Ch P) (ch : Ch) (tag : Nat) : (s.nack ch tag).acked = s.acked := by
  obtain heq | heq := nack_cases s ch tag <;> exact heq ▸ rfl

theorem ack_acked (hx : x ∈ (s.ack ch tag).acked) : x ∈ s.acked ∨ x.channel = ch ∧ x.tag = tag := by
  obtain ⟨-, heq⟩ | ⟨y, -, hch, htag, heq⟩ := ack_cases s ch tag
  · rw [heq] at hx
    exact .inl hx
  · rw [heq] at hx
    obtain hold | hlast := List.mem_append.mp hx
    · exact .inl hold
    · obtain rfl := List.mem_singleton.mp hlast
      exact .inr ⟨hch, htag⟩

theorem QueueOk.mem_acked (h : QueueOk s) (hx : x ∈ s.unacked) :
    x ∈ (s.ack x.channel x.tag).acked := by
  obtain ⟨hnone, -⟩ | ⟨y, hy, hch, htag, heq⟩ := ack_cases s x.channel x.tag
  · exact absurd (isTagged_iff.mpr ⟨rfl, rfl⟩) (List.find?_eq_none.mp hnone x hx)
  · rw [heq]
    obtain rfl := h.distinct y (h.unacked y hy) x (h.unacked x hx) hch htag
    exact List.mem_append_right _ List.mem_cons_self

end Settling

end Scaffold.Amqp
