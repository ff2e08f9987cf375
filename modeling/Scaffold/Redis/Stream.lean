import Mathlib.Data.List.Nodup
import Mathlib.Data.List.Basic

namespace Scaffold.Redis

-- A stream with one consumer group. Ids are the positions of the entries in the order of XADD.
structure StreamEntry (P : Type*) where
  id : Nat
  payload : P
  deriving DecidableEq, Repr

structure PendingEntry (C : Type*) where
  id : Nat
  owner : C
  deliveredAt : Nat
  deriving DecidableEq, Repr

-- The pending entries stand in the order of their ids. `log` and `grants` are histories: every
-- entry that was added, and every entry that a read or a claim gave to a consumer.
structure StreamGroup (C P : Type*) where
  entries : List (StreamEntry P) := []
  lastDelivered : Nat := 0
  pel : List (PendingEntry C) := []
  now : Nat := 0
  log : List (StreamEntry P) := []
  grants : List (Nat × C) := []

namespace StreamGroup

variable {C P : Type*} (s : StreamGroup C P)

def xadd (payload : P) : StreamGroup C P :=
  let entry : StreamEntry P := ⟨s.log.length + 1, payload⟩
  { s with entries := s.entries ++ [entry], log := s.log ++ [entry] }

-- XREADGROUP with `>` and COUNT 1.
def xreadgroup (c : C) : StreamGroup C P × Option (StreamEntry P) :=
  match s.entries.find? (s.lastDelivered < ·.id) with
  | none => (s, none)
  | some entry =>
      ({ s with
        lastDelivered := entry.id
        pel := s.pel ++ [⟨entry.id, c, s.now⟩]
        grants := s.grants ++ [(entry.id, c)] }, some entry)

def xpending (id : Nat) : Option (PendingEntry C) :=
  s.pel.find? (·.id = id)

-- XCLAIM of one id with min-idle 0 and JUSTID.
def xclaim (c : C) (id : Nat) : StreamGroup C P :=
  { s with pel := s.pel.map fun p => if p.id = id then { p with owner := c, deliveredAt := s.now } else p }

def xack (id : Nat) : StreamGroup C P × Bool :=
  ({ s with pel := s.pel.filter (·.id ≠ id) }, s.pel.any (·.id = id))

def xdel (id : Nat) : StreamGroup C P :=
  { s with entries := s.entries.filter (·.id ≠ id) }

end StreamGroup

section Claim

variable {C P : Type*}

def headId (rest : List (PendingEntry C)) : Nat :=
  (rest.head?.map (·.id)).getD 0

-- The scan of XAUTOCLAIM with COUNT 1 from its cursor on: it gives up after some attempts, drops
-- an entry that is no longer in the stream, skips what is not idle for long enough and claims the
-- first other entry. The result is the list, the claimed id and the next cursor.
def claimScan (present : Nat → Bool) (c : C) (now minIdle : Nat) :
    Nat → List (PendingEntry C) → List (PendingEntry C) × Option Nat × Nat
  | _, [] => ([], none, 0)
  | 0, p :: rest => (p :: rest, none, p.id)
  | attempts + 1, p :: rest =>
      if present p.id then
        if now - p.deliveredAt < minIdle then
          let (rest', claimed, cursor) := claimScan present c now minIdle attempts rest
          (p :: rest', claimed, cursor)
        else ({ p with owner := c, deliveredAt := now } :: rest, some p.id, headId rest)
      else (rest, none, headId rest)

def StreamGroup.xautoclaim (s : StreamGroup C P) (c : C) (minIdle cursor : Nat) :
    StreamGroup C P × Nat × Option (StreamEntry P) :=
  let (scanned, claimed, next) :=
    claimScan (fun id => s.entries.any (·.id = id)) c s.now minIdle 10 (s.pel.dropWhile (·.id < cursor))
  let t := { s with pel := s.pel.takeWhile (·.id < cursor) ++ scanned }
  match claimed with
  | none => (t, next, none)
  | some id => ({ t with grants := s.grants ++ [(id, c)] }, next, s.entries.find? (·.id = id))

end Claim

-- The state of a stream whose entries are acknowledged and deleted together: `removed` are the ids
-- of the entries that are gone.
structure StreamOk {C P : Type*} (s : StreamGroup C P) (removed : List Nat) : Prop where
  fresh : ∀ e ∈ s.log, e.id ≤ s.log.length
  sorted : s.log.Pairwise (·.id < ·.id)
  entries : s.entries = s.log.filter (·.id ∉ removed)
  bound : s.lastDelivered ≤ s.log.length
  pending : ∀ id, id ∈ s.pel.map (·.id) ↔ id ∈ s.entries.map (·.id) ∧ id ≤ s.lastDelivered
  nodup : (s.pel.map (·.id)).Nodup
  granted : ∀ id, id ∈ s.grants.map (·.1) ↔ id ∈ s.log.map (·.id) ∧ id ≤ s.lastDelivered
  gone : ∀ id ∈ removed, id ∈ s.log.map (·.id) ∧ id ≤ s.lastDelivered
  once : removed.Nodup

section Lemmas

variable {C P : Type*} {s : StreamGroup C P} {removed : List Nat}

theorem streamOk_empty : StreamOk ({} : StreamGroup C P) [] where
  fresh := by simp
  sorted := .nil
  entries := rfl
  bound := Nat.le_refl 0
  pending := by simp
  nodup := .nil
  granted := by simp
  gone := by simp
  once := .nil

theorem StreamOk.entries_mem (h : StreamOk s removed) {e : StreamEntry P} :
    e ∈ s.entries ↔ e ∈ s.log ∧ e.id ∉ removed := by
  rw [h.entries, List.mem_filter, decide_eq_true_eq]

theorem StreamOk.entry_id_mem (h : StreamOk s removed) {id : Nat} :
    id ∈ s.entries.map (·.id) ↔ id ∈ s.log.map (·.id) ∧ id ∉ removed := by
  simp only [List.mem_map]
  constructor
  · rintro ⟨e, he, rfl⟩
    obtain ⟨hlog, hnot⟩ := h.entries_mem.mp he
    exact ⟨⟨e, hlog, rfl⟩, hnot⟩
  · rintro ⟨⟨e, he, rfl⟩, hnot⟩
    exact ⟨e, h.entries_mem.mpr ⟨he, hnot⟩, rfl⟩

theorem StreamOk.xadd (h : StreamOk s removed) (payload : P) : StreamOk (s.xadd payload) removed := by
  have hnew : s.log.length + 1 ∉ removed := by
    intro hm
    have := (h.gone _ hm).2
    have := h.bound
    omega
  have hold : ∀ e ∈ s.log, e.id < s.log.length + 1 := fun e he => Nat.lt_succ_of_le (h.fresh e he)
  have hlast : ¬ s.log.length + 1 ≤ s.lastDelivered := by
    have := h.bound
    omega
  refine ⟨?_, ?_, ?_, ?_, ?_, h.nodup, ?_, ?_, h.once⟩
  · intro e he
    simp only [StreamGroup.xadd, List.mem_append, List.mem_singleton, List.length_append,
      List.length_singleton] at he ⊢
    rcases he with he | rfl
    · have := h.fresh e he
      omega
    · exact Nat.le_refl _
  · simp only [StreamGroup.xadd, List.pairwise_append, List.mem_singleton, forall_eq]
    exact ⟨h.sorted, List.pairwise_singleton _ _, hold⟩
  · simp only [StreamGroup.xadd, List.filter_append, h.entries]
    simp [hnew]
  · simp only [StreamGroup.xadd, List.length_append, List.length_singleton]
    have := h.bound
    omega
  · intro id
    simp only [StreamGroup.xadd, List.map_append, List.mem_append, List.map_cons, List.map_nil,
      List.mem_singleton,
      h.pending id]
    constructor
    · rintro ⟨hm, hle⟩
      exact ⟨.inl hm, hle⟩
    · rintro ⟨hm | rfl, hle⟩
      · exact ⟨hm, hle⟩
      · exact absurd hle hlast
  · intro id
    simp only [StreamGroup.xadd, List.map_append, List.mem_append, List.map_cons, List.map_nil,
      List.mem_singleton,
      h.granted id]
    constructor
    · rintro ⟨hm, hle⟩
      exact ⟨.inl hm, hle⟩
    · rintro ⟨hm | rfl, hle⟩
      · exact ⟨hm, hle⟩
      · exact absurd hle hlast
  · intro id hid
    obtain ⟨hm, hle⟩ := h.gone id hid
    refine ⟨?_, hle⟩
    simp only [StreamGroup.xadd, List.map_append, List.mem_append]
    exact .inl hm

-- The read hands out the first entry after the last one that was delivered.
theorem StreamOk.next_id (h : StreamOk s removed) {entry : StreamEntry P}
    (hfind : s.entries.find? (s.lastDelivered < ·.id) = some entry) :
    s.lastDelivered < entry.id ∧ entry ∈ s.entries ∧
      ∀ id, id ∈ s.log.map (·.id) → (id ≤ entry.id ↔ id ≤ s.lastDelivered ∨ id = entry.id) := by
  have hlt : s.lastDelivered < entry.id := by simpa using List.find?_some hfind
  have hmem : entry ∈ s.entries := List.mem_of_find?_eq_some hfind
  refine ⟨hlt, hmem, fun id hid => ⟨fun hle => ?_, ?_⟩⟩
  · by_cases hlast : id ≤ s.lastDelivered
    · exact .inl hlast
    · right
      -- an entry in between would have been found first
      obtain ⟨e, he, rfl⟩ := List.mem_map.mp hid
      have hstays : e ∈ s.entries := by
        refine h.entries_mem.mpr ⟨he, fun hgone => hlast (h.gone e.id hgone).2⟩
      have hsorted : s.entries.Pairwise (·.id < ·.id) := by
        rw [h.entries]
        exact h.sorted.filter _
      obtain ⟨-, before, after, hsplit, hbefore⟩ := List.find?_eq_some_iff_append.mp hfind
      rw [hsplit] at hstays hsorted
      rcases List.mem_append.mp hstays with hin | hin
      · have := hbefore e hin
        simp only [Bool.not_eq_true', decide_eq_false_iff_not] at this
        omega
      · rcases List.mem_cons.mp hin with rfl | hin
        · rfl
        · have hafter := (List.pairwise_append.mp hsorted).2.1
          have := List.rel_of_pairwise_cons hafter hin
          omega
  · rintro (hle | rfl)
    · omega
    · exact Nat.le_refl _

theorem StreamOk.xreadgroup (h : StreamOk s removed) (c : C) : StreamOk (s.xreadgroup c).1 removed := by
  unfold StreamGroup.xreadgroup
  split
  · exact h
  · rename_i entry hfind
    obtain ⟨hlt, hmem, hnext⟩ := h.next_id hfind
    have hid : entry.id ∈ s.entries.map (·.id) := List.mem_map_of_mem hmem
    have hlog : entry.id ∈ s.log.map (·.id) := (h.entry_id_mem.mp hid).1
    refine ⟨h.fresh, h.sorted, h.entries, ?_, ?_, ?_, ?_, ?_, h.once⟩
    · obtain ⟨e, he, heq⟩ := List.mem_map.mp hlog
      have := h.fresh e he
      exact heq ▸ this
    · intro id
      simp only [List.map_append, List.mem_append, h.pending id, List.map_cons, List.map_nil,
        List.mem_singleton]
      constructor
      · rintro (⟨hm, hle⟩ | rfl)
        · exact ⟨hm, by omega⟩
        · exact ⟨hid, Nat.le_refl _⟩
      · rintro ⟨hm, hle⟩
        rcases (hnext id (h.entry_id_mem.mp hm).1).mp hle with hle | rfl
        · exact .inl ⟨hm, hle⟩
        · exact .inr rfl
    · simp only [List.map_append, List.map_cons, List.map_nil]
      refine List.Nodup.append h.nodup (List.nodup_singleton _) ?_
      rw [List.disjoint_singleton]
      intro hpel
      have := ((h.pending entry.id).mp hpel).2
      omega
    · intro id
      simp only [List.map_append, List.mem_append, h.granted id, List.map_cons, List.map_nil,
        List.mem_singleton]
      constructor
      · rintro (⟨hm, hle⟩ | rfl)
        · exact ⟨hm, by omega⟩
        · exact ⟨hlog, Nat.le_refl _⟩
      · rintro ⟨hm, hle⟩
        rcases (hnext id hm).mp hle with hle | rfl
        · exact .inl ⟨hm, hle⟩
        · exact .inr rfl
    · intro id hgone
      obtain ⟨hm, hle⟩ := h.gone id hgone
      have hle' : id ≤ entry.id := by omega
      exact ⟨hm, hle'⟩

-- An entry that a read hands out was never given to a consumer before.
theorem StreamOk.xreadgroup_first (h : StreamOk s removed) {c : C} {entry : StreamEntry P}
    (hread : (s.xreadgroup c).2 = some entry) :
    entry ∈ s.log ∧ entry.id ∉ s.grants.map (·.1) ∧
      (s.xreadgroup c).1.grants = s.grants ++ [(entry.id, c)] := by
  unfold StreamGroup.xreadgroup at hread ⊢
  split at hread
  · cases hread
  · rename_i found hfind
    obtain rfl := Option.some.inj hread
    obtain ⟨hlt, hmem, -⟩ := h.next_id hfind
    refine ⟨(h.entries_mem.mp hmem).1, ?_, by simp⟩
    intro hgranted
    have := ((h.granted found.id).mp hgranted).2
    omega

-- A change of owners and times keeps the ids.
theorem StreamOk.of_pel (h : StreamOk s removed) {pel : List (PendingEntry C)} {grants : List (Nat × C)}
    (hpel : pel.map (·.id) = s.pel.map (·.id))
    (hgrants : ∀ id, id ∈ grants.map (·.1) ↔ id ∈ s.grants.map (·.1)) :
    StreamOk { s with pel := pel, grants := grants } removed where
  fresh := h.fresh
  sorted := h.sorted
  entries := h.entries
  bound := h.bound
  pending id := by rw [hpel]; exact h.pending id
  nodup := by rw [hpel]; exact h.nodup
  granted id := by rw [hgrants]; exact h.granted id
  gone := h.gone
  once := h.once

theorem StreamOk.xclaim (h : StreamOk s removed) (c : C) (id : Nat) : StreamOk (s.xclaim c id) removed := by
  refine h.of_pel ?_ fun _ => Iff.rfl
  rw [List.map_map]
  apply List.map_congr_left
  intro p _
  by_cases hp : p.id = id <;> simp [hp]

-- A scan over entries that are all in the stream claims at most one of them.
theorem claimScan_spec (present : Nat → Bool) (c : C) (now minIdle attempts : Nat)
    (rest : List (PendingEntry C)) (hpresent : ∀ p ∈ rest, present p.id = true) :
    ∀ scanned claimed next, claimScan present c now minIdle attempts rest = (scanned, claimed, next) →
      (claimed = none → scanned = rest) ∧
      ∀ id, claimed = some id → ∃ before p after, rest = before ++ p :: after ∧ p.id = id ∧
        minIdle ≤ now - p.deliveredAt ∧
        scanned = before ++ { p with owner := c, deliveredAt := now } :: after := by
  induction rest generalizing attempts with
  | nil =>
      intro scanned claimed next h
      cases attempts <;> simp only [claimScan, Prod.mk.injEq] at h <;> obtain ⟨rfl, rfl, rfl⟩ := h <;> simp
  | cons p rest ih =>
      intro scanned claimed next h
      cases attempts with
      | zero =>
          simp only [claimScan, Prod.mk.injEq] at h
          obtain ⟨rfl, rfl, rfl⟩ := h
          simp
      | succ attempts =>
          simp only [claimScan, hpresent p List.mem_cons_self, if_true] at h
          split_ifs at h with hidle
          · obtain ⟨hnone, hsome⟩ := ih attempts
              (fun x hx => hpresent x (List.mem_cons_of_mem _ hx)) _ _ _ rfl
            simp only [Prod.mk.injEq] at h
            obtain ⟨rfl, rfl, rfl⟩ := h
            refine ⟨fun hc => by rw [hnone hc], fun id hid => ?_⟩
            obtain ⟨before, x, after, hsplit, hx, hlong, hscan⟩ := hsome id hid
            exact ⟨p :: before, x, after, by rw [hsplit]; rfl, hx, hlong, by rw [hscan]; rfl⟩
          · simp only [Prod.mk.injEq] at h
            obtain ⟨rfl, rfl, rfl⟩ := h
            refine ⟨nofun, fun id hid => ?_⟩
            obtain rfl := Option.some.inj hid
            exact ⟨[], p, rest, rfl, rfl, by omega, rfl⟩

-- XAUTOCLAIM either changes nothing or gives one pending entry to the consumer.
theorem StreamOk.xautoclaim_cases (h : StreamOk s removed) (c : C) (minIdle cursor : Nat) :
    ((s.xautoclaim c minIdle cursor).1 = s ∧ (s.xautoclaim c minIdle cursor).2.2 = none) ∨
      ∃ before p after entry, s.pel = before ++ p :: after ∧ minIdle ≤ s.now - p.deliveredAt ∧
        entry ∈ s.entries ∧ entry.id = p.id ∧ (s.xautoclaim c minIdle cursor).2.2 = some entry ∧
        (s.xautoclaim c minIdle cursor).1 = { s with
          pel := before ++ { p with owner := c, deliveredAt := s.now } :: after
          grants := s.grants ++ [(p.id, c)] } := by
  have hpresent : ∀ p ∈ s.pel, s.entries.any (·.id = p.id) = true := by
    intro p hp
    obtain ⟨e, he, heq⟩ := List.mem_map.mp ((h.pending p.id).mp (List.mem_map_of_mem hp)).1
    exact List.any_eq_true.mpr ⟨e, he, by simpa using heq⟩
  have hsplit : s.pel.takeWhile (·.id < cursor) ++ s.pel.dropWhile (·.id < cursor) = s.pel :=
    List.takeWhile_append_dropWhile
  have htail : ∀ p ∈ s.pel.dropWhile (·.id < cursor), s.entries.any (·.id = p.id) = true :=
    fun p hp => hpresent p (by rw [← hsplit]; exact List.mem_append_right _ hp)
  obtain ⟨hnone, hsome⟩ := claimScan_spec (fun id => s.entries.any (·.id = id)) c s.now minIdle 10 _ htail
    _ _ _ rfl
  unfold StreamGroup.xautoclaim
  cases hclaimed : (claimScan (fun id => s.entries.any (·.id = id)) c s.now minIdle 10
      (s.pel.dropWhile (·.id < cursor))).2.1 with
  | none =>
      left
      simp only [hclaimed, hnone hclaimed, hsplit, and_self]
  | some id =>
      right
      obtain ⟨before, p, after, hrest, rfl, hidle, hscanned⟩ := hsome id hclaimed
      have hpel : s.pel = (s.pel.takeWhile (·.id < cursor) ++ before) ++ p :: after := by
        rw [List.append_assoc, ← hrest, hsplit]
      have hp : p ∈ s.pel := by
        rw [hpel]
        exact List.mem_append_right _ List.mem_cons_self
      obtain ⟨entry, hentry⟩ := Option.isSome_iff_exists.mp
        (List.find?_isSome.mpr (List.any_eq_true.mp (hpresent p hp)))
      refine ⟨_, p, after, entry, hpel, hidle, List.mem_of_find?_eq_some hentry, ?_, ?_, ?_⟩
      · simpa using List.find?_some hentry
      · simp only [hclaimed]
        exact hentry
      · simp only [hclaimed, hscanned, List.append_assoc]

theorem StreamOk.xautoclaim (h : StreamOk s removed) (c : C) (minIdle cursor : Nat) :
    StreamOk (s.xautoclaim c minIdle cursor).1 removed := by
  rcases h.xautoclaim_cases c minIdle cursor with ⟨hsame, -⟩ | ⟨before, p, after, entry, hpel, -, -,
    -, -, hnext⟩
  · rw [hsame]
    exact h
  · rw [hnext]
    refine h.of_pel ?_ fun id => ?_
    · rw [hpel]
      simp
    · have hp : p.id ∈ s.grants.map (·.1) := by
        have hin : p.id ∈ s.pel.map (·.id) := by
          rw [hpel]
          simp
        obtain ⟨hentry, hle⟩ := (h.pending p.id).mp hin
        exact (h.granted p.id).mpr ⟨(h.entry_id_mem.mp hentry).1, hle⟩
      simp only [List.map_append, List.map_cons, List.map_nil, List.mem_append, List.mem_singleton]
      constructor
      · rintro (hin | rfl)
        · exact hin
        · exact hp
      · exact .inl

theorem mem_map_filter_ne {α : Type*} (f : α → Nat) (l : List α) (id key : Nat) :
    key ∈ (l.filter (f · ≠ id)).map f ↔ key ∈ l.map f ∧ key ≠ id := by
  simp only [List.mem_map, List.mem_filter, decide_eq_true_eq]
  constructor
  · rintro ⟨x, ⟨hx, hne⟩, rfl⟩
    exact ⟨⟨x, hx, rfl⟩, hne⟩
  · rintro ⟨⟨x, hx, rfl⟩, hne⟩
    exact ⟨x, ⟨hx, hne⟩, rfl⟩

-- XACK and XDEL of a pending entry remove it.
theorem StreamOk.settle (h : StreamOk s removed) {id : Nat} (hid : id ∈ s.pel.map (·.id)) :
    StreamOk ((s.xack id).1.xdel id) (removed ++ [id]) := by
  obtain ⟨hentry, hle⟩ := (h.pending id).mp hid
  obtain ⟨hlog, hnot⟩ := h.entry_id_mem.mp hentry
  refine ⟨h.fresh, h.sorted, ?_, h.bound, ?_, ?_, h.granted, ?_, ?_⟩
  · simp only [StreamGroup.xdel, StreamGroup.xack, h.entries, List.filter_filter]
    apply List.filter_congr
    intro e _
    by_cases hid : e.id = id <;> simp [hid]
  · intro key
    simp only [StreamGroup.xdel, StreamGroup.xack]
    rw [mem_map_filter_ne, mem_map_filter_ne, h.pending key]
    tauto
  · exact h.nodup.sublist (List.filter_sublist.map _)
  · intro key hkey
    rcases List.mem_append.mp hkey with hkey | hkey
    · exact h.gone key hkey
    · rw [List.mem_singleton.mp hkey]
      exact ⟨hlog, hle⟩
  · refine List.Nodup.append h.once (List.nodup_singleton _) ?_
    rw [List.disjoint_singleton]
    exact hnot

end Lemmas

end Scaffold.Redis
