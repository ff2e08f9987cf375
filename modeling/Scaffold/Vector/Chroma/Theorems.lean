import Mathlib.Data.List.Induction
import Mathlib.Data.List.Perm.Basic
import Scaffold.Raising
import Scaffold.Vector.Chroma

namespace Scaffold.Vector.Chroma

open Machine Pool Python Raising

section Metadata

variable {items : Items} {key : String}

theorem dict_eq_none : items.dict key = none ↔ key ∉ items.map Prod.fst := by
  simp only [Items.dict, List.lookup_eq_none_iff, List.mem_reverse, List.mem_map, not_exists,
    not_and, bne_iff_ne]
  exact ⟨fun h item hitem hkey => h item hitem hkey.symm, fun h item hitem hkey => h item hitem hkey.symm⟩

theorem dict_append_singleton (other : String) (value : MetadataScalar) :
    Items.dict (items ++ [(other, value)]) key = if key = other then some value else items.dict key := by
  by_cases h : key = other
  · simp [Items.dict, h]
  · have hbeq : (key == other) = false := beq_false_of_ne h
    simp [Items.dict, List.lookup_cons, h, hbeq]

theorem lookup_filter (keep : String → Bool) :
    (items.filter fun item => keep item.1).lookup key = if keep key then items.lookup key else none := by
  induction items with
  | nil => simp
  | cons item items ih =>
      obtain ⟨other, value⟩ := item
      by_cases hkey : key = other
      · by_cases hother : keep other
        · simp [hother, hkey]
        · simpa [hother, hkey] using ih
      · have hbeq : (key == other) = false := beq_false_of_ne hkey
        by_cases hother : keep other
        · simpa [List.lookup_cons, hother, hbeq] using ih
        · simpa [List.lookup_cons, hother, hbeq] using ih

theorem dict_filter (keep : String → Bool) :
    Items.dict (items.filter fun item => keep item.1) key = if keep key then items.dict key else none := by
  rw [Items.dict, ← List.filter_reverse, lookup_filter]
  rfl

theorem dict_put (other : String) (value : Option MetadataScalar) :
    (put items (other, value)).dict key = if key = other then value else items.dict key := by
  cases value with
  | none =>
      rw [put, dict_filter fun key => key ≠ other]
      by_cases h : key = other <;> simp [h]
  | some value =>
      rw [put, dict_append_singleton, dict_filter fun key => key ≠ other]
      by_cases h : key = other <;> simp [h]

-- What the three parts of a replacement do to the old metadata.
theorem dict_merge_tombstones (keys : List String) :
    (merge items (keys.map fun key => (key, none))).dict key =
      if key ∈ keys then none else items.dict key := by
  induction keys generalizing items with
  | nil => simp [merge]
  | cons first keys ih =>
      have hfirst : (merge (put items (first, none)) (keys.map fun key => (key, none))).dict key =
          if key ∈ keys then none else (put items (first, none)).dict key := ih
      simp only [merge, List.map_cons, List.foldl_cons] at hfirst ⊢
      rw [hfirst, dict_put]
      by_cases hkey : key = first <;> by_cases hmem : key ∈ keys <;> simp [hkey, hmem]

theorem dict_merge_items (new : Items) :
    (merge items (new.map fun item => (item.1, some item.2))).dict key =
      (new.dict key).or (items.dict key) := by
  induction new using List.reverseRecOn with
  | nil => simp [merge, Items.dict]
  | append_singleton new item ih =>
      rw [dict_append_singleton]
      simp only [merge, List.map_append, List.foldl_append, List.map_cons, List.map_nil, List.foldl_cons,
        List.foldl_nil] at ih ⊢
      rw [dict_put, ih]
      by_cases hkey : key = item.1 <;> simp [hkey]

theorem dict_clean : (cleanChromaMetadata (some items)).dict key =
    if key = recordKey then none else items.dict key := by
  rw [cleanChromaMetadata, dict_filter fun key => key ≠ recordKey]
  by_cases h : key = recordKey <;> simp [h]

-- No key of the old metadata survives.
theorem dict_replacement {point : VectorPoint} (hkey : key ≠ recordKey) :
    (merge items (replacement (cleanChromaMetadata (some items)) point)).dict key =
      point.metadata.dict key := by
  have hsplit : ∀ first second third : Patch,
      merge items (first ++ second ++ third) = merge (merge (merge items first) second) third := by
    intro first second third
    simp [merge]
  rw [replacement, hsplit, dict_merge_items]
  cases hnew : point.metadata.dict key with
  | some value => rfl
  | none =>
      have hrecord : ∀ old : Items, (merge old [(recordKey, some (.bool true))]).dict key =
        old.dict key := by
        intro old
        rw [merge, List.foldl_cons, List.foldl_nil, dict_put, if_neg hkey]
      rw [Option.none_or, hrecord, dict_merge_tombstones]
      by_cases hmem : key ∈ items.map Prod.fst
      · have hstale : key ∈ ((cleanChromaMetadata (some items)).map Prod.fst).filter
            fun key => key ∉ point.metadata.map Prod.fst := by
          refine List.mem_filter.mpr ⟨?_, by simpa using dict_eq_none.mp hnew⟩
          by_contra hgone
          have hnone := dict_eq_none.mpr hgone
          rw [dict_clean, if_neg hkey] at hnone
          exact dict_eq_none.mp hnone hmem
        rw [if_pos hstale]
      · rw [dict_eq_none.mpr hmem, ite_self]

end Metadata

section Validation

theorem recordKey_not_mem {point : VectorPoint} (h : validatePoint point = .ok ()) :
    recordKey ∉ point.metadata.map Prod.fst := by
  obtain ⟨_, -, h⟩ := bind_ok h
  obtain ⟨_, -, h⟩ := bind_ok h
  intro hmem
  obtain ⟨item, hitem, hkey⟩ := List.mem_map.mp hmem
  have hvalid := forM_ok h item hitem
  simp only [hkey, validateItem] at hvalid
  split at hvalid
  · cases hvalid
  · have hreserved : recordKey ∈ reservedMetadataKeys := by decide
    rw [if_pos hreserved] at hvalid
    cases hvalid

-- What the checks at the start of an upsert say about a batch.
structure Batch (points : List VectorPoint) : Prop where
  nodup : (points.map VectorPoint.id).Nodup
  unreserved : ∀ point ∈ points, recordKey ∉ point.metadata.map Prod.fst

theorem batch_of_validatePoints {points : List VectorPoint} (h : validatePoints points = .ok ()) :
    Batch points := by
  obtain ⟨_, hpoints, hunique⟩ := bind_ok h
  refine ⟨?_, fun point hpoint => recordKey_not_mem (forM_ok hpoints point hpoint)⟩
  unfold validateUniqueIds at hunique
  split at hunique
  · assumption
  · cases hunique

end Validation

section Contents

-- The contents of the store as plain points: a vector and a mapping for each id.
abbrev Content := List PyFloat × (String → Option MetadataScalar)

abbrev Points := String → Option Content

def VectorPoint.content (point : VectorPoint) : Content := (point.vector, point.metadata.dict)

def overwrite (points : Points) (point : VectorPoint) : Points :=
  Function.update points point.id (some (VectorPoint.content point))

def overwriteAll (points : Points) (batch : List VectorPoint) : Points := batch.foldl overwrite points

def Record.content (record : Record) : Content :=
  (record.embedding, (cleanChromaMetadata (some record.metadata)).dict)

def Store.points (store : Store) : Points := fun id => (store id).map Record.content

-- The metadata that a replacement of `id` has to remove.
def existing (store : Store) (id : String) : Items :=
  cleanChromaMetadata (some (((store id).map Record.metadata).getD []))

theorem content_replacement {old : Items} {point : VectorPoint}
    (h : recordKey ∉ point.metadata.map Prod.fst) :
    Record.content ⟨point.vector, merge old (replacement (cleanChromaMetadata (some old)) point)⟩ =
      VectorPoint.content point := by
  refine Prod.ext rfl (funext fun key => ?_)
  change (cleanChromaMetadata (some (merge old _))).dict key = point.metadata.dict key
  rw [dict_clean]
  by_cases hkey : key = recordKey
  · rw [if_pos hkey, hkey, dict_eq_none.mpr h]
  · rw [if_neg hkey, dict_replacement hkey]

theorem points_write {store : Store} {point : VectorPoint} (h : recordKey ∉ point.metadata.map Prod.fst) :
    Store.points (write store ⟨point.id, point.vector, replacement (existing store point.id) point⟩) =
      overwrite (Store.points store) point := by
  funext id
  by_cases hid : id = point.id
  · subst hid
    simp only [Store.points, write, overwrite, Function.update_self, Option.map_some]
    rw [← content_replacement h]
    rfl
  · simp [Store.points, write, overwrite, hid]

-- The batch is prepared from one reading of the store. Its ids differ, so an earlier write of the
-- batch does not touch what a later one replaces.
theorem points_writeAll {store read : Store} {points : List VectorPoint} (hbatch : Batch points)
    (hread : ∀ point ∈ points, read point.id = store point.id) :
    Store.points (writeAll store
      (entries points (points.map fun point => replacement (existing read point.id) point))) =
      overwriteAll (Store.points store) points := by
  induction points generalizing store with
  | nil => rfl
  | cons point points ih =>
      obtain ⟨hnew, hnodup⟩ := List.nodup_cons.mp hbatch.nodup
      have hrest : Batch points :=
        ⟨hnodup, fun other hother => hbatch.unreserved other (List.mem_cons_of_mem _ hother)⟩
      have hfirst : existing read point.id = existing store point.id := by
        rw [existing, existing, hread point List.mem_cons_self]
      simp only [writeAll, entries, List.map_cons, List.zipWith_cons_cons, List.foldl_cons,
        overwriteAll] at ih ⊢
      rw [hfirst, ih hrest, points_write (hbatch.unreserved point List.mem_cons_self)]
      intro other hother
      have hne : other.id ≠ point.id := fun heq => hnew (heq ▸ List.mem_map_of_mem hother)
      rw [hread other (List.mem_cons_of_mem _ hother), write, Function.update_of_ne hne]

end Contents

section Reads

variable {store : Store} {order ids : List String}

theorem lookup_records {β : Type} (f : Record → β) (id : String) :
    ((records store order).map fun record => (record.1, f record.2)).lookup id =
      if id ∈ order then (store id).map f else none := by
  induction order with
  | nil => simp [records]
  | cons first order ih =>
      cases hfirst : store first with
      | none =>
          have hskip : records store (first :: order) = records store order := by simp [records, hfirst]
          rw [hskip, ih]
          by_cases hid : id = first
          · simp [hid, hfirst]
          · simp [hid]
      | some record =>
          have htake : records store (first :: order) = (first, record) :: records store order := by
            simp [records, hfirst]
          rw [htake, List.map_cons, List.lookup_cons, ih]
          by_cases hid : id = first
          · simp [hid, hfirst]
          · have hbeq : (id == first) = false := beq_false_of_ne hid
            simp [hid, hbeq]

theorem mem_of_isPerm {keep : String → Bool} (h : order.isPerm (ids.filter keep)) {id : String}
    (hid : id ∈ ids)
    (hkeep : keep id) : id ∈ order :=
  (List.isPerm_iff.mp h).mem_iff.mpr (List.mem_filter.mpr ⟨hid, hkeep⟩)

-- A reading that is complete gives every point of the batch its own old metadata.
theorem replacementMetadatas_answer {points : List VectorPoint}
    (h : order.isPerm ((points.map VectorPoint.id).filter fun id => (store id).isSome)) :
    replacementMetadatas (answer store order) points =
      .ok (points.map fun point => replacement (existing store point.id) point) := by
  have hempty : ∀ record : Record,
      cleanChromaMetadata (if record.metadata = [] then none else some record.metadata) =
        cleanChromaMetadata (some record.metadata) := by
    intro record
    split <;> simp [cleanChromaMetadata, *]
  have hexisting : (answer store order).ids.zip ((answer store order).metadatas.map cleanChromaMetadata) =
      (records store order).map fun record => (record.1, cleanChromaMetadata (some record.2.metadata)) := by
    simp only [answer, List.map_map, List.zip_map', Function.comp_def, hempty]
  have hlength : (answer store order).ids.length = (answer store order).metadatas.length := by
    simp [answer]
  unfold replacementMetadatas
  rw [if_neg (not_not.mpr hlength), hexisting]
  refine congrArg Except.ok (List.map_congr_left fun point hpoint => ?_)
  rw [lookup_records fun record => cleanChromaMetadata (some record.metadata)]
  cases hstore : store point.id with
  | none => simp [existing, hstore, cleanChromaMetadata]
  | some record =>
      have hmem : point.id ∈ order := mem_of_isPerm h (List.mem_map_of_mem hpoint) (by simp [hstore])
      simp [hmem, existing, hstore]

-- The point that the store has under an id, without the reserved key.
def stored (store : Store) (id : String) : Option VectorPoint :=
  (store id).map fun record => ⟨id, record.embedding, cleanChromaMetadata (some record.metadata)⟩

theorem filterMap_stored : order.filterMap (stored store) = (records store order).map fun record =>
    ⟨record.1, record.2.embedding, cleanChromaMetadata (some record.2.metadata)⟩ := by
  simp only [records, List.map_filterMap, Option.map_map]
  rfl

theorem chromaPoints_answer :
    chromaPoints (answer store order) = (order.filterMap (stored store)).mapM checkedPoint := by
  have hlength : (answer store order).ids.length = (answer store order).embeddings.length := by
    simp [answer]
  have hpoints : (((answer store order).ids.zip (answer store order).embeddings).zipIdx.map fun item =>
      (⟨item.1.1, item.1.2,
        cleanChromaMetadata (answer store order).metadatas[item.2]?.join⟩ : VectorPoint)) =
      order.filterMap (stored store) := by
    rw [filterMap_stored]
    refine List.ext_getElem? fun i => ?_
    simp only [answer, List.zip_map', List.getElem?_map, List.getElem?_zipIdx]
    cases hrecord : (records store order)[i]? with
    | none => rfl
    | some record =>
        by_cases hempty : record.2.metadata = []
        · simp [hrecord, hempty, cleanChromaMetadata]
        · simp [hrecord, hempty]
  unfold chromaPoints
  rw [if_neg (not_not.mpr hlength), ← hpoints, List.mapM_map]
  rfl

-- The checks of a point raise nothing else.
theorem validateItem_error {key : String} {value : MetadataScalar} {error : VectorError}
    (h : validateItem key value = .error error) : ∃ text, error = .configuration text := by
  unfold validateItem at h
  split at h
  · exact ⟨_, (Except.error.inj h).symm⟩
  · split at h
    · exact ⟨_, (Except.error.inj h).symm⟩
    · split at h
      · split at h
        · cases h
        · exact ⟨_, (Except.error.inj h).symm⟩
      · split at h
        · cases h
        · exact ⟨_, (Except.error.inj h).symm⟩
      · cases h

theorem validatePoint_error {point : VectorPoint} {error : VectorError}
    (h : validatePoint point = .error error) :
    ∃ text, error = .configuration text := by
  obtain hid | ⟨_, -, h⟩ := bind_error h
  · unfold validatePointId at hid
    split at hid
    · exact ⟨_, (Except.error.inj hid).symm⟩
    · cases hid
  · obtain hvector | ⟨_, -, h⟩ := bind_error h
    · unfold validateVector at hvector
      split at hvector
      · exact ⟨_, (Except.error.inj hvector).symm⟩
      · split at hvector
        · exact ⟨_, (Except.error.inj hvector).symm⟩
        · cases hvector
    · obtain ⟨item, -, hitem⟩ := forM_error h
      exact validateItem_error hitem

theorem mapM_checkedPoint (points : List VectorPoint) :
    (∀ point ∈ points, validatePoint point = .ok ()) ∧ points.mapM checkedPoint = .ok points ∨
    ∃ text, ∃ point ∈ points, validatePoint point ≠ .ok () ∧
      points.mapM checkedPoint = .error (.configuration text) := by
  induction points with
  | nil => exact .inl ⟨by simp, rfl⟩
  | cons first points ih =>
      rw [List.mapM_cons]
      cases hfirst : validatePoint first with
      | error error =>
          obtain ⟨text, rfl⟩ := validatePoint_error hfirst
          refine .inr ⟨text, first, List.mem_cons_self, by simp [hfirst], ?_⟩
          simp [checkedPoint, hfirst, bind, Except.bind]
      | ok =>
          have hchecked : checkedPoint first = .ok first :=
            by simp [checkedPoint, hfirst, bind, Except.bind, pure, Except.pure]
          rw [hchecked]
          obtain ⟨hrest, hmap⟩ | ⟨text, point, hpoint, hinvalid, hmap⟩ := ih
          · refine .inl ⟨List.forall_mem_cons.mpr ⟨hfirst, hrest⟩, ?_⟩
            rw [hmap]
            rfl
          · refine .inr ⟨text, point, List.mem_cons_of_mem _ hpoint, hinvalid, ?_⟩
            rw [hmap]
            rfl

theorem find_stored (id : String) :
    (order.filterMap (stored store)).find? (fun point => point.id = id) =
      if id ∈ order then stored store id else none := by
  induction order with
  | nil => simp
  | cons first order ih =>
      cases hfirst : stored store first with
      | none =>
          rw [List.filterMap_cons_none hfirst, ih]
          by_cases hid : id = first
          · simp [hid, hfirst]
          · simp [hid]
      | some point =>
          have hpoint : point.id = first := by
            obtain ⟨record, -, rfl⟩ := Option.map_eq_some_iff.mp hfirst
            rfl
          rw [List.filterMap_cons_some hfirst, List.find?_cons, ih]
          by_cases hid : id = first
          · simp [hid, hpoint, hfirst]
          · simp [hid, hpoint, Ne.symm hid]

-- What a get returns or raises when it reads this store.
def Reads (store : Store) (ids : List String) (outcome : Outcome) : Prop :=
  (∀ id ∈ ids, ∀ point, stored store id = some point → validatePoint point = .ok ()) ∧
    outcome = .found (ids.filterMap (stored store)) ∨
  (∃ id ∈ ids, ∃ point, stored store id = some point ∧ validatePoint point ≠ .ok ()) ∧
    ∃ text, outcome = .raised (.configuration text)

theorem reads_found (h : order.isPerm (ids.filter fun id => (store id).isSome)) :
    Reads store ids (match chromaPoints (answer store order) with
      | .error error => .raised error
      | .ok points => .found (inOrder ids points)) := by
  rw [chromaPoints_answer]
  obtain ⟨hvalid, hmap⟩ | ⟨text, point, hpoint, hinvalid, hmap⟩ :=
    mapM_checkedPoint (order.filterMap (stored store))
  · rw [hmap]
    have hmem : ∀ id ∈ ids, ∀ point, stored store id = some point → id ∈ order := by
      intro id hid point hpoint
      obtain ⟨record, hrecord, -⟩ := Option.map_eq_some_iff.mp hpoint
      exact mem_of_isPerm h hid (by simp [hrecord])
    refine .inl ⟨fun id hid point hpoint => ?_,
      congrArg Outcome.found (List.filterMap_congr fun id hid => ?_)⟩
    · exact hvalid point (List.mem_filterMap.mpr ⟨id, hmem id hid point hpoint, hpoint⟩)
    · rw [← List.filterMap_reverse, find_stored]
      cases hpoint : stored store id with
      | none => exact ite_self _
      | some point => rw [if_pos (List.mem_reverse.mpr (hmem id hid point hpoint))]
  · rw [hmap]
    obtain ⟨id, hid, hstored⟩ := List.mem_filterMap.mp hpoint
    have hids : id ∈ ids := List.mem_of_mem_filter ((List.isPerm_iff.mp h).mem_iff.mp hid)
    exact .inr ⟨⟨id, hids, point, hstored, hinvalid⟩, text, rfl⟩

end Reads

section Moves

variable {ι : Type} {s s' : Shared ι} {l l' : Task} {i : ι} {act : Act} {phase : Phase}

-- What the thread of a call does.
inductive Performs (i : ι) (s : Shared ι) (order : List String) : Phase → Shared ι → Phase → Prop
  | require (collection : String) (job : Job) (cancelled : Bool) :
    Performs i s order (.require collection job cancelled none) s
      (.require collection job cancelled (some (s.collections collection).isSome))
  | read (collection : String) (points : List VectorPoint) (cancelled : Bool) (store : Store)
      (hstore : s.collections collection = some store)
      (hperm : order.isPerm ((points.map VectorPoint.id).filter fun id => (store id).isSome) = true) :
    Performs i s order (.read collection points cancelled none) s
      (.read collection points cancelled (some (answer store order)))
  | write (collection : String) (points : List VectorPoint) (metadatas : List Patch) (cancelled : Bool)
      (store : Store) (hstore : s.collections collection = some store) :
    Performs i s order (.write collection points metadatas cancelled false)
      { s with
        collections := Function.update s.collections collection
          (some (writeAll store (entries points metadatas)))
        writes := s.writes ++ [⟨i, collection, points⟩] }
      (.write collection points metadatas cancelled true)
  | find (collection : String) (ids : List String) (cancelled : Bool) (store : Store)
      (hstore : s.collections collection = some store)
      (hperm : order.isPerm (ids.filter fun id => (store id).isSome) = true) :
    Performs i s order (.find collection ids cancelled none) s
      (.find collection ids cancelled (some (answer store order)))

theorem performs_of_some {order : List String} {next : Phase}
    (h : perform i s order phase = some (s', next)) : Performs i s order phase s' next := by
  unfold perform at h
  split at h
  · obtain ⟨rfl, rfl⟩ := Prod.mk.inj (Option.some.inj h)
    exact .require _ _ _
  · obtain ⟨store, hstore, h⟩ := Option.bind_eq_some_iff.mp h
    obtain ⟨hperm, heq⟩ := guarded h
    obtain ⟨rfl, rfl⟩ := Prod.mk.inj heq
    exact .read _ _ _ store hstore hperm
  · obtain ⟨store, hstore, heq⟩ := Option.map_eq_some_iff.mp h
    obtain ⟨rfl, rfl⟩ := Prod.mk.inj heq
    exact .write _ _ _ _ store hstore
  · obtain ⟨store, hstore, h⟩ := Option.bind_eq_some_iff.mp h
    obtain ⟨hperm, heq⟩ := guarded h
    obtain ⟨rfl, rfl⟩ := Prod.mk.inj heq
    exact .find _ _ _ store hstore hperm
  · cases h

-- How a call goes on when its thread has ended. An upsert that ends gives the lock back.
inductive Delivers (s : Shared ι) : Phase → Shared ι → Task → Prop
  | upsertCancelled (collection : String) (points : List VectorPoint) (found : Bool) :
    Delivers s (.require collection (.upsert points) true (some found)) { s with lock := none }
      (.ended .cancelled)
  | upsertMissing (collection : String) (points : List VectorPoint) :
    Delivers s (.require collection (.upsert points) false (some false)) { s with lock := none }
      (.ended (.raised (notFound collection)))
  | upsertFound (collection : String) (points : List VectorPoint) :
    Delivers s (.require collection (.upsert points) false (some true)) s
      (.waiting (.read collection points false none))
  | getCancelled (collection : String) (ids : List String) (found : Bool) :
    Delivers s (.require collection (.get ids) true (some found)) s (.ended .cancelled)
  | getMissing (collection : String) (ids : List String) :
    Delivers s (.require collection (.get ids) false (some false)) s
      (.ended (.raised (notFound collection)))
  | getFound (collection : String) (ids : List String) :
    Delivers s (.require collection (.get ids) false (some true)) s
      (.waiting (.find collection ids false none))
  | readCancelled (collection : String) (points : List VectorPoint) (result : Reply) :
    Delivers s (.read collection points true (some result)) { s with lock := none } (.ended .cancelled)
  | readRaises (collection : String) (points : List VectorPoint) (result : Reply) (error : VectorError)
      (hraised : replacementMetadatas result points = .error error) :
    Delivers s (.read collection points false (some result)) { s with lock := none }
      (.ended (.raised error))
  | readReturns (collection : String) (points : List VectorPoint) (result : Reply) (metadatas : List Patch)
      (hreturned : replacementMetadatas result points = .ok metadatas) :
    Delivers s (.read collection points false (some result)) s
      (.waiting (.write collection points metadatas false false))
  | written (collection : String) (points : List VectorPoint) (metadatas : List Patch) (cancelled : Bool) :
    Delivers s (.write collection points metadatas cancelled true) { s with lock := none }
      (.ended (if cancelled then .cancelled else .upserted))
  | findCancelled (collection : String) (ids : List String) (result : Reply) :
    Delivers s (.find collection ids true (some result)) s (.ended .cancelled)
  | findRaises (collection : String) (ids : List String) (result : Reply) (error : VectorError)
      (hraised : chromaPoints result = .error error) :
    Delivers s (.find collection ids false (some result)) s (.ended (.raised error))
  | findReturns (collection : String) (ids : List String) (result : Reply) (points : List VectorPoint)
      (hreturned : chromaPoints result = .ok points) :
    Delivers s (.find collection ids false (some result)) s (.ended (.found (inOrder ids points)))

theorem delivers_of_some (h : deliver s phase = some (s', l')) : Delivers s phase s' l' := by
  unfold deliver at h
  split at h
  · rename_i collection points cancelled found
    cases cancelled with
    | true =>
        obtain ⟨rfl, rfl⟩ := Prod.mk.inj (Option.some.inj h)
        exact .upsertCancelled collection points found
    | false =>
        cases found with
        | true =>
            obtain ⟨rfl, rfl⟩ := Prod.mk.inj (Option.some.inj h)
            exact .upsertFound collection points
        | false =>
            obtain ⟨rfl, rfl⟩ := Prod.mk.inj (Option.some.inj h)
            exact .upsertMissing collection points
  · rename_i collection ids cancelled found
    obtain ⟨rfl, rfl⟩ := Prod.mk.inj (Option.some.inj h)
    cases cancelled with
    | true => exact .getCancelled collection ids found
    | false =>
        cases found with
        | true => exact .getFound collection ids
        | false => exact .getMissing collection ids
  · rename_i collection points cancelled result
    cases cancelled with
    | true =>
        obtain ⟨rfl, rfl⟩ := Prod.mk.inj (Option.some.inj h)
        exact .readCancelled collection points result
    | false =>
        cases hresult : replacementMetadatas result points with
        | error error =>
            rw [hresult] at h
            obtain ⟨rfl, rfl⟩ := Prod.mk.inj (Option.some.inj h)
            exact .readRaises collection points result error hresult
        | ok metadatas =>
            rw [hresult] at h
            obtain ⟨rfl, rfl⟩ := Prod.mk.inj (Option.some.inj h)
            exact .readReturns collection points result metadatas hresult
  · obtain ⟨rfl, rfl⟩ := Prod.mk.inj (Option.some.inj h)
    exact .written _ _ _ _
  · rename_i collection ids cancelled result
    obtain ⟨rfl, rfl⟩ := Prod.mk.inj (Option.some.inj h)
    cases cancelled with
    | true => exact .findCancelled collection ids result
    | false =>
        cases hresult : chromaPoints result with
        | error error => exact .findRaises collection ids result error hresult
        | ok points => exact .findReturns collection ids result points hresult
  · cases h

-- The moves of a call.
inductive TaskMove (i : ι) (s : Shared ι) : Task → Act → Shared ι → Task → Prop
  | called (operation : Operation) : TaskMove i s .idle (.call operation) s (start s operation)
  | acquired (collection : String) (points : List VectorPoint) (hfree : s.lock = none) :
    TaskMove i s (.waiting (.lock collection points)) .acquire { s with lock := some i }
      (.waiting (.require collection (.upsert points) false none))
  | performed (phase : Phase) (order : List String) {s' : Shared ι} {next : Phase}
      (hperform : Performs i s order phase s' next) :
    TaskMove i s (.waiting phase) (.perform order) s' (.waiting next)
  | delivered (phase : Phase) {s' : Shared ι} {l' : Task} (hdeliver : Delivers s phase s' l') :
    TaskMove i s (.waiting phase) .deliver s' l'
  | cancelled (phase : Phase) : TaskMove i s (.waiting phase) .cancel s (cancel phase)

theorem taskMove_of_step (h : taskStep i s l act = some (s', l')) : TaskMove i s l act s' l' := by
  unfold taskStep at h
  split at h
  · obtain ⟨rfl, rfl⟩ := Prod.mk.inj (Option.some.inj h)
    exact .called _
  · obtain ⟨hfree, heq⟩ := guarded h
    obtain ⟨rfl, rfl⟩ := Prod.mk.inj heq
    exact .acquired _ _ (Option.isNone_iff_eq_none.mp hfree)
  · obtain ⟨⟨s'', next⟩, hperform, heq⟩ := Option.map_eq_some_iff.mp h
    obtain ⟨rfl, rfl⟩ := Prod.mk.inj heq
    exact .performed _ _ (performs_of_some hperform)
  · exact .delivered _ (delivers_of_some h)
  · obtain ⟨rfl, rfl⟩ := Prod.mk.inj (Option.some.inj h)
    exact .cancelled _
  · cases h

theorem call_task {operation : Operation} (h : taskStep i s l (.call operation) = some (s', l')) :
    l = .idle ∧ s' = s ∧ l' = start s operation := by
  cases taskMove_of_step h with
  | called => exact ⟨rfl, rfl, rfl⟩

end Moves

section Lock

variable {ι : Type} {s s' : Shared ι} {l l' : Task} {i : ι} {act : Act}

-- A call between the acquisition and the release of the lock.
def Task.holds : Task → Prop
  | .waiting (.require _ (.upsert _) _ _) => True
  | .waiting (.read ..) => True
  | .waiting (.write ..) => True
  | _ => False

-- What a call knows at its await: the answer to its read and the patches it has prepared belong to
-- the present content of the store.
def Task.knows (s : Shared ι) : Task → Prop
  | .waiting (.lock _ points) => Batch points
  | .waiting (.require _ (.upsert points) _ _) => Batch points
  | .waiting (.read collection points _ reply) =>
      Batch points ∧ ∀ result, reply = some result → ∃ store order, s.collections collection = some store ∧
        order.isPerm ((points.map VectorPoint.id).filter fun id => (store id).isSome) ∧
          result = answer store order
  | .waiting (.write collection points metadatas _ done) =>
      Batch points ∧ (done = false → ∃ store, s.collections collection = some store ∧
        metadatas = points.map fun point => replacement (existing store point.id) point)
  | _ => True

theorem knows_congr (h : l.holds → s'.collections = s.collections) (hl : l.knows s) : l.knows s' := by
  unfold Task.knows at hl ⊢
  split
  · exact hl
  · exact hl
  · rw [h trivial]
    exact hl
  · rw [h trivial]
    exact hl
  · trivial

-- What holds of a call at its await.
def Ok (i : ι) (s : Shared ι) (l : Task) : Prop := (l.holds → s.lock = some i) ∧ l.knows s

theorem ok_ended (outcome : Outcome) : Ok i s (.ended outcome) := ⟨fun h => h.elim, trivial⟩

theorem ok_start (operation : Operation) : Ok i s (start s operation) := by
  cases operation with
  | upsert collection args =>
      simp only [start]
      split
      · exact ok_ended _
      · exact ok_ended _
      · split
        · exact ok_ended _
        · rename_i hvalid _
          exact ⟨fun h => h.elim, batch_of_validatePoints hvalid⟩
  | get collection ids =>
      simp only [start]
      split
      · exact ok_ended _
      · exact ok_ended _
      · split
        · exact ok_ended _
        · exact ⟨fun h => h.elim, trivial⟩

theorem ok_perform {order : List String} {phase next : Phase} (hl : Ok i s (.waiting phase))
    (h : Performs i s order phase s' next) : Ok i s' (.waiting next) := by
  cases h with
  | require collection job cancelled =>
      cases job with
      | upsert points => exact hl
      | get ids => exact hl
  | read collection points cancelled store hstore hperm =>
      exact ⟨hl.1, hl.2.1, fun result hresult =>
        ⟨store, order, hstore, hperm, (Option.some.inj hresult).symm⟩⟩
  | write collection points metadatas cancelled store hstore =>
      exact ⟨hl.1, hl.2.1, fun hdone => nomatch hdone⟩
  | find collection ids cancelled store hstore hperm => exact ⟨hl.1, trivial⟩

theorem ok_deliver {phase : Phase} (hl : Ok i s (.waiting phase)) (h : Delivers s phase s' l') :
    Ok i s' l' := by
  cases h with
  | upsertFound collection points => exact ⟨hl.1, hl.2, fun _ hreply => nomatch hreply⟩
  | getFound collection ids => exact ⟨fun h => h.elim, trivial⟩
  | readReturns collection points result metadatas hreturned =>
      obtain ⟨store, order, hstore, hperm, rfl⟩ := hl.2.2 result rfl
      rw [replacementMetadatas_answer hperm] at hreturned
      obtain rfl := Except.ok.inj hreturned
      exact ⟨hl.1, hl.2.1, fun _ => ⟨store, hstore, rfl⟩⟩
  | _ => exact ok_ended _

theorem ok_cancel {phase : Phase} (hl : Ok i s (.waiting phase)) : Ok i s (cancel phase) := by
  cases phase with
  | lock collection points => exact ok_ended _
  | require collection job cancelled reply => cases job <;> exact hl
  | read collection points cancelled reply => exact hl
  | write collection points metadatas cancelled done => exact hl
  | find collection ids cancelled reply => exact hl

theorem ok_step (hl : Ok i s l) (h : taskStep i s l act = some (s', l')) : Ok i s' l' := by
  cases taskMove_of_step h with
  | called operation => exact ok_start _
  | acquired collection points hfree => exact ⟨fun _ => rfl, hl.2⟩
  | performed phase order hperform => exact ok_perform hl hperform
  | delivered phase hdeliver => exact ok_deliver hl hdeliver
  | cancelled phase => exact ok_cancel hl

theorem perform_shared {order : List String} {phase next : Phase} (hl : ¬ (Task.waiting phase).holds)
    (h : Performs i s order phase s' next) : s' = s := by
  cases h with
  | write collection points metadatas cancelled store hstore => exact absurd trivial hl
  | _ => rfl

theorem deliver_shared {phase : Phase} (hl : ¬ (Task.waiting phase).holds) (h : Delivers s phase s' l') :
    s' = s := by
  cases h with
  | getCancelled | getMissing | getFound | findCancelled | findRaises | findReturns => rfl
  | _ => exact absurd trivial hl

-- A call that does not hold the lock leaves the store alone, and the lock if another has it.
theorem frame_step (hl : ¬ l.holds) (h : taskStep i s l act = some (s', l')) :
    s'.collections = s.collections ∧ (s.lock ≠ none → s'.lock = s.lock) := by
  cases taskMove_of_step h with
  | called operation => exact ⟨rfl, fun _ => rfl⟩
  | acquired collection points hfree => exact ⟨rfl, fun hlock => absurd hfree hlock⟩
  | performed phase order hperform =>
      obtain rfl := perform_shared hl hperform
      exact ⟨rfl, fun _ => rfl⟩
  | delivered phase hdeliver =>
      obtain rfl := deliver_shared hl hdeliver
      exact ⟨rfl, fun _ => rfl⟩
  | cancelled phase => exact ⟨rfl, fun _ => rfl⟩

theorem history_perform {order : List String} {phase next : Phase} (h : Performs i s order phase s' next) :
    (s'.collections = s.collections ∧ s'.writes = s.writes) ∨
    ∃ collection points metadatas cancelled store,
      Task.waiting phase = .waiting (.write collection points metadatas cancelled false) ∧
      Task.waiting next = .waiting (.write collection points metadatas cancelled true) ∧
      s.collections collection = some store ∧
      s'.collections = Function.update s.collections collection
        (some (writeAll store (entries points metadatas))) ∧
      s'.writes = s.writes ++ [⟨i, collection, points⟩] := by
  cases h with
  | write collection points metadatas cancelled store hstore =>
      exact .inr ⟨collection, points, metadatas, cancelled, store, rfl, rfl, hstore, rfl, rfl⟩
  | _ => exact .inl ⟨rfl, rfl⟩

theorem history_deliver {phase : Phase} (h : Delivers s phase s' l') :
    s'.collections = s.collections ∧ s'.writes = s.writes := by
  cases h <;> exact ⟨rfl, rfl⟩

-- Only the write of an upsert changes the store and its history.
theorem history_step (h : taskStep i s l act = some (s', l')) :
    (s'.collections = s.collections ∧ s'.writes = s.writes) ∨
    ∃ collection points metadatas cancelled store,
      l = .waiting (.write collection points metadatas cancelled false) ∧
      l' = .waiting (.write collection points metadatas cancelled true) ∧
      s.collections collection = some store ∧
      s'.collections = Function.update s.collections collection
        (some (writeAll store (entries points metadatas))) ∧
      s'.writes = s.writes ++ [⟨i, collection, points⟩] := by
  cases taskMove_of_step h with
  | called operation => exact .inl ⟨rfl, rfl⟩
  | acquired collection points hfree => exact .inl ⟨rfl, rfl⟩
  | performed phase order hperform => exact history_perform hperform
  | delivered phase hdeliver => exact .inl (history_deliver hdeliver)
  | cancelled phase => exact .inl ⟨rfl, rfl⟩

end Lock

section Serial

variable {ι : Type} [DecidableEq ι] {p q r : Client ι} {i : ι}

abbrev Contents := String → Option Points

def Shared.contents (s : Shared ι) : Contents := fun name => (s.collections name).map Store.points

-- One upsert as a plain overwrite.
def Write.apply (contents : Contents) (write : Write ι) : Contents :=
  Function.update contents write.collection
    ((contents write.collection).map fun points => overwriteAll points write.points)

omit [DecidableEq ι] in
theorem contents_write {s s' : Shared ι} {collection : String} {points : List VectorPoint} {store : Store}
    (hbatch : Batch points) (hstore : s.collections collection = some store)
    (hs' : s'.collections = Function.update s.collections collection (some (writeAll store
      (entries points (points.map fun point => replacement (existing store point.id) point))))) :
    s'.contents = Write.apply s.contents ⟨i, collection, points⟩ := by
  funext name
  by_cases hname : name = collection
  · subst hname
    simp only [Shared.contents, hs', Write.apply, Function.update_self, hstore, Option.map_some]
    rw [points_writeAll hbatch fun _ _ => rfl]
  · simp [Shared.contents, hs', Write.apply, hname]

-- The calls of a client with the lock as their discipline. `base` is the initial content.
def discipline (base : Contents) : Discipline (taskStep (ι := ι)) mutate where
  good s := s.contents = s.writes.foldl Write.apply base
  ok := Ok
  rely i s s' := s.lock = some i → s'.lock = some i ∧ s'.collections = s.collections
  stable i s s' l hrely hok := by
    refine ⟨fun hl => (hrely (hok.1 hl)).1, knows_congr (fun hl => (hrely (hok.1 hl)).2) hok.2⟩
  task_good i s l act s' l' hgood hok h := by
    obtain ⟨hcollections, hwrites⟩ | ⟨collection, points, metadatas, cancelled, store, rfl, rfl,
      hstore, hs', hwrites⟩ :=
      history_step h
    · have hsame : s'.contents = s.contents := by
        funext name
        rw [Shared.contents, Shared.contents, hcollections]
      rw [hwrites, ← hgood, hsame]
    · obtain ⟨hbatch, hprepared⟩ := hok.2
      obtain ⟨store', hstore', rfl⟩ := hprepared rfl
      obtain rfl : store = store' := Option.some.inj (hstore.symm.trans hstore')
      rw [hwrites, List.foldl_append, List.foldl_cons, List.foldl_nil, ← hgood]
      exact contents_write hbatch hstore hs'
  task_ok _ _ _ _ _ _ _ hok h := ok_step hok h
  task_rely i s l act s' l' _ hok h j hj := by
    intro hlock
    have hl : ¬ l.holds := by
      intro hl
      exact hj (Option.some.inj (hlock.symm.trans (hok.1 hl)))
    obtain ⟨hcollections, hkeep⟩ := frame_step hl h
    exact ⟨(hkeep (by simp [hlock])).trans hlock, hcollections⟩
  env_good s event s' hgood h := by
    obtain rfl := Option.some.inj h
    exact hgood
  env_rely s event s' _ h j := by
    obtain rfl := Option.some.inj h
    exact fun hlock => ⟨hlock, rfl⟩

-- The upserts of one call among the executed ones.
def own (i : ι) (writes : List (Write ι)) : List (Write ι) := writes.filter fun write => write.task = i

theorem own_append (first rest : List (Write ι)) : own i (first ++ rest) = own i first ++ own i rest :=
  List.filter_append ..

theorem own_eq_nil {writes : List (Write ι)} : own i writes = [] ↔ ∀ w ∈ writes, w.task ≠ i := by
  simp [own]

-- How far an upsert has come: nothing is executed before its write, and then all of it is.
def Tracks (w : Write ι) (mine : List (Write ι)) : Task → Prop
  | .waiting (.lock collection points) => w.collection = collection ∧ w.points = points ∧ mine = []
  | .waiting (.require collection (.upsert points) _ _) =>
      w.collection = collection ∧ w.points = points ∧ mine = []
  | .waiting (.read collection points _ _) => w.collection = collection ∧ w.points = points ∧ mine = []
  | .waiting (.write collection points _ _ done) =>
      w.collection = collection ∧ w.points = points ∧ mine = if done then [w] else []
  | .ended .upserted => mine = [w] ∨ w.points = [] ∧ mine = []
  | .ended (.raised _) => mine = []
  | .ended .cancelled => mine = [] ∨ mine = [w]
  | _ => False

theorem tracks_start {s : Shared ι} {collection : String} {args : List PointArg}
    (hnone : own i s.writes = []) :
    Tracks ⟨i, collection, args.map (PointArg.read s.heap)⟩ (own i s.writes)
      (start s (.upsert collection args)) := by
  simp only [start]
  split
  · exact hnone
  · exact hnone
  · split
    · exact .inr ⟨‹_›, hnone⟩
    · exact ⟨rfl, rfl, hnone⟩

theorem tracks_perform {s s' : Shared ι} {order : List String} {phase next : Phase} {w : Write ι}
    (hw : w.task = i) (hl : Tracks w (own i s.writes) (.waiting phase))
    (h : Performs i s order phase s' next) : Tracks w (own i s'.writes) (.waiting next) := by
  cases h with
  | require collection job cancelled =>
      match job, hl with
      | .upsert points, hl => exact hl
  | read collection points cancelled store hstore hperm => exact hl
  | write collection points metadatas cancelled store hstore =>
      obtain ⟨rfl, rfl, hmine⟩ := hl
      refine ⟨rfl, rfl, ?_⟩
      have hnone : own i s.writes = [] := hmine
      subst hw
      simp only [own, List.filter_append] at hnone ⊢
      simp [hnone]
  | find collection ids cancelled store hstore hperm => exact hl.elim

theorem tracks_deliver {s s' : Shared ι} {l' : Task} {phase : Phase} {w : Write ι}
    (hl : Tracks w (own i s.writes) (.waiting phase)) (h : Delivers s phase s' l') :
    Tracks w (own i s'.writes) l' := by
  rw [(history_deliver h).2]
  cases h with
  | upsertCancelled collection points found => exact .inl hl.2.2
  | upsertMissing collection points => exact hl.2.2
  | upsertFound collection points => exact hl
  | readCancelled collection points result => exact .inl hl.2.2
  | readRaises collection points result error hraised => exact hl.2.2
  | readReturns collection points result metadatas hreturned => exact hl
  | written collection points metadatas cancelled =>
      cases cancelled with
      | true => exact .inr hl.2.2
      | false => exact .inl hl.2.2
  | _ => exact hl.elim

omit [DecidableEq ι] in
theorem tracks_cancel {mine : List (Write ι)} {phase : Phase} {w : Write ι}
    (hl : Tracks w mine (.waiting phase)) :
    Tracks w mine (cancel phase) := by
  cases phase with
  | lock collection points => exact .inl hl.2.2
  | require collection job cancelled reply =>
      match job, hl with
      | .upsert points, hl => exact hl
  | read collection points cancelled reply => exact hl
  | write collection points metadatas cancelled done => exact hl
  | find collection ids cancelled reply => exact hl.elim

theorem tracks_step {s s' : Shared ι} {l l' : Task} {act : Act} {w : Write ι} (hw : w.task = i)
    (hl : Tracks w (own i s.writes) l) (h : taskStep i s l act = some (s', l')) :
      Tracks w (own i s'.writes) l' := by
  cases taskMove_of_step h with
  | called operation => exact hl.elim
  | acquired collection points hfree => exact hl
  | performed phase order hperform => exact tracks_perform hw hl hperform
  | delivered phase hdeliver => exact tracks_deliver hl hdeliver
  | cancelled phase => exact tracks_cancel hl

omit [DecidableEq ι] in
theorem writes_task {s s' : Shared ι} {l l' : Task} {act : Act} (h : taskStep i s l act = some (s', l')) :
    ∃ rest, s'.writes = s.writes ++ rest ∧ ∀ w ∈ rest, w.task = i := by
  obtain ⟨-, hwrites⟩ | ⟨collection, points, metadatas, cancelled, store, rfl, rfl, -, -,
    hwrites⟩ := history_step h
  · exact ⟨[], by simp [hwrites], by simp⟩
  · exact ⟨_, hwrites, by simp⟩

omit [DecidableEq ι] in
theorem task_not_idle {s s' : Shared ι} {l l' : Task} {act : Act} (h : taskStep i s l act = some (s', l')) :
    l' ≠ .idle := by
  cases taskMove_of_step h with
  | called operation =>
      intro hstart
      cases operation <;> simp only [start] at hstart
      all_goals
        repeat' split at hstart
        all_goals cases hstart
  | acquired collection points hfree => simp
  | performed phase order hperform => simp
  | delivered phase hdeliver => cases hdeliver <;> simp
  | cancelled phase => cases phase <;> simp [cancel]

-- What is executed from one state to a later one, and that an ended call has no part in it.
def Later (i : ι) (p q : Client ι) : Prop :=
  ∃ rest, q.shared.writes = p.shared.writes ++ rest ∧
    ∀ outcome, p.loc i = .ended outcome → q.loc i = .ended outcome ∧ ∀ w ∈ rest, w.task ≠ i

theorem later_step {act : (ι × Act) ⊕ Mutation} (h : step p act = some q) : Later i p q := by
  cases act with
  | inl act =>
      obtain ⟨j, act⟩ := act
      obtain ⟨s, l, htask, rfl⟩ := step_task h
      obtain ⟨rest, hrest, hown⟩ := writes_task htask
      refine ⟨rest, hrest, fun outcome hended => ?_⟩
      have hne : i ≠ j := by
        rintro rfl
        rw [hended] at htask
        cases htask
      exact ⟨by rw [move_loc_ne _ _ _ hne, hended], fun w hw => (hown w hw).trans_ne hne.symm⟩
  | inr event =>
      obtain ⟨s, hs, rfl⟩ := step_env h
      obtain rfl := Option.some.inj hs
      exact ⟨[], by simp, fun outcome hended => ⟨hended, by simp⟩⟩

theorem later_reaches (h : Reaches step p q) : Later i p q := by
  have hkeep : ∀ (s : Client ι) act t, True → step s act = some t → True := fun _ _ _ _ _ => trivial
  refine h.relation hkeep trivial (fun s => ?_) (fun s t u hst htu => ?_) fun s act t _ hstep =>
    later_step hstep
  · exact ⟨[], by simp, fun outcome hended => ⟨hended, by simp⟩⟩
  · obtain ⟨first, hfirst, hended⟩ := hst
    obtain ⟨rest, hrest, hended'⟩ := htu
    refine ⟨first ++ rest, by rw [hrest, hfirst, List.append_assoc], fun outcome hs => ?_⟩
    obtain ⟨ht, hnone⟩ := hended outcome hs
    obtain ⟨hu, hnone'⟩ := hended' outcome ht
    exact ⟨hu, fun w hw => (List.mem_append.mp hw).elim (hnone w) (hnone' w)⟩

-- Only calls that have started are recorded.
def Started (p : Client ι) : Prop := ∀ w ∈ p.shared.writes, p.loc w.task ≠ .idle

theorem started_step {act : (ι × Act) ⊕ Mutation} (hp : Started p) (h : step p act = some q) :
    Started q := by
  cases act with
  | inl act =>
      obtain ⟨j, act⟩ := act
      obtain ⟨s, l, htask, rfl⟩ := step_task h
      obtain ⟨rest, hrest, hown⟩ := writes_task htask
      intro w hw
      by_cases hj : w.task = j
      · rw [hj, move_loc_self]
        exact task_not_idle htask
      · rw [move_loc_ne _ _ _ hj]
        rw [move_shared, hrest] at hw
        exact hp w ((List.mem_append.mp hw).resolve_right fun hw => hj (hown w hw))
  | inr event =>
      obtain ⟨s, hs, rfl⟩ := step_env h
      obtain rfl := Option.some.inj hs
      exact hp

theorem started_reaches {collections : String → Option Store} {heap : Nat → Items}
    (h : Reaches step (fresh collections heap) p) : Started p :=
  h.invariant (fun _ _ _ hs hstep => started_step hs hstep) fun _ hw => nomatch hw

theorem tracks_reaches {w : Write ι} (hw : w.task = i) (h : Reaches step p q)
    (hp : Tracks w (own i p.shared.writes) (p.loc i)) : Tracks w (own i q.shared.writes) (q.loc i) := by
  have hkeep : ∀ (r : Client ι) act r', Tracks w (own i r.shared.writes) (r.loc i) → step r act = some r' →
      Tracks w (own i r'.shared.writes) (r'.loc i) := by
    intro r act r' hr hstep
    cases act with
    | inl act =>
        obtain ⟨j, act⟩ := act
        obtain ⟨s, l, htask, rfl⟩ := step_task hstep
        by_cases hj : i = j
        · subst hj
          simpa using tracks_step hw hr htask
        · obtain ⟨rest, hrest, hown⟩ := writes_task htask
          have hnone : own i rest = [] := own_eq_nil.mpr fun w' hw' => (hown w' hw').trans_ne (Ne.symm hj)
          rw [move_loc_ne _ _ _ hj, move_shared, hrest, own_append, hnone, List.append_nil]
          exact hr
    | inr event =>
        obtain ⟨s, hs, rfl⟩ := step_env hstep
        obtain rfl := Option.some.inj hs
        exact hr
  exact h.invariant hkeep hp

-- What a get may end with, at a state `m` between its call and its end.
def Observed (m : Client ι) (collection : String) (ids : List String) (outcome : Outcome) : Prop :=
  match m.shared.collections collection with
  | none => outcome = .raised (notFound collection)
  | some store => Reads store ids outcome

-- How far a get has come: an answer belongs to a state since its call.
def Watches (q : Client ι) (collection : String) (ids : List String) (r : Client ι) : Task → Prop
  | .waiting (.require target (.get wanted) _ reply) =>
      target = collection ∧ wanted = ids ∧ (reply = some false → ∃ m, Reaches step q m ∧ Reaches step m r ∧
        m.shared.collections collection = none)
  | .waiting (.find target wanted _ reply) =>
      target = collection ∧ wanted = ids ∧ ∀ result, reply = some result →
        ∃ m store order, Reaches step q m ∧
        Reaches step m r ∧ m.shared.collections collection = some store ∧
        order.isPerm (ids.filter fun id => (store id).isSome) ∧ result = answer store order
  | .ended outcome =>
      outcome = .cancelled ∨ (∃ error, outcome = .raised error ∧
        (validateCollectionName collection = .error error ∨ validateIds ids = .error error)) ∨
      ids = [] ∧ outcome = .found [] ∨
      ∃ m, Reaches step q m ∧ Reaches step m r ∧ Observed m collection ids outcome
  | _ => False

theorem watches_mono {q r r' : Client ι} {collection : String} {ids : List String} {l : Task}
    (hl : Watches q collection ids r l) (h : Reaches step r r') : Watches q collection ids r' l := by
  unfold Watches at hl
  split at hl
  · obtain ⟨htarget, hwanted, hreply⟩ := hl
    refine ⟨htarget, hwanted, fun hfalse => ?_⟩
    obtain ⟨m, hm, hr, hnone⟩ := hreply hfalse
    exact ⟨m, hm, hr.trans h, hnone⟩
  · obtain ⟨htarget, hwanted, hreply⟩ := hl
    refine ⟨htarget, hwanted, fun result hresult => ?_⟩
    obtain ⟨m, store, order, hm, hr, hrest⟩ := hreply result hresult
    exact ⟨m, store, order, hm, hr.trans h, hrest⟩
  · obtain hcancelled | herror | hempty | ⟨m, hm, hr, hobserved⟩ := hl
    · exact .inl hcancelled
    · exact .inr (.inl herror)
    · exact .inr (.inr (.inl hempty))
    · exact .inr (.inr (.inr ⟨m, hm, hr.trans h, hobserved⟩))
  · exact hl.elim

theorem watches_start {q r : Client ι} {s : Shared ι} {collection : String} {ids : List String} :
    Watches q collection ids r (start s (.get collection ids)) := by
  simp only [start]
  split
  · exact .inr (.inl ⟨_, rfl, .inl ‹_›⟩)
  · exact .inr (.inl ⟨_, rfl, .inr ‹_›⟩)
  · split
    · exact .inr (.inr (.inl ⟨‹_›, rfl⟩))
    · exact ⟨rfl, rfl, fun h => nomatch h⟩

-- `r` is the state in which the call takes its step.
theorem watches_perform {q r : Client ι} {s' : Shared ι} {collection : String} {ids order : List String}
    {phase next : Phase} (hqr : Reaches step q r) (hl : Watches q collection ids r (.waiting phase))
    (h : Performs i r.shared order phase s' next) : Watches q collection ids r (.waiting next) := by
  cases h with
  | require target job cancelled =>
      match job, hl with
      | .get wanted, hl =>
          obtain ⟨rfl, rfl, -⟩ := hl
          refine ⟨rfl, rfl, fun hfalse => ⟨r, hqr, .refl, ?_⟩⟩
          simpa using hfalse
  | find target wanted cancelled store hstore hperm =>
      obtain ⟨rfl, rfl, -⟩ := hl
      exact ⟨rfl, rfl, fun result hresult =>
        ⟨r, store, order, hqr, .refl, hstore, hperm, (Option.some.inj hresult).symm⟩⟩
  | _ => exact hl.elim

-- The outcome of a `get` whose ids have been read is what the store had at that moment.
theorem watches_read {q r : Client ι} {collection : String} {ids : List String} {result : Reply}
    (hl : Watches q collection ids r (.waiting (.find collection ids false (some result))))
    {outcome : Outcome} (houtcome : (match chromaPoints result with
      | .error error => .raised error
      | .ok points => .found (inOrder ids points)) = outcome) :
    Watches q collection ids r (.ended outcome) := by
  obtain ⟨-, -, hreply⟩ := hl
  obtain ⟨m, store, order, hm, hr, hstore, hperm, rfl⟩ := hreply result rfl
  have hreads := reads_found hperm
  rw [← houtcome]
  cases hpoints : chromaPoints (answer store order) with
  | error error =>
      rw [hpoints] at hreads
      exact .inr (.inr (.inr ⟨m, hm, hr, by simpa [Observed, hstore] using hreads⟩))
  | ok points =>
      rw [hpoints] at hreads
      exact .inr (.inr (.inr ⟨m, hm, hr, by simpa [Observed, hstore] using hreads⟩))

theorem watches_deliver {q r : Client ι} {s s' : Shared ι} {l' : Task} {collection : String}
    {ids : List String} {phase : Phase} (hl : Watches q collection ids r (.waiting phase))
    (h : Delivers s phase s' l') : Watches q collection ids r l' := by
  cases h with
  | getCancelled target wanted found => exact .inl rfl
  | getMissing target wanted =>
      obtain ⟨rfl, rfl, hreply⟩ := hl
      obtain ⟨m, hm, hr, hnone⟩ := hreply rfl
      exact .inr (.inr (.inr ⟨m, hm, hr, by simp [Observed, hnone]⟩))
  | getFound target wanted => exact ⟨hl.1, hl.2.1, fun _ hresult => nomatch hresult⟩
  | findCancelled target wanted result => exact .inl rfl
  | findRaises target wanted result error hraised =>
      obtain ⟨rfl, rfl, hreply⟩ := hl
      exact watches_read ⟨rfl, rfl, hreply⟩ (by rw [hraised])
  | findReturns target wanted result points hreturned =>
      obtain ⟨rfl, rfl, hreply⟩ := hl
      exact watches_read ⟨rfl, rfl, hreply⟩ (by rw [hreturned])
  | _ => exact hl.elim

theorem watches_task {q r : Client ι} {s' : Shared ι} {l' : Task} {act : Act} {collection : String}
    {ids : List String} (hqr : Reaches step q r) (hl : Watches q collection ids r (r.loc i))
    (h : taskStep i r.shared (r.loc i) act = some (s', l')) : Watches q collection ids r l' := by
  generalize r.loc i = l at hl h
  cases taskMove_of_step h with
  | called operation => exact hl.elim
  | acquired collection points hfree => exact hl.elim
  | performed phase order hperform => exact watches_perform hqr hl hperform
  | delivered phase hdeliver => exact watches_deliver hl hdeliver
  | cancelled phase =>
      cases phase with
      | lock collection points => exact hl.elim
      | require collection job cancelled reply =>
          match job, hl with
          | .get wanted, hl => exact hl
      | read collection points cancelled reply => exact hl.elim
      | write collection points metadatas cancelled done => exact hl.elim
      | find collection ids cancelled reply => exact hl

theorem watches_reaches {q r : Client ι} {collection : String} {ids : List String} (h : Reaches step q r)
    (hq : Watches q collection ids q (q.loc i) ∧ own i q.shared.writes = []) :
    Watches q collection ids r (r.loc i) ∧ own i r.shared.writes = [] := by
  have hkeep : ∀ (r : Client ι) act r',
      Reaches step q r ∧ Watches q collection ids r (r.loc i) ∧ own i r.shared.writes = [] →
        step r act = some r' →
      Reaches step q r' ∧ Watches q collection ids r' (r'.loc i) ∧ own i r'.shared.writes = [] := by
    rintro r act r' ⟨hqr, hwatches, hnone⟩ hstep
    have hnext : Reaches step r r' := .single hstep
    refine ⟨hqr.trans hnext, ?_⟩
    cases act with
    | inl act =>
        obtain ⟨j, act⟩ := act
        obtain ⟨s, l, htask, rfl⟩ := step_task hstep
        by_cases hj : i = j
        · subst hj
          rw [move_loc_self, move_shared]
          refine ⟨watches_mono (watches_task hqr hwatches htask) hnext, ?_⟩
          obtain ⟨-, hwrites⟩ | ⟨_, _, _, _, _, hwrite, -⟩ := history_step htask
          · rw [hwrites, hnone]
          · rw [hwrite] at hwatches
            exact hwatches.elim
        · rw [move_loc_ne _ _ _ hj, move_shared]
          obtain ⟨rest, hrest, hown⟩ := writes_task htask
          have hother : own i rest = [] := own_eq_nil.mpr fun w hw => (hown w hw).trans_ne (Ne.symm hj)
          exact ⟨watches_mono hwatches hnext, by rw [hrest, own_append, hnone, hother, List.append_nil]⟩
    | inr event =>
        obtain ⟨s, hs, rfl⟩ := step_env hstep
        obtain rfl := Option.some.inj hs
        exact ⟨watches_mono hwatches hnext, hnone⟩
  exact (h.invariant hkeep ⟨.refl, hq⟩).2

-- What the history has of an upsert that has ended: all of it, nothing, or either if it was cancelled.
def Executed (w : Write ι) (mine : List (Write ι)) : Outcome → Prop
  | .upserted => mine = [w] ∨ w.points = [] ∧ mine = []
  | .raised _ => mine = []
  | .cancelled => mine = [] ∨ mine = [w]
  | .found _ => False

-- The contents are those of the executed upserts, one after the other as plain overwrites.
def Serial (base : Contents) (p : Client ι) : Prop :=
  p.shared.contents = p.shared.writes.foldl Write.apply base

theorem serial_reaches {collections : String → Option Store} {heap : Nat → Items}
    (h : Reaches step (fresh collections heap) p) :
      Serial (fun name => (collections name).map Store.points) p :=
  ((discipline _).inv_reaches h ⟨rfl, fun _ => ⟨fun h => h.elim, trivial⟩⟩).1

-- What a get may end with: a cancellation, the refusal of its arguments, nothing for no ids, or what
-- it observes in a state since its call.
def Answered (base : Contents) (p q r : Client ι) (collection : String) (ids : List String)
    (outcome : Outcome) : Prop :=
  outcome = .cancelled ∨
  (∃ error, outcome = .raised error ∧
    (validateCollectionName collection = .error error ∨ validateIds ids = .error error)) ∨
  ids = [] ∧ outcome = .found [] ∨
  ∃ m, Reaches step q m ∧ Reaches step m r ∧ Serial base m ∧ p.shared.writes <+: m.shared.writes ∧
    m.shared.writes <+: r.shared.writes ∧ Observed m collection ids outcome

-- A call that is made in `p` and has ended in `r` is executed between the two, and not again.
theorem upserts_serialize {collections : String → Option Store} {heap : Nat → Items}
    {p q r r' : Client ι} {i : ι}
    {operation : Operation} {outcome : Outcome} (hp : Reaches step (fresh collections heap) p)
    (hcall : step p (.inl (i, .call operation)) = some q) (hr : Reaches step q r)
    (hended : r.loc i = .ended outcome) (hr' : Reaches step r r') :
    Serial (fun name => (collections name).map Store.points) r' ∧ Started r' ∧
    ∃ during after, r.shared.writes = p.shared.writes ++ during ∧
      r'.shared.writes = r.shared.writes ++ after ∧
      (∀ w ∈ p.shared.writes ++ after, w.task ≠ i) ∧
      match operation with
      | .upsert collection args =>
          Executed ⟨i, collection, args.map (PointArg.read p.shared.heap)⟩ (own i during) outcome
      | .get collection ids =>
          own i during = [] ∧
          Answered (fun name => (collections name).map Store.points) p q r collection ids outcome := by
  have hpq : Reaches step p q := .single hcall
  have hpr : Reaches step p r := hpq.trans hr
  have hall : Reaches step (fresh collections heap) r' := (hp.trans hpr).trans hr'
  obtain ⟨s, l, htask, rfl⟩ := step_task hcall
  obtain ⟨hidle, rfl, rfl⟩ := call_task htask
  -- nothing of the call is executed before it is made, and nothing after it has ended
  have hbefore : ∀ w ∈ p.shared.writes, w.task ≠ i := fun w hw hwi => started_reaches hp w hw (hwi ▸ hidle)
  have hnone : own i p.shared.writes = [] := own_eq_nil.mpr hbefore
  obtain ⟨during, hduring, -⟩ := later_reaches (i := i) hpr
  obtain ⟨after, hafter, hend⟩ := later_reaches (i := i) hr'
  have hmine : own i r.shared.writes = own i during := by rw [hduring, own_append, hnone, List.nil_append]
  refine ⟨serial_reaches hall, started_reaches hall, during, after, hduring, hafter, fun w hw => ?_, ?_⟩
  · exact (List.mem_append.mp hw).elim (hbefore w) ((hend outcome hended).2 w)
  · cases operation with
    | upsert collection args =>
        have hstart : Tracks ⟨i, collection, args.map (PointArg.read p.shared.heap)⟩ (own i p.shared.writes)
            (start p.shared (.upsert collection args)) := tracks_start hnone
        rw [← move_loc_self p i p.shared (start p.shared (.upsert collection args))] at hstart
        have htracks := tracks_reaches rfl hr hstart
        rw [hended, hmine] at htracks
        cases outcome <;> exact htracks
    | get collection ids =>
        obtain ⟨hwatches, hempty⟩ := watches_reaches hr ⟨by simpa using watches_start, hnone⟩
        rw [hended] at hwatches
        refine ⟨hmine ▸ hempty, ?_⟩
        obtain hcancelled | herror | hids | ⟨m, hqm, hmr, hobserved⟩ := hwatches
        · exact .inl hcancelled
        · exact .inr (.inl herror)
        · exact .inr (.inr (.inl hids))
        · obtain ⟨first, hfirst, -⟩ := later_reaches (i := i) (hpq.trans hqm)
          obtain ⟨rest, hrest, -⟩ := later_reaches (i := i) hmr
          exact .inr (.inr (.inr ⟨m, hqm, hmr, serial_reaches ((hp.trans hpq).trans hqm),
            ⟨first, hfirst.symm⟩,
            ⟨rest, hrest.symm⟩, hobserved⟩))

end Serial

section Histories

-- A record that another program has written: its key is not one of the public interface.
def foreign : Record where
  embedding := [.finite false 0 representable_zero]
  metadata := [("my-key", .bool true)]

def docs (record : Record) : String → Option Store :=
  fun name => if name = "docs" then some fun id => if id = "a" then some record else none else none

def actsOf (i : Nat) (acts : List Act) : List ((Nat × Act) ⊕ Mutation) := acts.map fun act => .inl (i, act)

-- A get of a record that is not a valid point raises.
theorem get_refuses_foreign_record : ¬ ∀ (collections : String → Option Store) (heap : Nat → Items)
    (p q r : Client Nat) (i : Nat) (collection : String) (ids : List String) (outcome : Outcome),
    Reaches step (fresh collections heap) p → step p (.inl (i, .call (.get collection ids))) = some q →
    Reaches step q r → r.loc i = .ended outcome → outcome ≠ .cancelled →
    validateCollectionName collection = .ok () → validateIds ids = .ok () →
      (collections collection).isSome →
    ∃ m store, Reaches step q m ∧ Reaches step m r ∧ m.shared.collections collection = some store ∧
      outcome = .found (ids.filterMap (stored store)) := by
  intro h
  obtain ⟨q, r, text, hcall, hr, hended⟩ : ∃ q r text,
      step (fresh (docs foreign) fun _ => []) (.inl (0, .call (.get "docs" ["a"]))) = some q ∧
      Reaches step q r ∧ r.loc 0 = .ended (.raised (.configuration text)) :=
    ⟨_, _, _, rfl, ⟨actsOf 0 [.perform [], .deliver, .perform ["a"], .deliver], rfl⟩, rfl⟩
  obtain ⟨m, store, -, -, -, houtcome⟩ := h _ _ _ q r 0 "docs" ["a"] _ .refl hcall hr hended
    (fun hcancelled => nomatch hcancelled) rfl rfl rfl
  cases houtcome

def older : Record where
  embedding := [.finite false 0 representable_zero]
  metadata := [("old", .str "secret"), (recordKey, .bool true)]

def guide : PointArg where
  id := "a"
  vector := [.finite false 1 representable_one]
  metadata := 0

-- An upsert of a point that exists; the caller empties the mapping after the call.
theorem upserts_serialize_mapping_emptied : ∃ r : Client Nat, r.loc 0 = .ended .upserted ∧
    Serial (fun name => (docs older name).map Store.points) r ∧ ∃ during, r.shared.writes = during ∧
      Executed ⟨0, "docs", [⟨"a", guide.vector, [("kind", .str "guide")]⟩]⟩ (own 0 during) .upserted := by
  obtain ⟨q, r, hcall, hr, hended⟩ : ∃ q r : Client Nat,
      step (fresh (docs older) fun _ => [("kind", .str "guide")])
        (.inl (0, .call (.upsert "docs" [guide]))) = some q ∧
      Reaches step q r ∧ r.loc 0 = .ended .upserted :=
    ⟨_, _, rfl, ⟨.inr ⟨0, []⟩ :: actsOf 0 [.acquire, .perform [], .deliver, .perform ["a"],
      .deliver, .perform [],
      .deliver], rfl⟩, rfl⟩
  obtain ⟨hserial, -, during, after, hduring, -, -, hexecuted⟩ :=
    upserts_serialize .refl hcall hr hended .refl
  exact ⟨r, hended, hserial, during, hduring, hexecuted⟩

end Histories

end Scaffold.Vector.Chroma
