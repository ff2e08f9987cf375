import Mathlib.Data.List.Nodup
import Scaffold.Vector.Dynamic

namespace Scaffold.Vector.Dynamic

open Python Raising

-- A check that returns for the valid values, and raises another error than the one of the
-- package for the faults.
structure Checks {α : Type} (check : α → Except ValidationError Unit) (valid fault : α → Prop) : Prop where
  ok : ∀ x, check x = .ok () ↔ valid x
  other : ∀ x, (∃ error, check x = .error error ∧ error.isConfiguration = false) ↔ fault x

section Rules

variable {α : Type} {check next : α → Except ValidationError Unit} {valid fault valid' fault' : α → Prop}

theorem Checks.portable_iff (h : Checks check valid fault) (x : α) : Portable (check x) (valid x) ↔
    ¬ fault x := by
  rw [← h.other x]
  constructor
  · rintro ⟨hall, -⟩ ⟨error, herror, hother⟩
    rw [hall error herror] at hother
    cases hother
  · intro hnone
    refine ⟨fun error herror => ?_, h.ok x⟩
    by_contra hother
    exact hnone ⟨error, herror, by simpa using hother⟩

-- A check that raises one error only.
theorem Checks.of_plain (hok : ∀ x, check x = .ok () ↔ valid x)
    (hplain : ∀ x error, check x = .error error → error.isConfiguration = true) :
    Checks check valid fun _ => False := by
  refine ⟨hok, fun x => ⟨?_, False.elim⟩⟩
  rintro ⟨error, herror, hother⟩
  rw [hplain x error herror] at hother
  cases hother

theorem Checks.andThen (h : Checks check valid fault) (h' : Checks next valid' fault') :
    Checks (fun x => check x >>= fun _ => next x) (fun x => valid x ∧ valid' x)
      (fun x => fault x ∨ valid x ∧ fault' x) := by
  constructor
  · intro x
    rw [← h.ok, ← h'.ok]
    constructor
    · intro hx
      obtain ⟨_, hcheck, hnext⟩ := bind_ok hx
      exact ⟨hcheck, hnext⟩
    · rintro ⟨hcheck, hnext⟩
      rw [hcheck]
      exact hnext
  · intro x
    rw [← h.ok, ← h.other, ← h'.other]
    constructor
    · rintro ⟨error, herror, hother⟩
      obtain hcheck | ⟨_, hcheck, hnext⟩ := bind_error herror
      · exact .inl ⟨error, hcheck, hother⟩
      · exact .inr ⟨hcheck, error, hnext, hother⟩
    · rintro (⟨error, herror, hother⟩ | ⟨hcheck, error, herror, hother⟩)
      · exact ⟨error, by rw [herror]; rfl, hother⟩
      · exact ⟨error, by rw [hcheck]; exact herror, hother⟩

theorem Checks.comap {β : Type} (h : Checks check valid fault) (g : β → α) :
    Checks (fun y => check (g y)) (fun y => valid (g y)) fun y => fault (g y) :=
  ⟨fun y => h.ok (g y), fun y => h.other (g y)⟩

theorem Checks.congr (h : Checks check valid fault) (hvalid : ∀ x, valid x ↔ valid' x)
    (hfault : ∀ x, fault x ↔ fault' x) :
    Checks check valid' fault' :=
  ⟨fun x => (h.ok x).trans (hvalid x), fun x => (h.other x).trans (hfault x)⟩

theorem Checks.forM (h : Checks check valid fault) :
    Checks (fun items : List α => items.forM check) (fun items => ∀ x ∈ items, valid x)
      (FirstFault valid fault) := by
  constructor
  · intro items
    rw [forM_eq_ok]
    exact forall_congr' fun x => imp_congr_right fun _ => h.ok x
  · intro items
    constructor
    · rintro ⟨error, herror, hother⟩
      obtain ⟨before, x, after, hsplit, hbefore, hx⟩ := forM_eq_error.mp herror
      exact ⟨before, x, after, hsplit, fun y hy => (h.ok y).mp (hbefore y hy),
        (h.other x).mp ⟨error, hx, hother⟩⟩
    · rintro ⟨before, x, after, hsplit, hbefore, hx⟩
      obtain ⟨error, herror, hother⟩ := (h.other x).mpr hx
      exact ⟨error,
        forM_eq_error.mpr ⟨before, x, after, hsplit, fun y hy => (h.ok y).mpr (hbefore y hy), herror⟩,
        hother⟩

end Rules

section Fields

theorem encodePoint_ne_nil (c : CodePoint) : encodePoint c ≠ [] := by
  unfold encodePoint
  dsimp only
  split_ifs <;> exact List.cons_ne_nil _ _

theorem encodeUtf8_length_pos {text : Text} {bytes : List UInt8} (h : encodeUtf8 text = some bytes) :
    1 ≤ bytes.length ↔ text ≠ [] := by
  obtain ⟨-, rfl⟩ := encodeUtf8_eq_some.mp h
  cases text with
  | nil => simp
  | cons c text =>
      have hc := List.length_pos_iff.mpr (encodePoint_ne_nil c)
      rw [List.flatMap_cons, List.length_append]
      simp only [ne_eq, reduceCtorEq, not_false_eq_true, iff_true]
      omega

theorem checks_pointId : Checks validatePointId ValidId SurrogateId := by
  constructor
  · intro id
    constructor
    · intro h
      unfold validatePointId at h
      split at h
      · rename_i text
        split_ifs at h with hempty
        split at h
        · cases h
        · rename_i bytes hbytes
          split_ifs at h with hlong
          exact ⟨text, bytes, rfl, hbytes, (encodeUtf8_length_pos hbytes).mpr hempty, by omega⟩
      · cases h
    · rintro ⟨text, bytes, rfl, hbytes, hpos, hlong⟩
      have hne := (encodeUtf8_length_pos hbytes).mp hpos
      simp only [validatePointId, hbytes, hne, if_false]
      exact if_neg (by omega)
  · intro id
    constructor
    · rintro ⟨error, herror, hother⟩
      unfold validatePointId at herror
      split at herror
      · rename_i text
        split_ifs at herror with hempty
        · obtain rfl := Except.error.inj herror
          cases hother
        · split at herror
          · rename_i hnone
            exact ⟨text, rfl, encodeUtf8_eq_none.mp hnone⟩
          · split_ifs at herror
            obtain rfl := Except.error.inj herror
            cases hother
      · obtain rfl := Except.error.inj herror
        cases hother
    · rintro ⟨text, rfl, c, hc, hs⟩
      have hnone := encodeUtf8_eq_none.mpr ⟨c, hc, hs⟩
      have hne : text ≠ [] := List.ne_nil_of_mem hc
      exact ⟨.unicodeEncode, by simp only [validatePointId, hnone, hne, if_false], rfl⟩

theorem checks_component : Checks validateComponent ValidComponent OversizedComponent := by
  constructor
  · intro value
    constructor
    · intro h
      unfold validateComponent at h
      split at h
      · rename_i n
        split_ifs at h with hfits
        exact .inl ⟨n, rfl, hfits⟩
      · rename_i x
        split_ifs at h with hfinite
        exact .inr ⟨x, rfl, hfinite⟩
      · cases h
    · rintro (⟨n, rfl, hfits⟩ | ⟨x, rfl, hfinite⟩)
      · simp only [validateComponent, hfits, if_true]
      · simp only [validateComponent, hfinite, if_true]
  · intro value
    constructor
    · rintro ⟨error, herror, hother⟩
      unfold validateComponent at herror
      split at herror
      · rename_i n
        split_ifs at herror with hfits
        exact ⟨n, rfl, by simpa using hfits⟩
      · split_ifs at herror
        obtain rfl := Except.error.inj herror
        cases hother
      · obtain rfl := Except.error.inj herror
        cases hother
    · rintro ⟨n, rfl, hfits⟩
      exact ⟨.overflow, by simp only [validateComponent, hfits, Bool.false_eq_true, if_false], rfl⟩

theorem checks_vector : Checks validateVector ValidVector OversizedVector := by
  have hitems := checks_component.forM
  constructor
  · intro vector
    constructor
    · intro h
      unfold validateVector at h
      split at h
      · rename_i items
        split_ifs at h with hempty
        exact ⟨items, rfl, fun heq => hempty (by rw [heq]; rfl), (hitems.ok items).mp h⟩
      · cases h
    · rintro ⟨items, rfl, hne, hall⟩
      have hempty : items.isEmpty = false := by simpa using hne
      simp only [validateVector, hempty, Bool.false_eq_true, if_false]
      exact (hitems.ok items).mpr hall
  · intro vector
    constructor
    · rintro ⟨error, herror, hother⟩
      unfold validateVector at herror
      split at herror
      · rename_i items
        split_ifs at herror with hempty
        · obtain rfl := Except.error.inj herror
          cases hother
        · exact ⟨items, rfl, (hitems.other items).mp ⟨error, herror, hother⟩⟩
      · obtain rfl := Except.error.inj herror
        cases hother
    · rintro ⟨items, rfl, hfault⟩
      have hempty : items.isEmpty = false := by
        obtain ⟨before, x, after, rfl, -⟩ := hfault
        cases before <;> rfl
      simp only [validateVector, hempty, Bool.false_eq_true, if_false]
      exact (hitems.other items).mpr hfault

theorem matchesKey_iff {key : Text} : matchesKey key = true ↔
    ∃ first rest, key = first :: rest ∧ isKeyStart first = true ∧ ∀ c ∈ rest, isKeyChar c = true := by
  unfold matchesKey
  split
  · simp
  · rename_i first rest
    rw [Bool.and_eq_true, List.all_eq_true]
    constructor
    · rintro ⟨hfirst, hrest⟩
      exact ⟨first, rest, rfl, hfirst, hrest⟩
    · rintro ⟨_, _, heq, hfirst, hrest⟩
      obtain ⟨rfl, rfl⟩ := List.cons.inj heq
      exact ⟨hfirst, hrest⟩

theorem validateValue_ok {key : Text} {value : PyValue} : validateValue key value = .ok () ↔
    ValidScalar value := by
  unfold ValidScalar
  cases value with
  | float x => simp [validateValue]
  | int n => simp [validateValue]
  | _ => simp [validateValue]

theorem validateValue_error {key : Text} {value : PyValue} {error : ValidationError}
    (h : validateValue key value = .error error) : error.isConfiguration = true := by
  unfold validateValue at h
  split at h
  · cases h
  · cases h
  · split_ifs at h
    obtain rfl := Except.error.inj h
    rfl
  · split_ifs at h
    obtain rfl := Except.error.inj h
    rfl
  · obtain rfl := Except.error.inj h
    rfl

theorem checks_item :
    Checks validateItem (fun item => ValidKey item.1 ∧ ValidScalar item.2) fun _ => False := by
  refine .of_plain ?_ ?_
  · rintro ⟨key, value⟩
    constructor
    · intro h
      unfold validateItem at h
      split at h
      · rename_i text value heq
        obtain ⟨rfl, rfl⟩ := Prod.mk.inj heq
        split_ifs at h with hkey hreserved
        simp only [not_or, not_not, Nat.not_lt] at hkey
        obtain ⟨first, rest, rfl, hfirst, hrest⟩ := matchesKey_iff.mp hkey.2
        have hlength := hkey.1
        rw [List.length_cons] at hlength
        exact ⟨⟨first, rest, rfl, hfirst, hrest, by omega, hreserved⟩, validateValue_ok.mp h⟩
      · cases h
    · rintro ⟨⟨first, rest, rfl, hfirst, hrest, hlength, hreserved⟩, hvalue⟩
      have hkey : ¬ (128 < (first :: rest).length ∨ ¬ matchesKey (first :: rest) = true) := by
        rw [not_or, not_not]
        exact ⟨by rw [List.length_cons]; omega, matchesKey_iff.mpr ⟨first, rest, rfl, hfirst, hrest⟩⟩
      simp only [validateItem, if_neg hkey, if_neg hreserved]
      exact validateValue_ok.mpr hvalue
  · rintro ⟨key, value⟩ error h
    unfold validateItem at h
    split at h
    · split_ifs at h
      · obtain rfl := Except.error.inj h
        rfl
      · obtain rfl := Except.error.inj h
        rfl
      · exact validateValue_error h
    · obtain rfl := Except.error.inj h
      rfl

theorem checks_metadata : Checks validateMetadata ValidMetadata fun _ => False := by
  have hitems := checks_item.forM
  refine .of_plain ?_ ?_
  · intro metadata
    constructor
    · intro h
      unfold validateMetadata at h
      split at h
      · rename_i items
        exact ⟨items, rfl, (hitems.ok items).mp h⟩
      · cases h
    · rintro ⟨items, rfl, hall⟩
      exact (hitems.ok items).mpr hall
  · intro metadata error h
    unfold validateMetadata at h
    split at h
    · rename_i items
      by_contra hother
      obtain ⟨_, _, _, _, _, hfault⟩ := (hitems.other items).mp ⟨error, h, by simpa using hother⟩
      exact hfault
    · obtain rfl := Except.error.inj h
      rfl

end Fields

theorem checks_point : Checks validatePoint ValidPoint FaultyPoint := by
  have hall := (checks_pointId.comap Point.id).andThen
    ((checks_vector.comap Point.vector).andThen (checks_metadata.comap Point.metadata))
  refine hall.congr (fun point => ?_) fun point => ?_
  · exact ⟨fun ⟨hid, hvector, hmetadata⟩ => ⟨hid, hvector, hmetadata⟩,
      fun h => ⟨h.id, h.vector, h.metadata⟩⟩
  · unfold FaultyPoint
    simp only [and_false, or_false]

theorem checks_batchItem : Checks validateBatchItem ValidItem FaultyItem := by
  constructor
  · rintro (point | value)
    · refine (checks_point.ok point).trans ⟨fun h => ⟨point, rfl, h⟩, ?_⟩
      rintro ⟨_, heq, h⟩
      exact Sum.inl.inj heq ▸ h
    · exact ⟨nofun, nofun⟩
  · rintro (point | value)
    · refine (checks_point.other point).trans ⟨fun h => ⟨point, rfl, h⟩, ?_⟩
      rintro ⟨_, heq, h⟩
      exact Sum.inl.inj heq ▸ h
    · constructor
      · rintro ⟨error, herror, hother⟩
        obtain rfl := Except.error.inj herror
        cases hother
      · exact nofun

section Batches

-- Strings are different values exactly when they are different texts.
theorem idTexts_nodup {ids : List PyValue} (h : ∀ id ∈ ids, ValidId id) :
    (ids.filterMap idText).Nodup ↔ ids.Pairwise (· ≠ ·) := by
  induction ids with
  | nil => simp
  | cons id ids ih =>
      obtain ⟨text, bytes, rfl, -⟩ := h id List.mem_cons_self
      have hrest : ∀ id ∈ ids, ValidId id := fun id hid => h id (List.mem_cons_of_mem _ hid)
      have hmem : text ∈ ids.filterMap idText ↔ PyValue.str text ∈ ids := by
        rw [List.mem_filterMap]
        constructor
        · rintro ⟨id, hid, htext⟩
          obtain ⟨other, _, rfl, -⟩ := hrest id hid
          obtain rfl := Option.some.inj htext
          exact hid
        · intro hid
          exact ⟨_, hid, rfl⟩
      have hcons : (PyValue.str text :: ids).filterMap idText = text :: ids.filterMap idText := rfl
      rw [hcons, List.nodup_cons, List.pairwise_cons, ih hrest, hmem]
      refine and_congr_left fun _ =>
        ⟨fun hnot id hid heq => hnot (heq ▸ hid), fun hall hid => hall _ hid rfl⟩

theorem validateUniqueIds_ok {ids : List PyValue} (h : ∀ id ∈ ids, ValidId id) :
    validateUniqueIds ids = .ok () ↔ ids.Pairwise (· ≠ ·) := by
  rw [← idTexts_nodup h]
  unfold validateUniqueIds
  split_ifs with hnodup
  · exact ⟨fun _ => hnodup, fun _ => rfl⟩
  · exact ⟨nofun, fun h => absurd h hnodup⟩

theorem validateUniqueIds_error {ids : List PyValue} {error : ValidationError}
    (h : validateUniqueIds ids = .error error) : error.isConfiguration = true := by
  unfold validateUniqueIds at h
  split_ifs at h
  obtain rfl := Except.error.inj h
  rfl

-- A loop over the items of a batch, and the check that their ids are distinct.
theorem checks_unique {α : Type} {check : α → Except ValidationError Unit} {valid fault : α → Prop}
    (h : Checks check valid fault) (ids : List α → List PyValue)
    (hids : ∀ items, (∀ x ∈ items, valid x) → ∀ id ∈ ids items, ValidId id) (items : List α) :
    ((items.forM check >>= fun _ => validateUniqueIds (ids items)) = .ok () ↔
      (∀ x ∈ items, valid x) ∧ (ids items).Pairwise (· ≠ ·)) ∧
    ((∃ error, (items.forM check >>= fun _ => validateUniqueIds (ids items)) = .error error ∧
      error.isConfiguration = false) ↔ FirstFault valid fault items) := by
  constructor
  · constructor
    · intro hrun
      obtain ⟨_, hloop, hunique⟩ := bind_ok hrun
      have hvalid := (h.forM.ok items).mp hloop
      exact ⟨hvalid, (validateUniqueIds_ok (hids items hvalid)).mp hunique⟩
    · rintro ⟨hvalid, hdistinct⟩
      rw [(h.forM.ok items).mpr hvalid]
      exact (validateUniqueIds_ok (hids items hvalid)).mpr hdistinct
  · rw [← h.forM.other items]
    constructor
    · rintro ⟨error, herror, hother⟩
      obtain hloop | ⟨_, -, hunique⟩ := bind_error herror
      · exact ⟨error, hloop, hother⟩
      · rw [validateUniqueIds_error hunique] at hother
        cases hother
    · rintro ⟨error, herror, hother⟩
      exact ⟨error, by rw [herror]; rfl, hother⟩

theorem checks_points : Checks validatePoints ValidBatch FaultyBatch := by
  have hids : ∀ items : List BatchItem, (∀ x ∈ items, ValidItem x) →
    ∀ id ∈ items.filterMap itemId, ValidId id := by
    intro items hvalid id hid
    obtain ⟨item, hitem, hsome⟩ := List.mem_filterMap.mp hid
    obtain ⟨point, rfl, hpoint⟩ := hvalid item hitem
    obtain rfl := Option.some.inj hsome
    exact hpoint.id
  constructor
  · rintro (_ | items)
    · exact ⟨nofun, nofun⟩
    · refine (checks_unique checks_batchItem _ hids items).1.trans ?_
      refine ⟨fun ⟨hvalid, hdistinct⟩ => ⟨items, rfl, hvalid, hdistinct⟩, ?_⟩
      rintro ⟨_, heq, hvalid, hdistinct⟩
      obtain rfl := Option.some.inj heq
      exact ⟨hvalid, hdistinct⟩
  · rintro (_ | items)
    · constructor
      · rintro ⟨error, herror, hother⟩
        obtain rfl := Except.error.inj herror
        cases hother
      · exact nofun
    · refine (checks_unique checks_batchItem _ hids items).2.trans ⟨fun h => ⟨items, rfl, h⟩, ?_⟩
      rintro ⟨_, heq, h⟩
      exact Option.some.inj heq ▸ h

theorem checks_ids : Checks validateIds ValidIds FaultyIds := by
  have hunique := checks_unique checks_pointId id fun _ hvalid => hvalid
  constructor
  · intro ids
    constructor
    · intro h
      unfold validateIds at h
      split at h
      · rename_i items
        exact ⟨items, rfl, (hunique items).1.mp h⟩
      · cases h
    · rintro ⟨items, rfl, hvalid, hdistinct⟩
      exact (hunique items).1.mpr ⟨hvalid, hdistinct⟩
  · intro ids
    constructor
    · rintro ⟨error, herror, hother⟩
      unfold validateIds at herror
      split at herror
      · rename_i items
        exact ⟨items, rfl, (hunique items).2.mp ⟨error, herror, hother⟩⟩
      · obtain rfl := Except.error.inj herror
        cases hother
    · rintro ⟨items, rfl, hfault⟩
      exact (hunique items).2.mpr hfault

end Batches

theorem vector_validation_iff (point : Point) (points : Option (List BatchItem)) (ids vector : PyValue) :
    (Portable (validatePoint point) (ValidPoint point) ↔ ¬ FaultyPoint point) ∧
    (Portable (validatePoints points) (ValidBatch points) ↔ ¬ FaultyBatch points) ∧
    (Portable (validateIds ids) (ValidIds ids) ↔ ¬ FaultyIds ids) ∧
    (Portable (validateQueryVector vector) (ValidVector vector) ↔ ¬ OversizedVector vector) :=
  ⟨checks_point.portable_iff point, checks_points.portable_iff points, checks_ids.portable_iff ids,
    checks_vector.portable_iff vector⟩

-- A point whose id is a lone surrogate, and one with an integer beyond the floats.
def surrogatePoint : Point where
  id := .str [55296]
  vector := .tuple [.int 1]
  metadata := .dict []

def oversizedPoint : Point where
  id := .str [97]
  vector := .tuple [.int (2 ^ 1024)]
  metadata := .dict []

theorem validation_raises_others :
    ¬ (∀ point, Portable (validatePoint point) (ValidPoint point)) ∧
      validatePoint surrogatePoint = .error .unicodeEncode ∧
        validatePoint oversizedPoint = .error .overflow := by
  have hsurrogate : validatePoint surrogatePoint = .error .unicodeEncode := by decide
  have hoversized : validatePoint oversizedPoint = .error .overflow := by decide +kernel
  refine ⟨fun hall => ?_, hsurrogate, hoversized⟩
  have hconfiguration := (hall surrogatePoint).1 .unicodeEncode hsurrogate
  cases hconfiguration

end Scaffold.Vector.Dynamic
