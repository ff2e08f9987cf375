import Mathlib.Data.List.Nodup
import Mathlib.Data.List.Pairwise
import Scaffold.Raising
import Scaffold.Worker.Resolver

namespace Scaffold.Worker

open Queue Raising

variable {T C P : Type}

section Describe

variable {job : JobClass T C P} {descriptor : JobDescriptor T C P}

-- What `describe_job` has checked of every descriptor it returns.
structure WellDescribed (descriptor : JobDescriptor T C P) : Prop where
  version : 1 ≤ descriptor.version
  legacyVersions : ∀ version ∈ descriptor.legacyDecoders.map Prod.fst,
    1 ≤ version ∧ version < descriptor.version

theorem jobVersion_ok {version : Int} (h : jobVersion job = .ok version) : 1 ≤ version := by
  unfold jobVersion at h
  split at h
  · cases h
  · split at h
    · cases h
    · obtain rfl := Except.ok.inj h
      omega

theorem legacyDecoder_ok {version : Int} {item : Option Int × CodecObject C} {decoder : Int × C}
    (h : legacyDecoder version item = .ok decoder) : 1 ≤ decoder.1 ∧ decoder.1 < version := by
  unfold legacyDecoder at h
  split at h
  · cases h
  · split at h
    · cases h
    · rename_i hrange
      split at h
      · cases h
      · obtain rfl := Except.ok.inj h
        exact not_not.mp hrange

theorem jobDecoders_ok {version : Int} {decoders : List (Int × C)}
    (h : jobDecoders job version = .ok decoders) :
    ∀ legacyVersion ∈ decoders.map Prod.fst, 1 ≤ legacyVersion ∧ legacyVersion < version := by
  unfold jobDecoders at h
  split at h
  · cases h
  · intro legacyVersion hmem
    obtain ⟨decoder, hdecoder, rfl⟩ := List.mem_map.mp hmem
    obtain ⟨item, -, hitem⟩ := mem_of_mapM_ok h decoder hdecoder
    exact legacyDecoder_ok hitem

theorem describeJob_ok (h : describeJob job = .ok descriptor) :
    WellDescribed descriptor ∧ descriptor.jobType = job.cls := by
  unfold describeJob at h
  obtain ⟨_, -, h⟩ := bind_ok h
  obtain ⟨reference, -, h⟩ := bind_ok h
  obtain ⟨legacyReferences, -, h⟩ := bind_ok h
  obtain ⟨version, hversion, h⟩ := bind_ok h
  obtain ⟨policy, -, h⟩ := bind_ok h
  obtain ⟨codec, -, h⟩ := bind_ok h
  obtain ⟨legacyDecoders, hdecoders, h⟩ := bind_ok h
  obtain rfl := Except.ok.inj h
  exact ⟨⟨jobVersion_ok hversion, jobDecoders_ok hdecoders⟩, rfl⟩

theorem decoderFor_current (hwell : WellDescribed descriptor) :
    descriptor.decoderFor (some descriptor.version) = some descriptor.codec := by
  have hpositive : ¬ descriptor.version < 1 := by
    have := hwell.version
    omega
  simp only [JobDescriptor.decoderFor, if_neg hpositive, if_true]

theorem decoderFor_legacy (hwell : WellDescribed descriptor) {version : Int}
    (hlegacy : version ∈ descriptor.legacyDecoders.map Prod.fst) :
    descriptor.decoderFor (some version) = descriptor.legacyDecoders.reverse.lookup version := by
  have hrange := hwell.legacyVersions version hlegacy
  have hpositive : ¬ version < 1 := by omega
  have hother : version ≠ descriptor.version := by omega
  simp only [JobDescriptor.decoderFor, if_neg hpositive, if_neg hother]

theorem lookup_eq_none {decoders : List (Int × C)} {version : Int} (h : version ∉ decoders.map Prod.fst) :
    decoders.reverse.lookup version = none := by
  rw [List.lookup_eq_none_iff]
  intro item hitem
  have hne : version ≠ item.1 := by
    rintro rfl
    exact h (List.mem_map_of_mem (List.mem_reverse.mp hitem))
  simpa using hne

theorem lookup_isSome {decoders : List (Int × C)} {version : Int} (h : version ∈ decoders.map Prod.fst) :
    ∃ decoder, decoders.reverse.lookup version = some decoder := by
  obtain ⟨item, hitem, rfl⟩ := List.mem_map.mp h
  rw [← Option.isSome_iff_exists, List.lookup_isSome_iff]
  exact ⟨item, List.mem_reverse.mpr hitem, beq_self_eq_true _⟩

-- The versions that are bound are those the descriptor has a decoder for.
theorem decoderFor_isSome (hwell : WellDescribed descriptor) {version : Int}
    (h : version ∈ descriptor.versions) :
      ∃ decoder, descriptor.decoderFor (some version) = some decoder := by
  obtain rfl | hlegacy := List.mem_cons.mp h
  · exact ⟨_, decoderFor_current hwell⟩
  · obtain ⟨decoder, hdecoder⟩ := lookup_isSome hlegacy
    exact ⟨decoder, (decoderFor_legacy hwell hlegacy).trans hdecoder⟩

theorem decoderFor_eq_none {version : Int} (h : version ∉ descriptor.versions) :
    descriptor.decoderFor (some version) = none := by
  obtain ⟨hcurrent, hlegacy⟩ := not_or.mp (List.mem_cons.not.mp h)
  simp only [JobDescriptor.decoderFor, if_neg hcurrent, lookup_eq_none hlegacy, ite_self]

end Describe

section Build

variable {catalogue : Catalogue T C P} {jobs : List (JobDescriptor T C P)}
    {descriptor : JobDescriptor T C P}
  {bindings : String × Int → Option (JobBinding T C P)}

-- What is stored for a version under each reference of a type.
def bound (descriptor : JobDescriptor T C P) (version : Int) : Option (JobBinding T C P) :=
  (descriptor.decoderFor (some version)).map fun decoder => { descriptor, decoder }

variable (bindings) in
theorem bindVersions_ok (reference : String) {versions : List Int}
    (hversions : ∀ version ∈ versions, ∃ decoder, descriptor.decoderFor (some version) = some decoder) :
    ∃ bindings', versions.foldlM (bindVersion descriptor reference) bindings = .ok bindings' ∧
      ∀ r version, bindings' (r, version) =
        if r = reference ∧ version ∈ versions then bound descriptor version else bindings (r, version) := by
  induction versions generalizing bindings with
  | nil => exact ⟨bindings, rfl, fun r version => (if_neg fun h => nomatch h.2).symm⟩
  | cons first versions ih =>
      obtain ⟨decoder, hdecoder⟩ := hversions first List.mem_cons_self
      have hfirst : bindVersion descriptor reference bindings first =
          .ok (Function.update bindings (reference, first) (some { descriptor, decoder })) := by
        rw [bindVersion, hdecoder]
      obtain ⟨bindings', hfold, hbindings⟩ := ih
        (Function.update bindings (reference, first) (some { descriptor, decoder }))
        fun version hversion => hversions version (List.mem_cons_of_mem _ hversion)
      refine ⟨bindings', ?_, ?_⟩
      · rw [List.foldlM_cons, hfirst]
        exact hfold
      · intro r version
        rw [hbindings]
        by_cases hlater : r = reference ∧ version ∈ versions
        · rw [if_pos hlater, if_pos ⟨hlater.1, List.mem_cons_of_mem _ hlater.2⟩]
        · rw [if_neg hlater]
          by_cases hsame : r = reference ∧ version = first
          · obtain ⟨rfl, rfl⟩ := hsame
            rw [if_pos ⟨rfl, List.mem_cons_self⟩, Function.update_self, bound, hdecoder]
            rfl
          · have hkey : (r, version) ≠ (reference, first) := fun h => hsame (Prod.mk.inj h)
            have hnot : ¬ (r = reference ∧ version ∈ first :: versions) := by
              rintro ⟨hr, hversion⟩
              obtain hversion | hversion := List.mem_cons.mp hversion
              · exact hsame ⟨hr, hversion⟩
              · exact hlater ⟨hr, hversion⟩
            rw [if_neg hnot, Function.update_of_ne hkey]

variable (bindings) in
theorem bindReferences_ok (hwell : WellDescribed descriptor) (references : List String) :
    ∃ bindings', references.foldlM (bindReference descriptor) bindings = .ok bindings' ∧
      ∀ r version, bindings' (r, version) =
        if r ∈ references ∧ version ∈ descriptor.versions then bound descriptor version
        else bindings (r, version) := by
  induction references generalizing bindings with
  | nil => exact ⟨bindings, rfl, fun r version => (if_neg fun h => nomatch h.1).symm⟩
  | cons first references ih =>
      obtain ⟨middle, hmiddle, hfirst⟩ := bindVersions_ok bindings first
        fun _ => decoderFor_isSome hwell
      obtain ⟨bindings', hfold, hbindings⟩ := ih middle
      refine ⟨bindings', ?_, ?_⟩
      · rw [List.foldlM_cons, bindReference, hmiddle]
        exact hfold
      · intro r version
        rw [hbindings, hfirst]
        by_cases hversion : version ∈ descriptor.versions
        · by_cases hr : r ∈ references <;> by_cases hhead : r = first <;> simp [hversion, hr, hhead]
        · simp [hversion]

theorem addReferences_ok {known references all : List String} (hknown : known.Nodup) :
    addReferences known references = .ok all ↔ (known ++ references).Nodup ∧ all = known ++ references := by
  induction references generalizing known with
  | nil =>
      rw [List.append_nil, addReferences]
      exact ⟨fun h => ⟨hknown, (Except.ok.inj h).symm⟩, fun h => congrArg Except.ok h.2.symm⟩
  | cons first references ih =>
      rw [addReferences]
      by_cases hfirst : first ∈ known
      · rw [if_pos hfirst]
        refine ⟨fun h => (nomatch h), fun ⟨hnodup, _⟩ => ?_⟩
        exact absurd rfl ((List.nodup_append.mp hnodup).2.2 first hfirst first List.mem_cons_self)
      · have hextended : (known ++ [first]).Nodup := by
          rw [List.nodup_append]
          refine ⟨hknown, List.nodup_singleton first, ?_⟩
          rintro a ha b hb rfl
          exact hfirst (List.mem_singleton.mp hb ▸ ha)
        rw [if_neg hfirst, ih hextended, List.append_assoc, List.singleton_append]

-- The catalogue after the loop has gone through the types of `jobs`.
structure Built (catalogue : Catalogue T C P) (jobs : List (JobDescriptor T C P)) : Prop where
  well : ∀ descriptor ∈ jobs, WellDescribed descriptor
  descriptors : catalogue.descriptors.Perm jobs
  references : catalogue.references = jobs.flatMap JobDescriptor.references
  distinct : (jobs.flatMap JobDescriptor.references).Nodup
  owned : ∀ descriptor ∈ jobs, ∀ reference ∈ descriptor.references, ∀ version,
    catalogue.bindings (reference, version) = bound descriptor version
  free : ∀ reference, (∀ descriptor ∈ jobs, reference ∉ descriptor.references) → ∀ version,
    catalogue.bindings (reference, version) = none

theorem built_empty : Built ({} : Catalogue T C P) [] where
  well := fun _ h => nomatch h
  descriptors := .refl _
  references := rfl
  distinct := List.nodup_nil
  owned := fun _ h => nomatch h
  free := fun _ _ _ => rfl

theorem bound_eq_none {version : Int} (h : version ∉ descriptor.versions) :
    bound descriptor version = none := by
  rw [bound, decoderFor_eq_none h]
  rfl

-- A reference of the new type belonged to no type before it, so its bindings overwrite nothing.
theorem Built.snoc {bindings' : String × Int → Option (JobBinding T C P)} (hbuilt : Built catalogue jobs)
    (hwell : WellDescribed descriptor)
    (hdistinct : (jobs.flatMap JobDescriptor.references ++ descriptor.references).Nodup)
    (hbindings : ∀ r version, bindings' (r, version) =
      if r ∈ descriptor.references ∧ version ∈ descriptor.versions then bound descriptor version
      else catalogue.bindings (r, version)) :
    Built { descriptors := catalogue.descriptors ++ [descriptor], bindings := bindings',
            references := catalogue.references ++ descriptor.references } (jobs ++ [descriptor]) := by
  have hdisjoint : ∀ other ∈ jobs, ∀ r ∈ other.references, r ∉ descriptor.references := by
    intro other hother r hr hmem
    exact (List.nodup_append.mp hdistinct).2.2 r (List.mem_flatMap.mpr ⟨other, hother, hr⟩) r hmem rfl
  have hflat : (jobs ++ [descriptor]).flatMap JobDescriptor.references =
      jobs.flatMap JobDescriptor.references ++ descriptor.references := by
    rw [List.flatMap_append, List.flatMap_singleton]
  refine ⟨?_, ?_, ?_, ?_, ?_, ?_⟩
  · intro other hother
    obtain hother | hother := List.mem_append.mp hother
    · exact hbuilt.well other hother
    · exact List.mem_singleton.mp hother ▸ hwell
  · exact hbuilt.descriptors.append_right [descriptor]
  · rw [hflat, hbuilt.references]
  · rw [hflat]
    exact hdistinct
  · intro other hother r hr version
    obtain hother | hother := List.mem_append.mp hother
    · refine (hbindings r version).trans ?_
      rw [if_neg fun h => hdisjoint other hother r hr h.1]
      exact hbuilt.owned other hother r hr version
    · obtain rfl := List.mem_singleton.mp hother
      refine (hbindings r version).trans ?_
      by_cases hversion : version ∈ other.versions
      · rw [if_pos ⟨hr, hversion⟩]
      · rw [if_neg fun h => hversion h.2, bound_eq_none hversion]
        exact hbuilt.free r (fun owner howner hmem => hdisjoint owner howner r hmem hr) version
  · intro r hfree version
    refine (hbindings r version).trans ?_
    rw [if_neg fun h => hfree descriptor (List.mem_append_right _ (List.mem_singleton_self _)) h.1]
    exact hbuilt.free r (fun owner howner => hfree owner (List.mem_append_left _ howner)) version

variable {job : JobClass T C P} {jobTypes : List (JobClass T C P)} {added : List (JobDescriptor T C P)}

theorem addType_ok (hbuilt : Built catalogue jobs) {catalogue' : Catalogue T C P}
    (h : addType catalogue job = .ok catalogue') :
    ∃ descriptor, describeJob job = .ok descriptor ∧ Built catalogue' (jobs ++ [descriptor]) := by
  unfold addType at h
  cases hdescribe : describeJob job with
  | error error =>
      rw [hdescribe] at h
      cases h
  | ok descriptor =>
      rw [hdescribe] at h
      obtain ⟨references, hreferences, h⟩ := bind_ok h
      obtain ⟨bindings, hfold, h⟩ := bind_ok h
      obtain rfl := Except.ok.inj h
      rw [hbuilt.references, addReferences_ok hbuilt.distinct, ← hbuilt.references] at hreferences
      obtain ⟨hdistinct, rfl⟩ := hreferences
      have hwell := (describeJob_ok hdescribe).1
      obtain ⟨bindings', hfold', hbindings⟩ := bindReferences_ok catalogue.bindings hwell
        descriptor.references
      obtain rfl := Except.ok.inj (hfold.symm.trans hfold')
      refine ⟨descriptor, rfl, hbuilt.snoc hwell ?_ hbindings⟩
      rw [← hbuilt.references]
      exact hdistinct

theorem addType_succeeds (hbuilt : Built catalogue jobs) (hdescribe : describeJob job = .ok descriptor)
    (hdistinct : ((jobs ++ [descriptor]).flatMap JobDescriptor.references).Nodup) :
    ∃ catalogue', addType catalogue job = .ok catalogue' := by
  rw [List.flatMap_append, List.flatMap_singleton] at hdistinct
  have hreferences : addReferences catalogue.references descriptor.references =
      .ok (jobs.flatMap JobDescriptor.references ++ descriptor.references) := by
    rw [hbuilt.references]
    exact (addReferences_ok hbuilt.distinct).mpr ⟨hdistinct, rfl⟩
  obtain ⟨bindings', hfold, -⟩ := bindReferences_ok catalogue.bindings (describeJob_ok hdescribe).1
    descriptor.references
  unfold addType
  rw [hdescribe]
  simp only [hreferences, hfold]
  exact ⟨_, rfl⟩

theorem build_ok (hbuilt : Built catalogue jobs) {catalogue' : Catalogue T C P}
    (h : jobTypes.foldlM addType catalogue = .ok catalogue') :
    ∃ added, jobTypes.mapM describeJob = .ok added ∧ Built catalogue' (jobs ++ added) := by
  induction jobTypes generalizing catalogue jobs with
  | nil =>
      obtain rfl := Except.ok.inj h
      exact ⟨[], rfl, by rwa [List.append_nil]⟩
  | cons job jobTypes ih =>
      rw [List.foldlM_cons] at h
      obtain ⟨middle, hfirst, hrest⟩ := bind_ok h
      obtain ⟨descriptor, hdescribe, hmiddle⟩ := addType_ok hbuilt hfirst
      obtain ⟨added, hadded, hcatalogue⟩ := ih hmiddle hrest
      refine ⟨descriptor :: added, mapM_cons_ok.mpr ⟨descriptor, added, hdescribe, hadded, rfl⟩, ?_⟩
      rwa [List.append_assoc, List.singleton_append] at hcatalogue

theorem build_succeeds (hbuilt : Built catalogue jobs) (hadded : jobTypes.mapM describeJob = .ok added)
    (hdistinct : ((jobs ++ added).flatMap JobDescriptor.references).Nodup) :
    ∃ catalogue', jobTypes.foldlM addType catalogue = .ok catalogue' := by
  induction jobTypes generalizing catalogue jobs added with
  | nil => exact ⟨catalogue, rfl⟩
  | cons job jobTypes ih =>
      obtain ⟨descriptor, rest, hdescribe, hrest, rfl⟩ := mapM_cons_ok.mp hadded
      rw [← List.singleton_append, ← List.append_assoc] at hdistinct
      have hfirst : ((jobs ++ [descriptor]).flatMap JobDescriptor.references).Nodup := by
        rw [List.flatMap_append] at hdistinct
        exact hdistinct.of_append_left
      obtain ⟨middle, hmiddle⟩ := addType_succeeds hbuilt hdescribe hfirst
      obtain ⟨described, hdescribed, hbuilt'⟩ := addType_ok hbuilt hmiddle
      obtain rfl := Except.ok.inj (hdescribe.symm.trans hdescribed)
      obtain ⟨catalogue', hcatalogue⟩ := ih hbuilt' hrest hdistinct
      refine ⟨catalogue', ?_⟩
      rw [List.foldlM_cons, hmiddle]
      exact hcatalogue

end Build

section Resolve

variable {catalogue : Catalogue T C P} {jobs : List (JobDescriptor T C P)}
    {descriptor : JobDescriptor T C P}
  {jobTypes : List (JobClass T C P)}

-- What a catalogue answers when `jobs` are the types in it.
structure Serves (catalogue : Catalogue T C P) (jobs : List (JobDescriptor T C P)) : Prop where
  unique : ∀ descriptor ∈ jobs, ∀ reference ∈ descriptor.references,
    ∀ other ∈ jobs, reference ∈ other.references → other = descriptor
  unknown : ∀ reference version, catalogue.resolve reference version = .error .unknownJob ↔
    ∀ descriptor ∈ jobs, reference ∉ descriptor.references
  current : ∀ descriptor ∈ jobs, ∀ reference ∈ descriptor.references,
    catalogue.resolve reference (some descriptor.version) = .ok { descriptor, decoder := descriptor.codec }
  legacy : ∀ descriptor ∈ jobs, ∀ reference ∈ descriptor.references, ∀ version decoder,
    descriptor.legacyDecoders.reverse.lookup version = some decoder →
    catalogue.resolve reference (some version) = .ok { descriptor, decoder }
  unsupported : ∀ descriptor ∈ jobs, ∀ reference ∈ descriptor.references, ∀ version,
    (∀ declared ∈ descriptor.versions, version ≠ some declared) →
    catalogue.resolve reference version = .error .unsupportedJobVersion

theorem Built.mem_references (hbuilt : Built catalogue jobs) {reference : String} :
    reference ∈ catalogue.references ↔ ∃ descriptor ∈ jobs, reference ∈ descriptor.references := by
  rw [hbuilt.references, List.mem_flatMap]

-- A reference of a type is resolved by the decoders of that type.
theorem Built.resolve_owned (hbuilt : Built catalogue jobs) (hmem : descriptor ∈ jobs) {reference : String}
    (hreference : reference ∈ descriptor.references) (version : Option Int) :
    catalogue.resolve reference version =
      match descriptor.decoderFor version with
      | none => .error .unsupportedJobVersion
      | some decoder => .ok { descriptor, decoder } := by
  have hknown : reference ∈ catalogue.references := hbuilt.mem_references.mpr ⟨descriptor, hmem, hreference⟩
  unfold Catalogue.resolve
  rw [if_neg (not_not.mpr hknown)]
  cases version with
  | none => rfl
  | some version =>
      have hbinding := hbuilt.owned descriptor hmem reference hreference version
      by_cases hpositive : version < 1
      · have hdecoder : descriptor.decoderFor (some version) = none := if_pos hpositive
        rw [hdecoder]
        exact if_pos hpositive
      · simp only [if_neg hpositive, hbinding, bound]
        cases descriptor.decoderFor (some version) <;> rfl

theorem owner_unique (hdistinct : (jobs.flatMap JobDescriptor.references).Nodup)
    {other : JobDescriptor T C P}
    {reference : String} (hmem : descriptor ∈ jobs) (hreference : reference ∈ descriptor.references)
    (hother : other ∈ jobs) (hreference' : reference ∈ other.references) : other = descriptor := by
  by_contra hne
  have hsymm :
    Std.Symm (Function.onFun List.Disjoint (JobDescriptor.references (T := T) (C := C) (P := P))) :=
    ⟨fun _ _ hdisjoint _ hleft hright => hdisjoint hright hleft⟩
  have hdisjoint := (List.nodup_flatMap.mp hdistinct).2.forall hother hmem hne
  exact hdisjoint hreference' hreference

theorem Built.serves (hbuilt : Built catalogue jobs) : Serves catalogue jobs where
  unique := fun _ hmem _ hreference _ hother => owner_unique hbuilt.distinct hmem hreference hother
  unknown := by
    intro reference version
    constructor
    · intro h descriptor hmem hreference
      rw [hbuilt.resolve_owned hmem hreference] at h
      cases hdecoder : descriptor.decoderFor version <;> rw [hdecoder] at h <;> cases h
    · intro hfree
      have hunknown : reference ∉ catalogue.references := by
        rw [hbuilt.mem_references]
        rintro ⟨descriptor, hmem, hreference⟩
        exact hfree descriptor hmem hreference
      exact if_pos hunknown
  current := by
    intro descriptor hmem reference hreference
    rw [hbuilt.resolve_owned hmem hreference, decoderFor_current (hbuilt.well descriptor hmem)]
  legacy := by
    intro descriptor hmem reference hreference version decoder hlookup
    have hlegacy : version ∈ descriptor.legacyDecoders.map Prod.fst := by
      by_contra hnot
      rw [lookup_eq_none hnot] at hlookup
      cases hlookup
    rw [hbuilt.resolve_owned hmem hreference,
      decoderFor_legacy (hbuilt.well descriptor hmem) hlegacy, hlookup]
  unsupported := by
    intro descriptor hmem reference hreference version hversion
    rw [hbuilt.resolve_owned hmem hreference]
    cases version with
    | none => rfl
    | some version => rw [decoderFor_eq_none fun hdeclared => hversion version hdeclared rfl]

-- The answers are fixed by which types there are.
theorem Serves.resolve_eq {catalogue' : Catalogue T C P} {jobs' : List (JobDescriptor T C P)}
    (h : Serves catalogue jobs) (h' : Serves catalogue' jobs')
    (hsame : ∀ descriptor, descriptor ∈ jobs ↔ descriptor ∈ jobs')
    (reference : String) (version : Option Int) :
    catalogue'.resolve reference version = catalogue.resolve reference version := by
  by_cases howned : ∃ descriptor ∈ jobs, reference ∈ descriptor.references
  · obtain ⟨descriptor, hmem, hreference⟩ := howned
    have hmem' := (hsame descriptor).mp hmem
    by_cases hdeclared : ∃ declared ∈ descriptor.versions, version = some declared
    · obtain ⟨declared, hdeclared, rfl⟩ := hdeclared
      obtain rfl | hlegacy := List.mem_cons.mp hdeclared
      · rw [h.current descriptor hmem reference hreference,
          h'.current descriptor hmem' reference hreference]
      · obtain ⟨decoder, hlookup⟩ := lookup_isSome hlegacy
        rw [h.legacy descriptor hmem reference hreference declared decoder hlookup,
          h'.legacy descriptor hmem' reference hreference declared decoder hlookup]
    · have hversion : ∀ declared ∈ descriptor.versions, version ≠ some declared :=
        fun declared hmem heq => hdeclared ⟨declared, hmem, heq⟩
      rw [h.unsupported descriptor hmem reference hreference version hversion,
        h'.unsupported descriptor hmem' reference hreference version hversion]
  · have hfree : ∀ descriptor ∈ jobs, reference ∉ descriptor.references :=
      fun descriptor hmem hreference => howned ⟨descriptor, hmem, hreference⟩
    rw [(h.unknown reference version).mpr hfree,
      (h'.unknown reference version).mpr fun descriptor hmem =>
        hfree descriptor ((hsame descriptor).mpr hmem)]

end Resolve

section Sorted

variable {catalogue : Catalogue T C P} {jobs : List (JobDescriptor T C P)}
    {jobTypes : List (JobClass T C P)}

theorem sortByReference_pairwise (jobs : List (JobDescriptor T C P)) :
    (sortByReference jobs).Pairwise fun a b => a.reference ≤ b.reference := by
  have hsorted : (sortByReference jobs).Pairwise fun a b => decide (a.reference ≤ b.reference) = true := by
    refine List.pairwise_mergeSort ?_ ?_ jobs
    · intro a b c hab hbc
      exact decide_eq_true (String.le_trans (of_decide_eq_true hab) (of_decide_eq_true hbc))
    · intro a b
      simpa using String.le_total a.reference b.reference
  exact hsorted.imp of_decide_eq_true

theorem Built.reference_inj (hbuilt : Built catalogue jobs) {a b : JobDescriptor T C P}
    (ha : a ∈ catalogue.descriptors) (hb : b ∈ catalogue.descriptors)
    (h : a.reference = b.reference) : a = b := by
  have hreference : b.reference ∈ a.references := h ▸ List.mem_cons_self
  exact owner_unique hbuilt.distinct (hbuilt.descriptors.mem_iff.mp hb) List.mem_cons_self
    (hbuilt.descriptors.mem_iff.mp ha) hreference

theorem Built.descriptors_nodup (hbuilt : Built catalogue jobs) : catalogue.descriptors.Nodup := by
  rw [hbuilt.descriptors.nodup_iff]
  have hdistinct := List.nodup_flatMap.mp hbuilt.distinct
  refine hdistinct.2.imp ?_
  rintro a b hdisjoint rfl
  exact hdisjoint List.mem_cons_self List.mem_cons_self

theorem jobResolver_ok (h : jobResolver jobTypes = .ok catalogue) :
    ∃ jobs, jobTypes.mapM describeJob = .ok jobs ∧ Built catalogue jobs ∧
      catalogue.descriptors.Pairwise fun a b => a.reference < b.reference := by
  unfold jobResolver at h
  obtain ⟨collected, hfold, h⟩ := bind_ok h
  obtain rfl := Except.ok.inj h
  obtain ⟨jobs, hjobs, hbuilt⟩ := build_ok built_empty hfold
  have hperm : (sortByReference collected.descriptors).Perm jobs :=
    (List.mergeSort_perm _ _).trans hbuilt.descriptors
  have hfinished : Built { collected with descriptors := sortByReference collected.descriptors } jobs :=
    { hbuilt with descriptors := hperm }
  refine ⟨jobs, hjobs, hfinished, ?_⟩
  -- no two references are equal, so the order is strict
  have hne := hfinished.descriptors_nodup.pairwise_of_forall_ne
    fun a ha b hb hab => fun h : a.reference = b.reference => hab (hfinished.reference_inj ha hb h)
  refine (sortByReference_pairwise collected.descriptors).imp₂ ?_ hne
  intro a b hle hne
  exact String.not_le.mp fun hge => hne (String.le_antisymm hle hge)

theorem jobResolver_succeeds (hjobs : jobTypes.mapM describeJob = .ok jobs)
    (hdistinct : (jobs.flatMap JobDescriptor.references).Nodup) :
    ∃ catalogue, jobResolver jobTypes = .ok catalogue := by
  obtain ⟨collected, hfold⟩ := build_succeeds built_empty hjobs hdistinct
  unfold jobResolver
  rw [hfold]
  exact ⟨_, rfl⟩

end Sorted

section Catalogue

variable {catalogue : Catalogue T C P} {jobs : List (JobDescriptor T C P)}
    {jobTypes : List (JobClass T C P)}

theorem jobResolver_fails : (∃ error, jobResolver jobTypes = .error error) ↔
    (∃ job ∈ jobTypes, ∃ error, describeJob job = .error error) ∨
    ∃ jobs, jobTypes.mapM describeJob = .ok jobs ∧ ¬ (jobs.flatMap JobDescriptor.references).Nodup := by
  constructor
  · rintro ⟨error, h⟩
    cases hjobs : jobTypes.mapM describeJob with
    | error error =>
        obtain ⟨job, hmem, hjob⟩ := mapM_error hjobs
        exact .inl ⟨job, hmem, error, hjob⟩
    | ok jobs =>
        refine .inr ⟨jobs, rfl, fun hdistinct => ?_⟩
        obtain ⟨catalogue, hok⟩ := jobResolver_succeeds hjobs hdistinct
        cases h.symm.trans hok
  · intro h
    cases hresolver : jobResolver jobTypes with
    | error error => exact ⟨error, rfl⟩
    | ok catalogue =>
        obtain ⟨jobs, hjobs, hbuilt, -⟩ := jobResolver_ok hresolver
        obtain ⟨job, hmem, error, hjob⟩ | ⟨jobs', hjobs', hclash⟩ := h
        · obtain ⟨descriptor, -, hdescribe⟩ := mapM_ok_mem hjobs hmem
          cases hjob.symm.trans hdescribe
        · obtain rfl := Except.ok.inj (hjobs.symm.trans hjobs')
          exact absurd hbuilt.distinct hclash

-- The producer describes the type as the worker does.
theorem encodeJob_resolves [DecidableEq T] (hjobs : jobTypes.mapM describeJob = .ok jobs)
    (hserves : Serves catalogue jobs) {job : JobInstance T C P} (hmem : job.type ∈ jobTypes)
    {encoded : EncodedJob}
    (h : encodeJob job = .ok encoded) :
    ∃ binding, catalogue.resolve encoded.jobType (some encoded.version) = .ok binding ∧
      describeJob job.type = .ok binding.descriptor ∧ binding.descriptor.jobType = job.type.cls ∧
      binding.decoder = binding.descriptor.codec ∧
        job.encodedBy binding.decoder = some encoded.payload := by
  obtain ⟨descriptor, hdescriptor, hdescribe⟩ := mapM_ok_mem hjobs hmem
  have hencode : descriptor.encode job = .ok encoded := by
    unfold encodeJob at h
    split at h
    · cases h
    · rw [hdescribe] at h
      exact h
  unfold JobDescriptor.encode at hencode
  split at hencode
  · cases hencode
  · rename_i htype
    split at hencode
    · cases hencode
    · rename_i payload hpayload
      obtain rfl := Except.ok.inj hencode
      exact ⟨{ descriptor, decoder := descriptor.codec },
        hserves.current descriptor hdescriptor _ List.mem_cons_self, hdescribe,
        (not_not.mp htype).symm, rfl, hpayload⟩

theorem jobResolver_perm (hcatalogue : jobResolver jobTypes = .ok catalogue)
    {jobTypes' : List (JobClass T C P)}
    (hperm : jobTypes.Perm jobTypes') :
    ∃ catalogue', jobResolver jobTypes' = .ok catalogue' ∧ catalogue'.descriptors = catalogue.descriptors ∧
      ∀ reference version, catalogue'.resolve reference version = catalogue.resolve reference version := by
  obtain ⟨jobs, hjobs, hbuilt, hsorted⟩ := jobResolver_ok hcatalogue
  obtain ⟨jobs', hjobs', hjobsPerm⟩ := mapM_perm hperm hjobs
  have hdistinct : (jobs'.flatMap JobDescriptor.references).Nodup :=
    (hjobsPerm.flatMap_right _).nodup_iff.mp hbuilt.distinct
  obtain ⟨catalogue', hcatalogue'⟩ := jobResolver_succeeds hjobs' hdistinct
  obtain ⟨described, hdescribed, hbuilt', hsorted'⟩ := jobResolver_ok hcatalogue'
  obtain rfl := Except.ok.inj (hjobs'.symm.trans hdescribed)
  refine ⟨catalogue', hcatalogue', ?_, ?_⟩
  · have hsame : catalogue'.descriptors.Perm catalogue.descriptors :=
      hbuilt'.descriptors.trans (hjobsPerm.symm.trans hbuilt.descriptors.symm)
    refine hsame.eq_of_pairwise ?_ hsorted' hsorted
    intro a b _ _ hab hba
    exact absurd hba (String.lt_asymm hab)
  · exact hbuilt.serves.resolve_eq hbuilt'.serves fun descriptor => hjobsPerm.mem_iff

theorem job_catalogue_exact [DecidableEq T] (jobTypes : List (JobClass T C P)) :
    ((∃ error, jobResolver jobTypes = .error error) ↔
      (∃ job ∈ jobTypes, ∃ error, describeJob job = .error error) ∨
      ∃ jobs, jobTypes.mapM describeJob = .ok jobs ∧ ¬ (jobs.flatMap JobDescriptor.references).Nodup) ∧
    ∀ catalogue, jobResolver jobTypes = .ok catalogue →
      ∃ jobs, jobTypes.mapM describeJob = .ok jobs ∧ Serves catalogue jobs ∧
        catalogue.descriptors.Perm jobs ∧
        (catalogue.descriptors.Pairwise fun a b => a.reference < b.reference) ∧
        (∀ job : JobInstance T C P, job.type ∈ jobTypes → ∀ encoded, encodeJob job = .ok encoded →
          ∃ binding, catalogue.resolve encoded.jobType (some encoded.version) = .ok binding ∧
            describeJob job.type = .ok binding.descriptor ∧ binding.descriptor.jobType = job.type.cls ∧
            binding.decoder = binding.descriptor.codec ∧
              job.encodedBy binding.decoder = some encoded.payload) ∧
        ∀ jobTypes', jobTypes.Perm jobTypes' →
          ∃ catalogue', jobResolver jobTypes' = .ok catalogue' ∧
            catalogue'.descriptors = catalogue.descriptors ∧
            ∀ reference version, catalogue'.resolve reference version =
              catalogue.resolve reference version := by
  refine ⟨jobResolver_fails, fun catalogue hcatalogue => ?_⟩
  obtain ⟨jobs, hjobs, hbuilt, hsorted⟩ := jobResolver_ok hcatalogue
  refine ⟨jobs, hjobs, hbuilt.serves, hbuilt.descriptors, hsorted, ?_, ?_⟩
  · intro job hmem encoded hencoded
    exact encodeJob_resolves hjobs hbuilt.serves hmem hencoded
  · intro jobTypes' hperm
    exact jobResolver_perm hcatalogue hperm

end Catalogue

end Scaffold.Worker
