import Scaffold.Python.Quoted
import Scaffold.Vector.Dynamic.Theorems
import Scaffold.Vector.Milvus.Filter

namespace Scaffold.Vector.Milvus

open Python

section Grammar

theorem foreign_matchesKey {b : Char} (hb : isForeign b = true) {key : Text}
    (h : Dynamic.matchesKey key = true) : codePoint b ∉ key := by
  have hchar : ∀ c : CodePoint, Dynamic.isKeyChar c = true → c ≠ codePoint b := by
    rintro c hc rfl
    revert hc
    obtain rfl | rfl := of_decide_eq_true hb
    · decide
    · decide
  cases key with
  | nil => simp
  | cons first rest =>
      simp only [Dynamic.matchesKey, Bool.and_eq_true, List.all_eq_true] at h
      have hstart : Dynamic.isKeyStart (codePoint b) = false := by
        obtain rfl | rfl := of_decide_eq_true hb
        · decide
        · decide
      intro hforeign
      obtain rfl | hrest := List.mem_cons.mp hforeign
      · rw [hstart] at h
        cases h.1
      · exact hchar _ (h.2 _ hrest) rfl

theorem ends_blank (text : Text) : Ends (codePoint ' ' :: text) := by
  intro c hc
  exact (Option.some.inj hc).symm

theorem ends_nil : Ends [] := by
  intro c hc
  cases hc

theorem ends_and (rest : Text) : Ends (textOf " and " ++ rest) := ends_blank _

theorem ends_equals (rest : Text) : Ends (textOf " == " ++ rest) := ends_blank _

-- The grammar with any text without a blank as the name of a predicate.

def Comparison (text : Text) (pair : Text × JsonValue) : Prop :=
  codePoint ' ' ∉ pair.1 ∧ ∃ scalar, readScalar scalar = some pair.2 ∧
    text = pair.1 ++ textOf " == " ++ scalar

inductive Comparisons : Text → List (Text × JsonValue) → Prop where
  | single {text : Text} {pair : Text × JsonValue} (h : Comparison text pair) : Comparisons text [pair]
  | and {text rest : Text} {pair : Text × JsonValue} {pairs : List (Text × JsonValue)}
    (h : Comparison text pair)
      (hrest : Comparisons rest pairs) : Comparisons (text ++ textOf " and " ++ rest) (pair :: pairs)

theorem Predicate.comparison {text : Text} {pair : Text × JsonValue} (h : Predicate text pair) :
    Comparison text pair :=
  ⟨foreign_matchesKey rfl h.1, h.2⟩

theorem Expression.comparisons {text : Text} {pairs : List (Text × JsonValue)} (h : Expression text pairs) :
    Comparisons text pairs := by
  induction h with
  | single h => exact .single h.comparison
  | and h hrest ih => exact .and h.comparison ih

theorem Comparisons.expression {text : Text} {pairs : List (Text × JsonValue)} (h : Comparisons text pairs)
    (hkeys : ∀ pair ∈ pairs, Dynamic.matchesKey pair.1 = true) : Expression text pairs := by
  induction h with
  | single h => exact .single ⟨hkeys _ List.mem_cons_self, h.2⟩
  | and h hrest ih =>
      obtain ⟨hkey, hkeys⟩ := List.forall_mem_cons.mp hkeys
      exact .and ⟨hkey, h.2⟩ (ih hkeys)

-- A comparison is known by any text that goes on with a blank behind it.
theorem comparison_unique {a b x y : Text} {p q : Text × JsonValue} (ha : Comparison a p)
    (hb : Comparison b q) (hx : Ends x) (hy : Ends y) (h : a ++ x = b ++ y) : p = q ∧ x = y := by
  obtain ⟨hkey, scalar, hscalar, rfl⟩ := ha
  obtain ⟨hkey', scalar', hscalar', rfl⟩ := hb
  have hname : ∀ {key : Text} (rest : Text), codePoint ' ' ∉ key →
      (key ++ textOf " == " ++ rest).takeWhile (· ≠ codePoint ' ') = key := by
    intro key rest hblank
    rw [List.append_assoc]
    exact takeWhile_ends hblank (ends_equals rest)
  have hkeys : p.1 = q.1 := by
    rw [List.append_assoc, List.append_assoc _ scalar'] at h
    rw [← hname (scalar ++ x) hkey, h, hname (scalar' ++ y) hkey']
  rw [hkeys, List.append_assoc, List.append_assoc _ scalar'] at h
  obtain ⟨hscalars, hrest⟩ := readScalar_prefix hscalar hscalar' hx hy (List.append_cancel_left h)
  rw [hscalars, hscalar'] at hscalar
  exact ⟨Prod.ext hkeys (Option.some.inj hscalar).symm, hrest⟩

-- The grammar is unambiguous.
theorem comparisons_unique {text : Text} {p q : List (Text × JsonValue)} (hp : Comparisons text p)
    (hq : Comparisons text q) : p = q := by
  induction hp generalizing q with
  | @single a pair h =>
      generalize htext : a = text' at hq
      cases hq with
      | single h' =>
          have hsame := (comparison_unique h h' ends_nil ends_nil (by rw [htext])).1
          rw [hsame]
      | @and b rest _ pairs h' hrest =>
          rw [List.append_assoc, ← List.append_nil a] at htext
          have hnil := (comparison_unique h h' ends_nil (ends_and rest) htext).2
          cases hnil
  | @and a rest pair pairs h hrest ih =>
      generalize htext : a ++ textOf " and " ++ rest = text' at hq
      rw [List.append_assoc] at htext
      cases hq with
      | single h' =>
          rw [← List.append_nil text'] at htext
          have hnil := (comparison_unique h h' (ends_and rest) ends_nil htext).2
          cases hnil
      | @and b rest' _ pairs' h' hrest' =>
          rw [List.append_assoc] at htext
          obtain ⟨hpair, htail⟩ := comparison_unique h h' (ends_and rest) (ends_and rest') htext
          have hrests : rest = rest' := List.append_cancel_left htail
          subst hrests
          rw [hpair, ih hrest']

theorem expression_unique {text : Text} {p q : List (Text × JsonValue)} (hp : Expression text p)
    (hq : Expression text q) : p = q :=
  comparisons_unique hp.comparisons hq.comparisons

theorem expression_ne_nil {text : Text} {pairs : List (Text × JsonValue)}
    (h : Expression text pairs) : text ≠ [] := by
  have hpredicate : ∀ {text : Text} {pair : Text × JsonValue}, Predicate text pair → text ≠ [] := by
    rintro _ pair ⟨-, scalar, -, rfl⟩ hnil
    rw [List.append_assoc] at hnil
    cases (List.append_eq_nil_iff.mp hnil).2
  cases h with
  | single h => exact hpredicate h
  | and h hrest =>
      intro hnil
      rw [List.append_assoc] at hnil
      exact hpredicate h (List.append_eq_nil_iff.mp hnil).1

theorem expression_keys {text : Text} {pairs : List (Text × JsonValue)} (h : Expression text pairs) :
    ∀ pair ∈ pairs, Dynamic.matchesKey pair.1 = true := by
  induction h with
  | single h => exact List.forall_mem_singleton.mpr h.1
  | and h hrest ih => exact List.forall_mem_cons.mpr ⟨h.1, ih⟩

end Grammar

section Accepted

-- An item that passes the checks.
structure Accepted (item : FilterKey × FilterScalar) : Prop where
  key : Dynamic.matchesKey item.1.text = true
  value : item.2.json.isScalar = true

theorem accepted_key {text : Text} (h : Dynamic.ValidKey (.str text)) : Dynamic.matchesKey text = true := by
  obtain ⟨first, rest, heq, hstart, hrest, -, -⟩ := h
  obtain rfl := Dynamic.PyValue.str.inj heq
  exact Dynamic.matchesKey_iff.mpr ⟨first, rest, rfl, hstart, hrest⟩

theorem accepted_value {scalar : FilterScalar} (h : Dynamic.ValidScalar scalar.value) :
    scalar.json.isScalar = true := by
  cases scalar with
  | float value =>
      obtain ⟨text, heq⟩ | ⟨b, heq⟩ | ⟨x, heq, hx⟩ | ⟨n, heq, -⟩ := h
      · cases heq
      · cases heq
      · obtain rfl := Dynamic.PyValue.float.inj heq
        exact hx
      · cases heq
  | _ => rfl

theorem accepted_items {filters : Filters} (h : validateFilters (some filters.mapping) = .ok ()) :
    ∀ item ∈ filters, Accepted item := by
  obtain ⟨items, heq, hitems⟩ := (Dynamic.checks_metadata.ok filters.mapping).mp h
  obtain rfl := Dynamic.PyValue.dict.inj heq
  intro item hitem
  obtain ⟨hkey, hvalue⟩ := hitems _ (List.mem_map_of_mem hitem)
  exact ⟨accepted_key hkey, accepted_value hvalue⟩

-- Every mapping that is accepted is one of filters.
theorem exists_filters {metadata : Dynamic.PyValue} (h : validateFilters (some metadata) = .ok ()) :
    ∃ filters : Filters, filters.mapping = metadata := by
  obtain ⟨items, rfl, hitems⟩ := (Dynamic.checks_metadata.ok metadata).mp h
  clear h
  induction items with
  | nil => exact ⟨[], rfl⟩
  | cons first items ih =>
      obtain ⟨filters, hmapping⟩ := ih fun item hitem => hitems item (List.mem_cons_of_mem first hitem)
      obtain ⟨⟨start, rest, hkey, -⟩, hvalue⟩ := hitems first List.mem_cons_self
      obtain ⟨scalar, hscalar⟩ : ∃ scalar : FilterScalar, scalar.value = first.2 := by
        obtain ⟨text, heq⟩ | ⟨b, heq⟩ | ⟨x, heq, -⟩ | ⟨n, heq, -⟩ := hvalue
        · exact ⟨.str text, heq.symm⟩
        · exact ⟨.bool b, heq.symm⟩
        · exact ⟨.float x, heq.symm⟩
        · exact ⟨.int n, heq.symm⟩
      refine ⟨(⟨start :: rest, start :: rest⟩, scalar) :: filters, ?_⟩
      have hrest := Dynamic.PyValue.dict.inj hmapping
      rw [Filters.mapping, List.map_cons, hrest, hscalar, ← hkey]

end Accepted

section Rendering

variable {first second item : FilterKey × FilterScalar} {rest : Filters}

theorem milvusFilter_single : milvusFilter (some [item]) = predicateText item := by
  simp [milvusFilter, List.intercalate]

theorem milvusFilter_cons_cons :
    milvusFilter (some (first :: second :: rest)) =
      predicateText first ++ textOf " and " ++ milvusFilter (some (second :: rest)) := by
  simp [milvusFilter, List.intercalate]

-- The items with the texts that stand in the expression.
def Filters.formatted (filters : Filters) : List (Text × JsonValue) :=
  filters.map fun item => (item.1.format, item.2.json)

theorem comparisons_rendered (h : ∀ item ∈ first :: rest, Accepted item)
    (hblank : ∀ item ∈ first :: rest, codePoint ' ' ∉ item.1.format) :
    Comparisons (milvusFilter (some (first :: rest))) (Filters.formatted (first :: rest)) := by
  have hcomparison : ∀ item ∈ first :: rest, Comparison (predicateText item) (item.1.format, item.2.json) :=
    fun item hitem => ⟨hblank item hitem, _, readScalar_dumps (h item hitem).value _ _, rfl⟩
  clear h hblank
  induction rest generalizing first with
  | nil =>
      rw [milvusFilter_single]
      exact .single (hcomparison first List.mem_cons_self)
  | cons second rest ih =>
      rw [milvusFilter_cons_cons]
      exact .and (hcomparison first List.mem_cons_self)
        (ih fun item hitem => hcomparison item (List.mem_cons_of_mem first hitem))

theorem expression_rendered (h : ∀ item ∈ first :: rest, Accepted item)
    (hplain : ∀ item ∈ first :: rest, item.1.format = item.1.text) :
    Expression (milvusFilter (some (first :: rest))) (Filters.pairs (first :: rest)) := by
  have hkeys : ∀ item ∈ first :: rest, Dynamic.matchesKey item.1.format = true := by
    intro item hitem
    rw [hplain item hitem]
    exact (h item hitem).key
  have hsame : Filters.formatted (first :: rest) = Filters.pairs (first :: rest) :=
    List.map_congr_left fun item hitem => by rw [hplain item hitem]
  have hrendered := comparisons_rendered h fun item hitem => foreign_matchesKey rfl (hkeys item hitem)
  rw [← hsame]
  exact hrendered.expression (List.forall_mem_map.mpr hkeys)

end Rendering

-- How many quotation marks open or close a string, and how many blanks stand outside: an expression has
-- exactly those of its values and its operators, so a key that it was rendered from adds none.
section Counting

variable {first item : FilterKey × FilterScalar} {rest filters : Filters}

open Place

def marks (pairs : List (Text × JsonValue)) : Nat := (pairs.map fun pair => marksOf pair.2).sum

theorem reads_equals : Reads .outside (textOf " == ") 0 2 := reads_plain (by decide)

theorem reads_and : Reads .outside (textOf " and ") 0 2 := reads_plain (by decide)

theorem reads_predicate {text : Text} {pair : Text × JsonValue} (h : Predicate text pair) :
    Reads .outside text (marksOf pair.2) 2 := by
  obtain ⟨hkey, scalar, hscalar, rfl⟩ := h
  have hname := reads_plain (foreign_matchesKey (b := '"') rfl hkey)
  rw [List.count_eq_zero.mpr (foreign_matchesKey (b := ' ') rfl hkey)] at hname
  have hread := (hname.append reads_equals).append (reads_scalar hscalar)
  rwa [Nat.zero_add, Nat.zero_add, Nat.add_zero] at hread

theorem reads_expression {text : Text} {pairs : List (Text × JsonValue)} (h : Expression text pairs) :
    ∃ n, n + 2 = 4 * pairs.length ∧ Reads .outside text (marks pairs) n := by
  induction h with
  | single h => exact ⟨2, rfl, reads_predicate h⟩
  | @and text rest pair pairs h hrest ih =>
      obtain ⟨n, hn, hreads⟩ := ih
      refine ⟨2 + 2 + n, by rw [List.length_cons]; omega, ?_⟩
      exact ((reads_predicate h).append reads_and).append hreads

-- A text that ends with a blank does not end behind a backslash.
theorem after_equals (place : Place) (text : Text) : place.after (text ++ textOf " == ") ≠ .escaped := by
  have hblank : ∀ place : Place, place.after (textOf " == ") ≠ .escaped := by
    intro place
    cases place <;> decide
  rw [after_append]
  exact hblank _

theorem le_delimiters_predicate (place : Place) :
    marksOf item.2.json ≤ place.count delimiter (predicateText item) := by
  rw [predicateText, count_append]
  exact Nat.le_add_left_of_le (le_count_dumps (after_equals place item.1.format) _ _ _)

theorem le_delimiters (place : Place) :
    marks filters.pairs ≤ place.count delimiter (milvusFilter (some filters)) := by
  induction filters generalizing place with
  | nil => exact Nat.zero_le _
  | cons first rest ih =>
      have hfirst : marksOf first.2.json ≤ place.count delimiter (predicateText first) :=
        le_delimiters_predicate place
      cases rest with
      | nil =>
          rw [milvusFilter_single]
          exact hfirst
      | cons second rest =>
          have hrest := ih (place.after (predicateText first ++ textOf " and "))
          rw [milvusFilter_cons_cons, count_append, count_append]
          have hmarks : marks (Filters.pairs (first :: second :: rest)) =
              marksOf first.2.json + marks (Filters.pairs (second :: rest)) := rfl
          omega

-- A key without a quotation mark is all that a predicate with the marks of its value leaves.
theorem reads_predicateText (h : Accepted item)
    (hmarks : Place.outside.count delimiter (predicateText item) ≤ marksOf item.2.json) :
    Reads .outside (predicateText item) (marksOf item.2.json)
      (item.1.format.count (codePoint ' ') + 2) := by
  have hvalue := le_count_dumps (after_equals .outside item.1.format) (textOf ", ") (textOf ": ") item.2.json
  have hkey : Place.outside.count delimiter item.1.format = 0 := by
    rw [predicateText, count_append, count_append] at hmarks
    omega
  have hread := ((reads_plain (quote_not_mem hkey)).append reads_equals).append
    (reads_scalar (readScalar_dumps h.value (textOf ", ") (textOf ": ")))
  rwa [Nat.zero_add, Nat.add_zero] at hread

def blanks (filters : Filters) : Nat := (filters.map fun item => item.1.format.count (codePoint ' ')).sum

theorem separators_rendered (h : ∀ item ∈ first :: rest, Accepted item)
    (hmarks : Place.outside.count delimiter (milvusFilter (some (first :: rest))) =
      marks (Filters.pairs (first :: rest))) :
    Place.outside.count separator (milvusFilter (some (first :: rest))) + 2 =
      4 * (first :: rest).length + blanks (first :: rest) := by
  induction rest generalizing first with
  | nil =>
      rw [milvusFilter_single] at hmarks ⊢
      rw [(reads_predicateText (h first List.mem_cons_self) (Nat.le_of_eq hmarks)).separators]
      simp only [List.length_cons, List.length_nil, blanks, List.map_cons, List.map_nil, List.sum_cons,
        List.sum_nil]
      omega
  | cons second rest ih =>
      have hsum : marks (Filters.pairs (first :: second :: rest)) =
          marksOf first.2.json + marks (Filters.pairs (second :: rest)) := rfl
      have hblanks : blanks (first :: second :: rest) =
          first.1.format.count (codePoint ' ') + blanks (second :: rest) := rfl
      rw [milvusFilter_cons_cons] at hmarks ⊢
      have hle : marks (Filters.pairs (second :: rest)) ≤
          (Place.outside.after (predicateText first ++ textOf " and ")).count delimiter
            (milvusFilter (some (second :: rest))) := le_delimiters _
      have hcount := hmarks
      rw [count_append, count_append] at hcount
      have hreads := (reads_predicateText (h first List.mem_cons_self) (by omega)).append reads_and
      rw [count_append, hreads.delimiters, hreads.ends] at hmarks
      have hrest := ih (fun item hitem => h item (List.mem_cons_of_mem first hitem)) (by omega)
      rw [count_append, hreads.separators, hreads.ends, hblanks, List.length_cons]
      omega

-- An expression that stands for its mapping was rendered from keys that are their own texts.
theorem formatted_eq (h : ∀ item ∈ first :: rest, Accepted item)
    (hexpression : Expression (milvusFilter (some (first :: rest))) (Filters.pairs (first :: rest))) :
    Filters.formatted (first :: rest) = Filters.pairs (first :: rest) := by
  obtain ⟨n, hn, hreads⟩ := reads_expression hexpression
  have hseparators := separators_rendered h hreads.delimiters
  rw [hreads.separators, hn, Filters.pairs, List.length_map] at hseparators
  have hnone : blanks (first :: rest) = 0 := by omega
  have hblank : ∀ item ∈ first :: rest, codePoint ' ' ∉ item.1.format := fun item hitem =>
    List.count_eq_zero.mp (List.sum_eq_zero_iff_forall_eq_nat.mp hnone _ (List.mem_map_of_mem hitem))
  exact comparisons_unique (comparisons_rendered h hblank) hexpression.comparisons

end Counting

section Faithful

variable {filters other : Filters}

theorem filter_parses (h : ∀ item ∈ filters, Accepted item) (hne : filters ≠ [])
    (hplain : ∀ item ∈ filters, item.1.format = item.1.text) (pairs : List (Text × JsonValue)) :
    Expression (milvusFilter (some filters)) pairs ↔ pairs = filters.pairs := by
  obtain ⟨first, rest, rfl⟩ := List.exists_cons_of_ne_nil hne
  constructor
  · exact fun hpairs => expression_unique hpairs (expression_rendered h hplain)
  · rintro rfl
    exact expression_rendered h hplain

theorem keys_plain (h : ∀ item ∈ filters, Accepted item)
    (hexpression : Expression (milvusFilter (some filters)) filters.pairs) :
    filters ≠ [] ∧ ∀ item ∈ filters, item.1.format = item.1.text := by
  cases filters with
  | nil => exact absurd rfl (expression_ne_nil hexpression)
  | cons first rest =>
      refine ⟨List.cons_ne_nil first rest, fun item hitem => ?_⟩
      have hsame := List.map_inj_left.mp (formatted_eq h hexpression) item hitem
      exact (Prod.mk.inj hsame).1

theorem json_injective {v w : FilterScalar} (h : v.json = w.json) : v = w := by
  cases v <;> cases w <;> cases h <;> rfl

theorem filters_eq (hplain : ∀ item ∈ filters, item.1.format = item.1.text)
    (hplain' : ∀ item ∈ other, item.1.format = item.1.text) (h : filters.pairs = other.pairs) :
    filters = other := by
  induction filters generalizing other with
  | nil =>
      obtain rfl := List.map_eq_nil_iff.mp h.symm
      rfl
  | cons first rest ih =>
      obtain ⟨first', rest', rfl, hfirst, hrest⟩ := List.map_eq_cons_iff.mp h.symm
      obtain ⟨⟨text, format⟩, value⟩ := first
      obtain ⟨⟨text', format'⟩, value'⟩ := first'
      obtain ⟨htext, hvalue⟩ := Prod.mk.inj hfirst
      have hformat : format = text := hplain _ List.mem_cons_self
      have hformat' : format' = text' := hplain' _ List.mem_cons_self
      have hitems := ih (fun item hitem => hplain item (List.mem_cons_of_mem _ hitem))
        (fun item hitem => hplain' item (List.mem_cons_of_mem _ hitem)) hrest.symm
      dsimp only at htext hvalue
      rw [hformat, hformat', htext, json_injective hvalue, hitems]

end Faithful

-- The expression stands for the mapping exactly when there is an item and every key is formatted as its
-- own characters; two such mappings with one expression are one mapping.
theorem milvus_filter_faithful_iff {metadata : Dynamic.PyValue}
    (h : validateFilters (some metadata) = .ok ()) :
    (∃ filters : Filters, filters.mapping = metadata) ∧
      ∀ filters : Filters, filters.mapping = metadata →
        ((∀ pairs, Expression (milvusFilter (some filters)) pairs ↔ pairs = filters.pairs) ↔
          filters ≠ [] ∧ ∀ item ∈ filters, item.1.format = item.1.text) ∧
        ((filters ≠ [] ∧ ∀ item ∈ filters, item.1.format = item.1.text) →
          ∀ other : Filters, validateFilters (some other.mapping) = .ok () →
            (other ≠ [] ∧ ∀ item ∈ other, item.1.format = item.1.text) →
            milvusFilter (some other) = milvusFilter (some filters) → other = filters) := by
  refine ⟨exists_filters h, ?_⟩
  rintro filters rfl
  have haccepted := accepted_items h
  refine ⟨⟨fun hfaithful => keys_plain haccepted ((hfaithful _).mpr rfl), fun hplain =>
    filter_parses haccepted hplain.1 hplain.2⟩, ?_⟩
  rintro ⟨hne, hplain⟩ other hother ⟨hne', hplain'⟩ htext
  have hexpression := (filter_parses (accepted_items hother) hne' hplain' _).mpr rfl
  rw [htext] at hexpression
  exact filters_eq hplain' hplain ((filter_parses haccepted hne hplain _).mp hexpression)

-- A plain key, and a value that looks like the end of a predicate and the begin of the next one.
def quotedFilter : Filters := [(⟨textOf "a", textOf "a"⟩, .str (textOf "\" and b == true"))]

theorem milvus_filter_faithful_iff_quoted :
    milvusFilter (some quotedFilter) = textOf "a == \"\\\" and b == true\"" ∧
      ∀ pairs, Expression (milvusFilter (some quotedFilter)) pairs ↔ pairs = quotedFilter.pairs := by
  have haccepted : validateFilters (some quotedFilter.mapping) = .ok () := rfl
  obtain ⟨-, hfilters⟩ := milvus_filter_faithful_iff haccepted
  exact ⟨rfl, (hfilters quotedFilter rfl).1.mpr
    ⟨List.cons_ne_nil _ _, List.forall_mem_singleton.mpr rfl⟩⟩

-- The member `A` with the characters `a` of an enumeration `K` that is derived from `str`.
def enumFilter : Filters := [(⟨textOf "a", textOf "K.A"⟩, .str (textOf "x"))]

theorem enum_key_renamed :
    validateFilters (some enumFilter.mapping) = .ok () ∧
      milvusFilter (some enumFilter) = textOf "K.A == \"x\"" ∧
      (∀ pairs, ¬ Expression (milvusFilter (some enumFilter)) pairs) ∧
      validateFilters (some (Filters.mapping [])) = .ok () ∧
      ∀ pairs, ¬ Expression (milvusFilter (some [])) pairs := by
  have hblank : ∀ item ∈ enumFilter, codePoint ' ' ∉ item.1.format := by decide
  have haccepted : validateFilters (some enumFilter.mapping) = .ok () := rfl
  have hrendered := comparisons_rendered (accepted_items haccepted) hblank
  refine ⟨rfl, rfl, fun pairs hpairs => ?_, rfl, fun pairs hpairs => expression_ne_nil hpairs rfl⟩
  obtain rfl := comparisons_unique hrendered hpairs.comparisons
  have hkey := expression_keys hpairs (textOf "K.A", .str (textOf "x")) List.mem_cons_self
  exact absurd hkey (by decide)

end Scaffold.Vector.Milvus
