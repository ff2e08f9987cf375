import Scaffold.Http.QueryDecode
import Scaffold.Raising

namespace Scaffold.Http

open Python Raising

section Fields

variable {library : Library}

-- A field of a query and the pair that it stands for.
def FieldOf (field : List UInt8) (pair : Text × Text) : Prop :=
  ∃ name value, quotePlus pair.1 = some name ∧ quotePlus pair.2 = some value ∧ field = name ++ 61 :: value

theorem quoteText_ok {text : Text} {quoted : List UInt8} : quoteText text = .ok quoted ↔
    quotePlus text = some quoted := by
  unfold quoteText
  split
  · rename_i bytes hbytes
    rw [hbytes, Except.ok.injEq, Option.some.injEq]
  · rename_i hnone
    rw [hnone]
    exact ⟨nofun, nofun⟩

theorem quotePlus_isSome {text : Text} : (quotePlus text).isSome = true ↔ plainText text = true := by
  rw [quotePlus, Option.isSome_map, plainText_iff]
  cases hbytes : encodeUtf8 text with
  | none =>
      obtain ⟨c, hc, hs⟩ := encodeUtf8_eq_none.mp hbytes
      simp only [Option.isSome_none, Bool.false_eq_true, false_iff]
      intro hall
      rw [hall c hc] at hs
      cases hs
  | some bytes =>
      simp only [Option.isSome_some, true_iff]
      exact (encodeUtf8_eq_some.mp hbytes).1

theorem strValue_ok {element : JsonValue} {text : Text} (h : strValue library element = .ok text) :
    text = elementText library element := by
  unfold strValue at h
  split at h
  · exact (Except.ok.inj h).symm
  · rename_i hne
    split at h
    · rename_i chars hchars
      have helement : elementText library element = pointsOf chars := by
        unfold elementText
        split
        · rename_i text
          exact absurd rfl (hne text)
        · rw [hchars, Option.getD_some]
      rw [helement]
      exact (Except.ok.inj h).symm
    · cases h

theorem encodeField_ok {name : List UInt8} {key : Text} {element : JsonValue} {field : List UInt8}
    (hname : quotePlus key = some name) (h : encodeField library name element = .ok field) :
    FieldOf field (key, elementText library element) := by
  obtain ⟨text, htext, hquote⟩ := bind_ok h
  obtain ⟨value, hvalue, hfield⟩ := bind_ok hquote
  rw [strValue_ok htext] at hvalue
  exact ⟨name, value, hname, quoteText_ok.mp hvalue, (Except.ok.inj hfield).symm⟩

theorem encodeItem_ok {item : Text × JsonValue} {fields : List (List UInt8)}
    (h : encodeItem library item = .ok fields) :
    List.Forall₂ FieldOf fields ((formValues item.2).map fun element =>
      (item.1, elementText library element)) := by
  obtain ⟨name, hname, hmap⟩ := bind_ok h
  have hfields := forall₂_of_mapM_ok hmap
  rw [List.forall₂_map_right_iff]
  exact (hfields.imp fun _ _ hfield => encodeField_ok (quoteText_ok.mp hname) hfield).flip

theorem fields_flatten {payload : Payload} {fields : List (List (List UInt8))}
    (h : payload.mapM (encodeItem library) = .ok fields) :
    List.Forall₂ FieldOf fields.flatten (formPairs library payload) := by
  have hitems := forall₂_of_mapM_ok h
  clear h
  induction hitems with
  | nil => exact .nil
  | cons hitem _ ih => exact List.rel_append (encodeItem_ok hitem) ih

end Fields

section Parsing

theorem not_mem_points {bytes : List UInt8} {b : UInt8} (h : b ∉ bytes) :
    pointOf b ∉ bytes.map pointOf := by
  intro hmem
  obtain ⟨c, hc, heq⟩ := List.mem_map.mp hmem
  have hval := congrArg Fin.val heq
  rw [pointOf_val, pointOf_val] at hval
  rw [UInt8.toNat_inj.mp hval] at hc
  exact h hc

-- The one pair of a field.
theorem fieldOf_parts {field : List UInt8} {pair : Text × Text} (h : FieldOf field pair) :
    (38 : UInt8) ∉ field ∧ field ≠ [] ∧
      (unquotePlus (partitionEquals (field.map pointOf)).1,
        unquotePlus (partitionEquals (field.map pointOf)).2) = pair := by
  obtain ⟨name, value, hname, hvalue, rfl⟩ := h
  obtain ⟨hnames, hname⟩ := quotePlus_spec hname
  obtain ⟨hvalues, hvalue⟩ := quotePlus_spec hvalue
  have hequals : codePoint '=' ∉ name.map pointOf := not_mem_points (b := 61) fun hmem =>
    (hnames 61 hmem).2.2 rfl
  refine ⟨?_, by simp, ?_⟩
  · intro hmem
    obtain hmem | hmem := List.mem_append.mp hmem
    · exact (hnames 38 hmem).2.1 rfl
    · obtain hmem | hmem := List.mem_cons.mp hmem
      · revert hmem
        decide
      · exact (hvalues 38 hmem).2.1 rfl
  · rw [List.map_append, List.map_cons, show pointOf 61 = codePoint '=' from rfl,
      partitionEquals_append hequals, hname,
      hvalue]

theorem parse_fields {fields : List (List UInt8)} {pairs : List (Text × Text)}
    (h : List.Forall₂ FieldOf fields pairs) :
    parseQsl (([38].intercalate fields).map pointOf) = pairs := by
  induction h with
  | nil => rfl
  | @cons field pair fields pairs hfield hrest ih =>
      obtain ⟨hampersand, hne, hpair⟩ := fieldOf_parts hfield
      have hpart : field.map pointOf ≠ [] := by simpa using hne
      have hseparator : codePoint '&' ∉ field.map pointOf := not_mem_points (b := 38) hampersand
      cases hrest with
      | nil =>
          rw [show [(38 : UInt8)].intercalate [field] = field by simp [List.intercalate], parseQsl,
            splitOn_last hseparator]
          simp [hne, hpair]
      | @cons next pair' fields pairs hnext hrest =>
          have hjoin : [(38 : UInt8)].intercalate (field :: next :: fields) =
              field ++ 38 :: [38].intercalate (next :: fields) := by
            simp [List.intercalate]
          rw [hjoin, List.map_append, List.map_cons, show pointOf 38 = codePoint '&' from rfl, parseQsl,
            splitOn_append hseparator, List.filter_cons_of_pos (by simpa using hne), List.map_cons, hpair]
          exact congrArg (pair :: ·) ih

end Parsing

section Encoding

variable {library : Library}

theorem quoteText_isOk {text : Text} : (∃ quoted, quoteText text = .ok quoted) ↔ plainText text = true := by
  rw [← quotePlus_isSome, Option.isSome_iff_exists]
  exact exists_congr fun _ => quoteText_ok

-- The text of a value that is no string is within ASCII or printable: only the depth matters.
theorem strValue_isOk {element : JsonValue} (hne : ∀ text, element ≠ .str text) :
    (∃ text, strValue library element = .ok text ∧ plainText text = true) ↔
      element.depth ≤ library.limit := by
  have hstr : strValue library element = (reprValue library.printable library.limit element).elim
      (.error .recursion) fun chars => .ok (pointsOf chars) := by
    unfold strValue
    split
    · exact absurd rfl (hne _)
    · cases reprValue library.printable library.limit element <;> rfl
  rw [hstr, ← reprValue_isSome]
  cases reprValue library.printable library.limit element with
  | none => simp
  | some chars => exact ⟨fun _ => rfl, fun _ => ⟨pointsOf chars, rfl, plainText_pointsOf chars⟩⟩

theorem encodeField_isOk {name : List UInt8} {element : JsonValue} :
    (∃ field, encodeField library name element = .ok field) ↔
      ¬ ((∃ text, element = .str text ∧ plainText text = false) ∨ library.limit < element.depth) := by
  have hsteps : (∃ field, encodeField library name element = .ok field) ↔
      ∃ text, strValue library element = .ok text ∧ plainText text = true := by
    constructor
    · rintro ⟨field, h⟩
      obtain ⟨text, htext, hquote⟩ := bind_ok h
      obtain ⟨quoted, hquoted, -⟩ := bind_ok hquote
      exact ⟨text, htext, quoteText_isOk.mp ⟨quoted, hquoted⟩⟩
    · rintro ⟨text, htext, hplain⟩
      obtain ⟨quoted, hquoted⟩ := quoteText_isOk.mpr hplain
      refine ⟨name ++ 61 :: quoted, ?_⟩
      rw [encodeField, htext]
      exact congrArg (· >>= fun quoted => .ok (name ++ 61 :: quoted)) hquoted
  rw [hsteps]
  by_cases hstr : ∃ text, element = .str text
  · obtain ⟨text, rfl⟩ := hstr
    have hdepth : (JsonValue.str text).depth = 0 := by simp [JsonValue.depth]
    rw [hdepth]
    constructor
    · rintro ⟨other, hother, hplain⟩ (⟨same, hsame, hfalse⟩ | hlimit)
      · obtain rfl := Except.ok.inj hother
        obtain rfl := JsonValue.str.inj hsame
        rw [hplain] at hfalse
        cases hfalse
      · omega
    · intro hnone
      refine ⟨text, rfl, ?_⟩
      by_contra hplain
      exact hnone (.inl ⟨text, rfl, Bool.not_eq_true _ ▸ hplain⟩)
  · have hne : ∀ text, element ≠ .str text := fun text heq => hstr ⟨text, heq⟩
    rw [strValue_isOk hne]
    constructor
    · rintro hle (⟨text, heq, -⟩ | hlimit)
      · exact hne text heq
      · omega
    · exact fun hnone => Nat.le_of_not_lt fun hlimit => hnone (.inr hlimit)

theorem encodeItem_isOk {item : Text × JsonValue} : (∃ fields, encodeItem library item = .ok fields) ↔
    ¬ (plainText item.1 = false ∨ ∃ element ∈ formValues item.2,
      (∃ text, element = .str text ∧ plainText text = false) ∨ library.limit < element.depth) := by
  have hsteps : (∃ fields, encodeItem library item = .ok fields) ↔ plainText item.1 = true ∧
      ∀ element ∈ formValues item.2, ∀ name, ∃ field, encodeField library name element = .ok field := by
    constructor
    · rintro ⟨fields, h⟩
      obtain ⟨name, hname, hfields⟩ := bind_ok h
      refine ⟨quoteText_isOk.mp ⟨name, hname⟩, fun element helement other => ?_⟩
      have hfield := mapM_isOk.mp ⟨fields, hfields⟩ element helement
      exact encodeField_isOk.mpr (encodeField_isOk.mp hfield)
    · rintro ⟨hplain, hall⟩
      obtain ⟨name, hname⟩ := quoteText_isOk.mpr hplain
      obtain ⟨fields, hfields⟩ := mapM_isOk.mpr fun element helement => hall element helement name
      refine ⟨fields, ?_⟩
      rw [encodeItem, hname]
      exact hfields
  rw [hsteps, not_or, Bool.not_eq_false]
  refine and_congr_right fun _ => ?_
  constructor
  · rintro hall ⟨element, helement, hbad⟩
    exact encodeField_isOk.mp (hall element helement []) hbad
  · exact fun hnone element helement name => encodeField_isOk.mpr fun hbad =>
      hnone ⟨element, helement, hbad⟩

-- `urlencode` raises exactly at these payloads, and otherwise its text is read as the pairs.
theorem urlencode_isOk {payload : Payload} :
    (∃ query, urlencode library payload = .ok query) ↔ ¬ Unencodable library payload := by
  have hsteps : (∃ query, urlencode library payload = .ok query) ↔
      ∃ fields, payload.mapM (encodeItem library) = .ok fields := by
    constructor
    · rintro ⟨query, h⟩
      obtain ⟨fields, hfields, -⟩ := bind_ok h
      exact ⟨fields, hfields⟩
    · rintro ⟨fields, hfields⟩
      refine ⟨[38].intercalate fields.flatten, ?_⟩
      rw [urlencode, hfields]
      rfl
  rw [hsteps, mapM_isOk]
  constructor
  · rintro hall ⟨item, hitem, hbad⟩
    exact encodeItem_isOk.mp (hall item hitem) hbad
  · exact fun hnone item hitem => encodeItem_isOk.mpr fun hbad => hnone ⟨item, hitem, hbad⟩

theorem parse_urlencode {payload : Payload} {query : List UInt8}
    (h : urlencode library payload = .ok query) :
    parseQsl (query.map pointOf) = formPairs library payload := by
  obtain ⟨fields, hfields, hquery⟩ := bind_ok h
  obtain rfl := Except.ok.inj hquery
  exact parse_fields (fields_flatten hfields)

end Encoding

section Requests

variable {V E : Type} {library : Library} {middleware : Middleware V E} {heap : Heap V}
    {address : Nat} {scope : Scope V}

-- The call by the payload that the query carries.
theorem call_carried (hscope : heap.scopes[address]? = some scope) (htype : scope.type = "http") :
    call library middleware heap address =
      match carried library middleware scope with
      | none => forward middleware heap address
      | some payload =>
          match urlencode library payload with
          | .error error => { calls := [], outcome := .error (.own error) }
          | .ok query => forward middleware (heap.expand scope payload query) heap.scopes.length := by
  unfold call carried
  rw [hscope]
  dsimp only
  rw [if_neg (not_not.mpr htype)]
  cases library.get (scope.queryString.getD []) middleware.paramName with
  | none => rfl
  | some encoded =>
      rw [Option.bind_some]
      dsimp only
      split_ifs with hempty
      · subst hempty
        rfl
      · cases decodeQueryParam library.loads encoded <;> rfl

theorem expanded {payload : Payload} {query : List UInt8} (h : urlencode library payload = .ok query) :
    Expanded library heap (heap.expand scope payload query) scope payload heap.scopes.length := by
  refine ⟨query, heap.states.length, Nat.le_refl _, Nat.le_refl _, ?_, ?_, parse_urlencode h⟩
  · simp [Heap.expand]
  · simp [Heap.expand]

theorem query_decode_iff (hscope : heap.scopes[address]? = some scope) (htype : scope.type = "http") :
    Delivered library middleware heap address scope (call library middleware heap address) ↔
      ¬ ∃ payload, carried library middleware scope = some payload ∧ Unencodable library payload := by
  rw [call_carried hscope htype]
  cases hcarried : carried library middleware scope with
  | none =>
      refine ⟨fun _ => nofun, fun _ => ?_⟩
      refine ⟨heap, address, rfl, rfl, List.prefix_refl _, List.prefix_refl _, fun _ => ⟨rfl, rfl⟩, ?_⟩
      intro payload hpayload
      rw [hcarried] at hpayload
      cases hpayload
  | some payload =>
      dsimp only
      have hsame : (∃ other, some payload = some other ∧ Unencodable library other) ↔
        Unencodable library payload :=
        ⟨fun ⟨_, heq, hbad⟩ => Option.some.inj heq ▸ hbad, fun hbad => ⟨payload, rfl, hbad⟩⟩
      rw [hsame, ← urlencode_isOk]
      cases hquery : urlencode library payload with
      | error error =>
          refine ⟨?_, nofun⟩
          rintro ⟨heap', target, hcalls, -⟩
          cases hcalls
      | ok query =>
          refine ⟨fun _ => ⟨query, rfl⟩, fun _ => ?_⟩
          refine ⟨_, _, rfl, rfl, List.prefix_append _ _, List.prefix_append _ _, ?_, ?_⟩
          · intro hnone
            rw [hcarried] at hnone
            cases hnone
          · intro other hother
            rw [hcarried] at hother
            obtain rfl := Option.some.inj hother
            exact expanded hquery

end Requests

-- A request whose parameter is a string, and one whose parameter is a lone surrogate.
section Examples

def lastValue (query : List UInt8) (name : Text) : Option Text :=
  (parseQsl (query.map pointOf)).reverse.lookup name

def smallLibrary : Library where
  get := lastValue
  loads := fun text =>
    if text = textOf "\x7b\"a\":\"b\"\x7d" then .ok (.dict [(textOf "a", .str (textOf "b"))])
    else if text = textOf "\x7b\"a\":\"\\ud800\"\x7d" then .ok (.dict [(textOf "a", .str [55296])])
    else .error .value
  printable := fun _ => true
  limit := 1000

def silentApp : Middleware Unit Empty where
  app := fun _ _ => .ok ()
  paramName := textOf "f"
  named := by decide

def request (query : String) : Scope Unit where
  type := "http"
  queryString := some (asciiBytes (textOf query))
  state := none
  others := fun _ => none

def requestHeap (query : String) : Heap Unit where
  scopes := [request query]
  states := []

theorem query_decode_string :
    Delivered smallLibrary silentApp (requestHeap "f=eyJhIjoiYiJ9") 0 (request "f=eyJhIjoiYiJ9")
      (call smallLibrary silentApp (requestHeap "f=eyJhIjoiYiJ9") 0) := by
  refine (query_decode_iff rfl rfl).mpr ?_
  rintro ⟨payload, hpayload, item, hitem, hbad⟩
  have hcarried : carried smallLibrary silentApp (request "f=eyJhIjoiYiJ9") =
    some [(textOf "a", .str (textOf "b"))] :=
    rfl
  rw [hcarried] at hpayload
  obtain rfl := Option.some.inj hpayload
  obtain rfl := List.mem_singleton.mp hitem
  obtain hkey | ⟨element, helement, hbad⟩ := hbad
  · exact absurd hkey (by decide)
  · obtain rfl := List.mem_singleton.mp helement
    obtain ⟨text, htext, hplain⟩ | hdepth := hbad
    · obtain rfl := JsonValue.str.inj htext
      exact absurd hplain (by decide)
    · exact absurd hdepth (by decide)

theorem query_decode_surrogate :
    ¬ Delivered smallLibrary silentApp (requestHeap "f=eyJhIjoiXHVkODAwIn0") 0 (request "f=eyJhIjoiXHVkODAwIn0")
      (call smallLibrary silentApp (requestHeap "f=eyJhIjoiXHVkODAwIn0") 0) := by
  have hraises : (call smallLibrary silentApp (requestHeap "f=eyJhIjoiXHVkODAwIn0") 0).calls = [] :=
    rfl
  rintro ⟨heap', target, hcalls, -⟩
  rw [hraises] at hcalls
  cases hcalls

end Examples

end Scaffold.Http
