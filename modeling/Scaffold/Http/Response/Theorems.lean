import Scaffold.Http.Response
import Scaffold.Raising

namespace Scaffold.Http

open Decimal (decimal decimal_injective decimal_length_le_iff)
open Python
open Raising (bind_ok)

section Codes

variable {builder other : ResponseCodeBuilder} {code next : CodeDefinition}

theorem statusText_eq {status : Nat} (h : IsStatus status) :
    statusText status = decimal status ∧ (decimal status).length = 3 := by
  have hlow : ¬ (decimal status).length ≤ 2 := by
    rw [decimal_length_le_iff (by decide)]
    have := h.1
    omega
  have hhigh : (decimal status).length ≤ 3 := by
    rw [decimal_length_le_iff (by decide)]
    have := h.2
    omega
  have hlength : (decimal status).length = 3 := by omega
  refine ⟨?_, hlength⟩
  rw [statusText, List.leftpad, hlength]
  rfl

theorem codePoint_injective : Function.Injective codePoint := by
  intro a b h
  have hval : a.toNat = b.toNat := Fin.mk.inj h
  exact Char.toNat_inj.mp hval

-- The parts of a full code have fixed lengths, so it tells the status, the service and the local code.
theorem build_injective (h : builder.build code = other.build next) :
    code.statusCode = next.statusCode ∧ builder.serviceCode = other.serviceCode ∧ code.code = next.code := by
  obtain ⟨htext, hlength⟩ := statusText_eq code.status
  obtain ⟨htext', hlength'⟩ := statusText_eq next.status
  rw [ResponseCodeBuilder.build, ResponseCodeBuilder.build, htext, htext', List.append_assoc,
    List.append_assoc] at h
  obtain ⟨hstatus, hrest⟩ := List.append_inj h (by simp [pointsOf, hlength, hlength'])
  obtain ⟨hservice, hcode⟩ := List.append_inj hrest (by rw [builder.digits.1, other.digits.1])
  exact ⟨decimal_injective (List.map_injective_iff.mpr codePoint_injective hstatus), hservice, hcode⟩

theorem CodeDefinition.ext (hcode : code.code = next.code) (hmessage : code.message = next.message)
    (hstatus : code.statusCode = next.statusCode) : code = next := by
  cases code
  cases next
  subst hcode hmessage hstatus
  rfl

end Codes

section Render

variable {framework : Framework} {builder : ResponseCodeBuilder} {requestId : Option Text}
  {code : CodeDefinition} {message : Option Text} {data : Option Dump} {headers : Option Headers}
  {response other : Response} {exception another : Thrown}

-- The payload of an error response.
def envelope (builder : ResponseCodeBuilder) (requestId : Option Text) (code : CodeDefinition)
    (message : Option Text) (data : Option Dump) : JsonResponse where
  code := builder.build code
  success := false
  message := message.getD code.message
  data := data
  requestId := requestId

theorem renderError_ok (h : renderError framework builder requestId code message data headers = .ok response) :
    400 ≤ code.statusCode ∧ response.statusCode = code.statusCode ∧
      ∃ content, (envelope builder requestId code message data).modelDump = .ok content ∧
        jsonRender framework content = .ok response.body := by
  unfold renderError JsonResponseFactory.error at h
  split_ifs at h with hlow
  · cases h
  · obtain ⟨payload, hpayload, h⟩ := bind_ok h
    obtain rfl := Except.ok.inj hpayload
    obtain ⟨content, hcontent, h⟩ := bind_ok h
    obtain ⟨body, hbody, h⟩ := bind_ok h
    obtain ⟨sent, -, h⟩ := bind_ok h
    obtain rfl := Except.ok.inj h
    exact ⟨by omega, rfl, content, hcontent, hbody⟩

-- Codes of server errors, which have nothing of their own but a status.
def Hidden (code : CodeDefinition) (message : Option Text) (data : Option Dump) : Prop :=
  500 ≤ code.statusCode → message = none ∧ data = none ∧ code.code = ErrorCode.internalError.code ∧
    code.message = ErrorCode.internalError.message

theorem hidden_of_lt (h : code.statusCode < 500) : Hidden code message data :=
  fun hge => absurd hge (by omega)

theorem hidden_internal : Hidden ErrorCode.internalError.definition none none :=
  fun _ => ⟨rfl, rfl, rfl, rfl⟩

theorem httpErrorCodes_spec : ∀ entry ∈ httpErrorCodes, entry.2.statusCode = entry.1 ∧
    (500 ≤ entry.1 → entry.2 = .internalError) := by
  decide

theorem resolveHttpErrorCode_ok {status : Nat} (h : resolveHttpErrorCode status = .ok code) :
    code.statusCode = status ∧ (500 ≤ status → code.code = ErrorCode.internalError.code ∧
      code.message = ErrorCode.internalError.message) := by
  unfold resolveHttpErrorCode at h
  split at h
  · rename_i entry hentry
    obtain rfl := Except.ok.inj h
    obtain ⟨before, after, hsplit, -⟩ := List.lookup_eq_some_iff.mp hentry
    have hmem : (status, entry) ∈ httpErrorCodes := by simp [hsplit]
    obtain ⟨hstatus, hinternal⟩ := httpErrorCodes_spec _ hmem
    refine ⟨hstatus, fun hge => ?_⟩
    obtain rfl := hinternal hge
    exact ⟨rfl, rfl⟩
  · dsimp only at h
    by_cases hrange : IsStatus status
    · rw [dif_pos hrange] at h
      obtain rfl := Except.ok.inj h
      refine ⟨rfl, fun hge => ?_⟩
      dsimp only
      rw [if_pos hge]
      exact ⟨rfl, rfl⟩
    · rw [dif_neg hrange] at h
      cases h

theorem resolveHttpExceptionContent_hidden {native : HTTPException} (h : 500 ≤ native.statusCode) :
    resolveHttpExceptionContent native = (none, none) :=
  if_pos h

-- What is rendered of an exception: the framework's own response, or an error response.
theorem renderException_cases (h : renderException framework builder requestId exception = .ok response) :
    (∃ native, exception.kind = .httpException native ∧ native.statusCode < 400 ∧
      framework.httpExceptionHandler native = .ok response) ∨
    ∃ code message data headers, Hidden code message data ∧
      renderError framework builder requestId code message data headers = .ok response := by
  unfold renderException at h
  split at h
  · rename_i error hkind
    unfold handleHttpError at h
    split_ifs at h with hge
    · exact .inr ⟨_, _, _, _, hidden_internal, h⟩
    · exact .inr ⟨_, _, _, _, hidden_of_lt (by omega), h⟩
  · exact .inr ⟨_, _, _, _, hidden_of_lt (by decide), h⟩
  · rename_i native hkind
    unfold handleHttpException at h
    split_ifs at h with hlow
    · exact .inl ⟨native, hkind, hlow, h⟩
    · obtain ⟨code, hcode, h⟩ := bind_ok h
      obtain ⟨hstatus, hinternal⟩ := resolveHttpErrorCode_ok hcode
      by_cases hge : 500 ≤ native.statusCode
      · rw [resolveHttpExceptionContent_hidden hge] at h
        exact .inr ⟨code, none, none, _, fun _ => ⟨rfl, rfl, hinternal hge⟩, h⟩
      · exact .inr ⟨code, _, _, _, hidden_of_lt (by omega), h⟩
  · exact .inr ⟨_, _, _, _, hidden_internal, h⟩

-- What the handlers rely on: the framework answers with the status of the exception, takes a response
-- without headers of its own, and lets JSON be nested at all.
structure Framework.Documented (framework : Framework) : Prop where
  status : ∀ native response, framework.httpExceptionHandler native = .ok response →
    response.statusCode = native.statusCode
  headers : ∀ status body, ∃ sent, framework.initHeaders status body none = .ok sent
  nested : 1 ≤ framework.limit

-- Two server errors of one status have one body.
theorem renderException_hides (hframework : framework.Documented)
    (h : renderException framework builder requestId exception = .ok response)
    (h' : renderException framework builder requestId another = .ok other)
    (hge : 500 ≤ response.statusCode) (hstatus : response.statusCode = other.statusCode) :
    response.body = other.body := by
  have key : ∀ {e : Thrown} {r : Response}, renderException framework builder requestId e = .ok r →
      500 ≤ r.statusCode → ∃ code content,
        (code.statusCode = r.statusCode ∧ code.code = ErrorCode.internalError.code ∧
          code.message = ErrorCode.internalError.message) ∧
        (envelope builder requestId code none none).modelDump = .ok content ∧
        jsonRender framework content = .ok r.body := by
    intro e r h hge
    obtain ⟨native, -, hlow, hanswer⟩ | ⟨code, message, data, headers, hhidden, h⟩ := renderException_cases h
    · rw [hframework.status native r hanswer] at hge
      omega
    · obtain ⟨-, hstatus, content, hcontent, hbody⟩ := renderError_ok h
      obtain ⟨rfl, rfl, hcode, hmessage⟩ := hhidden (by omega)
      exact ⟨code, content, ⟨hstatus.symm, hcode, hmessage⟩, hcontent, hbody⟩
  obtain ⟨code, content, ⟨hs, hc, hm⟩, hdump, hbody⟩ := key h hge
  obtain ⟨code', content', ⟨hs', hc', hm'⟩, hdump', hbody'⟩ := key h' (hstatus ▸ hge)
  obtain rfl := CodeDefinition.ext (hc.trans hc'.symm) (hm.trans hm'.symm) (hs.trans (hstatus.trans hs'.symm))
  obtain rfl := Except.ok.inj (hdump.symm.trans hdump')
  exact Except.ok.inj (hbody.symm.trans hbody')

-- An error of the server: whatever is raised there, but for what the framework and the endpoints raise
-- to answer the client.
def Thrown.isFault (exception : Thrown) : Bool :=
  match exception.kind with
  | .httpError error => 500 ≤ error.code.statusCode
  | .requestValidation _ | .httpException _ => false
  | _ => true

theorem renderException_fault (h : exception.isFault = true) :
    renderException framework builder requestId exception =
      renderError framework builder requestId ErrorCode.internalError.definition none none none := by
  unfold Thrown.isFault at h
  unfold renderException
  cases hkind : exception.kind with
  | httpError error =>
      rw [hkind] at h
      exact if_pos (of_decide_eq_true h)
  | requestValidation errors =>
      rw [hkind] at h
      cases h
  | httpException native =>
      rw [hkind] at h
      cases h
  | cancelled | interrupt | rateLimitUnavailable | other => rfl

theorem plainText_digits {count : Nat} {text : Text} (h : IsDigits count text) : plainText text = true := by
  refine plainText_iff.mpr fun c hc => ?_
  have hdigit := List.all_eq_true.mp h.2 c hc
  unfold mayBeDigit at hdigit
  rw [Bool.or_eq_true] at hdigit
  obtain hother | hascii := hdigit
  · simpa using (Bool.and_eq_true_iff.mp hother).2
  · have hlow : c.val < 58 := of_decide_eq_true (Bool.and_eq_true_iff.mp hascii).2
    exact decide_eq_false (by omega)

theorem plainText_build (builder : ResponseCodeBuilder) (code : CodeDefinition) :
    plainText (builder.build code) = true :=
  plainText_append (plainText_append (plainText_pointsOf _) (plainText_digits builder.digits))
    (plainText_digits code.digits)

theorem jsonRender_ok {content : JsonValue} (hnested : content.depth ≤ framework.limit)
    (hfinite : finiteValue content = true) (hplain : content.plain = true) :
    ∃ body, jsonRender framework content = .ok body := by
  have hseparator : ∀ text : String, plainText (textOf text) = true := fun text => plainText_pointsOf _
  have htext := plainText_dumps (hseparator ",") (hseparator ":") hplain
  have hbody := encodeUtf8_eq_some.mpr ⟨plainText_iff.mp htext, rfl⟩
  unfold jsonRender
  rw [if_neg (Nat.not_lt.mpr hnested), if_pos hfinite, hbody]
  exact ⟨_, rfl⟩

-- A standard error is always rendered.
theorem envelope_renders (hframework : framework.Documented)
    (hid : ∀ id, requestId = some id → plainText id = true) (c : ErrorCode) :
    ∃ content body, (envelope builder requestId c.definition none none).modelDump = .ok content ∧
      jsonRender framework content = .ok body := by
  have hkey : ∀ key : String, plainText (textOf key) = true := fun key => plainText_pointsOf _
  have hcode := plainText_build builder c.definition
  have hmessage : plainText c.definition.message = true := by
    cases c <;> exact plainText_pointsOf _
  have hcontent : ∃ content, (envelope builder requestId c.definition none none).modelDump = .ok content ∧
      content.depth ≤ 1 ∧ finiteValue content = true ∧ content.plain = true := by
    refine ⟨_, rfl, ?_⟩
    cases requestId with
    | none =>
        simp [JsonValue.depth, fieldsDepth, finiteValue, finiteFields, JsonValue.plain, plainFields, envelope,
          hkey, hcode, hmessage]
    | some id =>
        simp [JsonValue.depth, fieldsDepth, finiteValue, finiteFields, JsonValue.plain, plainFields, envelope,
          hkey, hcode, hmessage, hid id rfl]
  obtain ⟨content, hdump, hdepth, hfinite, hplain⟩ := hcontent
  obtain ⟨body, hbody⟩ := jsonRender_ok (hdepth.trans hframework.nested) hfinite hplain
  exact ⟨content, body, hdump, hbody⟩

-- An error of the server is always answered, with the fixed code and message.
theorem renderException_fault_ok (hframework : framework.Documented)
    (hid : ∀ id, requestId = some id → plainText id = true) (h : exception.isFault = true) :
    ∃ response, renderException framework builder requestId exception = .ok response ∧
      response.statusCode = 500 := by
  obtain ⟨content, body, hdump, hbody⟩ : ∃ content body,
      (envelope builder requestId ErrorCode.internalError.definition none none).modelDump = .ok content ∧
        jsonRender framework content = .ok body := envelope_renders hframework hid .internalError
  obtain ⟨sent, hsent⟩ := hframework.headers 500 body
  refine ⟨{ statusCode := 500, headers := sent, body := body }, ?_, rfl⟩
  have herror : JsonResponseFactory.error builder requestId ErrorCode.internalError.definition none none =
      .ok (envelope builder requestId ErrorCode.internalError.definition none none) :=
    if_neg (by decide)
  rw [renderException_fault h]
  simp only [renderError, starletteJsonResponse, herror, hdump, hbody, Except.bind, bind]
  rw [show framework.initHeaders ErrorCode.internalError.definition.statusCode body none = _ from hsent]
  rfl

-- Errors of the server are always answered, and an answer tells the client nothing of one but its status.
theorem renderException_sealed (hframework : framework.Documented)
    (hid : ∀ id, requestId = some id → plainText id = true) :
    (∀ exception, exception.isFault = true → ∃ response,
      renderException framework builder requestId exception = .ok response ∧ response.statusCode = 500) ∧
    (∀ exception another response other, renderException framework builder requestId exception = .ok response →
      renderException framework builder requestId another = .ok other →
      500 ≤ response.statusCode → response.statusCode = other.statusCode → response.body = other.body) ∧
    ∀ code next : CodeDefinition, builder.build code = builder.build next →
      code.statusCode = next.statusCode ∧ code.code = next.code :=
  ⟨fun _ hfault => renderException_fault_ok hframework hid hfault,
    fun _ _ _ _ h h' hge hstatus => renderException_hides hframework h h' hge hstatus,
    fun _ _ h => ⟨(build_injective h).1, (build_injective h).2.2⟩⟩

end Render

-- Starlette's answers that have no headers of their own, and to an exception no body.
def plainFramework : Framework where
  initHeaders _ body headers := .ok (headers.getD [] ++
    [(textOf "content-length", pointsOf (decimal body.length)), (textOf "content-type", textOf "application/json")])
  httpExceptionHandler exception :=
    .ok { statusCode := exception.statusCode, headers := exception.headers.getD [], body := [] }
  limit := 200

theorem plainFramework_documented : plainFramework.Documented where
  status := by
    rintro native response h
    obtain rfl := Except.ok.inj h
    rfl
  headers _ _ := ⟨_, rfl⟩
  nested := by decide

def service : ResponseCodeBuilder where
  serviceCode := pointsOf ['0', '0', '1']
  digits := by decide

def nativeError (detail : Text) : Thrown where
  type := { module := "starlette.exceptions", qualname := "HTTPException", name := "HTTPException" }
  kind := .httpException { statusCode := 500, detail := .text detail, headers := none }

-- A programming error and a native exception with a detail have one body.
theorem renderException_sealed_detail : ∃ response other,
    renderException plainFramework service none (.ofType valueError) = .ok response ∧
      renderException plainFramework service none (nativeError (textOf "secret")) = .ok other ∧
      response.statusCode = 500 ∧ response.body = other.body := by
  obtain ⟨hfault, hhides, -⟩ := @renderException_sealed plainFramework service none plainFramework_documented nofun
  obtain ⟨response, hresponse, hstatus⟩ := hfault (.ofType valueError) rfl
  have hother : renderException plainFramework service none (nativeError (textOf "secret")) = .ok response :=
    hresponse
  exact ⟨response, response, hresponse, hother, hstatus, hhides _ _ _ _ hresponse hother (by omega) rfl⟩

end Scaffold.Http
