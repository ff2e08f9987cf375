import Scaffold.Queue.Envelope

namespace Scaffold.Queue

open Python

section Codec

variable {loads : Bytes → Except LoadsError Unit} {parse : Bytes → Option EnvelopeData} {maxBytes : Int}
  {message : MessageEnvelope Datetime} {raw : Bytes}

theorem checkSize_error {error : EnvelopeError} (h : checkSize maxBytes raw = .error error) :
    error = .size := by
  unfold checkSize at h
  split_ifs at h
  exact (Except.error.inj h).symm

-- The parser's depth limit is the one failure that `encode` does not turn into its own error.
theorem encode_error {error : EnvelopeError} (h : encode loads maxBytes message = .error error) :
    error.isInvalidMessage = true ∨ loads message.payload = .error .recursionError ∧
      error = .recursion := by
  unfold encode at h
  split at h
  · obtain rfl := Except.error.inj h
    exact .inl rfl
  · rename_i hloads
    exact .inr ⟨hloads, (Except.error.inj h).symm⟩
  · dsimp only at h
    split_ifs at h
    · split at h
      · rename_i hsize
        obtain rfl := Except.error.inj h
        obtain rfl := checkSize_error hsize
        exact .inl rfl
      · cases h
    · obtain rfl := Except.error.inj h
      exact .inl rfl

theorem encode_recursion (h : loads message.payload = .error .recursionError) :
    encode loads maxBytes message = .error .recursion := by
  simp [encode, h]

theorem decode_error {error : EnvelopeError} (h : decode loads parse maxBytes raw = .error error) :
    error.isInvalidMessage = true := by
  have hdecode : ∀ {e : EnvelopeError},
    (.error .decode : Except EnvelopeError (MessageEnvelope Datetime)) = .error e →
      e.isInvalidMessage = true := by
    intro e he
    obtain rfl := Except.error.inj he
    rfl
  unfold decode at h
  split at h
  · rename_i hsize
    obtain rfl := Except.error.inj h
    obtain rfl := checkSize_error hsize
    rfl
  · split at h
    · exact hdecode h
    · split_ifs at h
      · split at h
        · exact hdecode h
        · split at h
          · exact hdecode h
          · cases h
      · exact hdecode h

theorem publishEnvelope_error {V : Type*} {d : Dispatcher V} {active : Bool}
    {publish : String → Bytes → Bool}
    {queue : Option String} {error : PublishError}
    (h : d.publishEnvelope loads maxBytes active publish message queue = .error error) :
    error.isQueueError = true ∨ ∃ inner, encode loads maxBytes message = .error inner ∧
      error = .envelope inner := by
  unfold Dispatcher.publishEnvelope at h
  split_ifs at h
  · split at h
    · obtain rfl := Except.error.inj h
      exact .inl rfl
    · split at h
      · rename_i inner hinner
        exact .inr ⟨inner, hinner, (Except.error.inj h).symm⟩
      · split_ifs at h
        obtain rfl := Except.error.inj h
        exact .inl rfl
  · obtain rfl := Except.error.inj h
    exact .inl rfl

theorem envelope_errors_iff {V : Type*} (d : Dispatcher V) (message : MessageEnvelope Datetime)
    (raw : Bytes) :
    ((∀ error, encode loads maxBytes message = .error error → error.isInvalidMessage = true) ∧
      (∀ error, decode loads parse maxBytes raw = .error error → error.isInvalidMessage = true) ∧
      (∀ active publish queue error,
        d.publishEnvelope loads maxBytes active publish message queue = .error error →
        error.isQueueError = true)) ↔
      loads message.payload ≠ .error .recursionError := by
  constructor
  · rintro ⟨hencode, -, -⟩ hdeep
    have hinvalid := hencode .recursion (encode_recursion hdeep)
    cases hinvalid
  · intro hshallow
    have hencode : ∀ error, encode loads maxBytes message = .error error →
      error.isInvalidMessage = true := by
      intro error herror
      exact (encode_error herror).resolve_right fun ⟨hdeep, _⟩ => hshallow hdeep
    refine ⟨hencode, fun error herror => decode_error herror, ?_⟩
    intro active publish queue error herror
    obtain hqueue | ⟨inner, hinner, rfl⟩ := publishEnvelope_error herror
    · exact hqueue
    · exact hencode inner hinner

end Codec

-- The deepest nesting of lists in a text, and a parser that gives up below a depth.
def listDepth (text : Bytes) : Nat :=
  (text.foldl (fun depths byte =>
    if byte = 91 then (depths.1 + 1, max depths.2 (depths.1 + 1))
    else if byte = 93 then (depths.1 - 1, depths.2)
    else depths) (0, 0)).2

def depthLimited (limit : Nat) (text : Bytes) : Except LoadsError Unit :=
  if limit < listDepth text then .error .recursionError else .ok ()

-- A payload that the parser is too shallow for.
def nestedMessage : MessageEnvelope Datetime where
  jobId := 7
  jobType := "app.jobs.Nested"
  jobVersion := 1
  payload := List.replicate 1001 91 ++ List.replicate 1001 93
  enqueuedAt := { wall := { year := 2025, month := 12, day := 31 } }

theorem nested_payload_raises :
    ¬ ∀ (message : MessageEnvelope Datetime) (error : EnvelopeError),
      encode (depthLimited 1000) 1048576 message = .error error → error.isInvalidMessage = true := by
  intro h
  have hdeep : depthLimited 1000 nestedMessage.payload = .error .recursionError := by decide +kernel
  have hinvalid := h nestedMessage .recursion (encode_recursion hdeep)
  cases hinvalid

end Scaffold.Queue
