import Scaffold.Worker.Executor

namespace Scaffold.Worker

open Queue (Bytes)

variable {D : Type} {config config' : ExecutorConfig D}

theorem failureId_eq (w : Received D) :
    failureId config w =
      config.uuid5 (failureText config.printable config.connection config.queue (identity config w)) := rfl

-- The three parts of the text can be read back from it.
theorem failureText_unique {printable : Char → Bool} {connection connection' queue queue' id id' : String}
    (h : failureText printable connection queue id = failureText printable connection' queue' id') :
    connection = connection' ∧ queue = queue' ∧ id = id' := by
  have hitems : ["queue-failure", connection, queue, id] = ["queue-failure", connection', queue', id'] :=
    Python.reprTuple_unique rfl h
  simpa using hitems

-- The text of a UUID is no `raw:` digest, which has letters that are not hexadecimal.
theorem uuidText_ne_raw (id : BitVec 128) (digest : String) : Python.uuidText id ≠ "raw:" ++ digest := by
  intro heq
  have hr : 'r' ∈ (Python.uuidText id).toList := by
    rw [heq, String.toList_append]
    exact List.mem_append_left _ (by decide)
  exact Python.not_mem_hexDigits (by decide) 32 id.toNat (Python.mem_uuidText hr (by decide))

theorem raw_injective {digest digest' : String} (h : "raw:" ++ digest = "raw:" ++ digest') :
    digest = digest' := by
  have hlist := congrArg String.toList h
  rw [String.toList_append, String.toList_append] at hlist
  exact String.toList_inj.mp (List.append_cancel_left hlist)

section Deliveries

variable {delivery delivery' : Delivery}

theorem identity_decoded {message : Queue.MessageEnvelope D}
    (h : config.decode delivery.payload = .ok message) :
    identity config (received config delivery) = Python.uuidText message.jobId := by
  simp [identity, received, h, Except.toOption]

theorem identity_undecoded {error : DecodeError} (h : config.decode delivery.payload = .error error) :
    identity config (received config delivery) = "raw:" ++ config.sha256 delivery.payload := by
  simp [identity, received, h, Except.toOption]

theorem failure_identity_injective :
    -- two executions hash the same text only for one connection, queue and identity
    (∀ printable connection connection' queue queue' id id',
      failureText printable connection queue id = failureText printable connection' queue' id' →
      connection = connection' ∧ queue = queue' ∧ id = id') ∧
    (∀ w, failureId config w =
      config.uuid5 (failureText config.printable config.connection config.queue (identity config w))) ∧
    -- a delivery whose envelope decodes shares its identity with none whose envelope does not
    (∀ delivery delivery' message error, config.decode delivery.payload = .ok message →
      config'.decode delivery'.payload = .error error →
      identity config (received config delivery) ≠ identity config' (received config' delivery')) ∧
    -- and two others share it only for the same bytes
    (∀ delivery delivery' error error', config.decode delivery.payload = .error error →
      config'.decode delivery'.payload = .error error' → config'.sha256 = config.sha256 →
      (config.sha256 delivery.payload = config.sha256 delivery'.payload →
        delivery.payload = delivery'.payload) →
      identity config (received config delivery) = identity config' (received config' delivery') →
      delivery.payload = delivery'.payload) := by
  refine ⟨fun _ _ _ _ _ _ _ h => failureText_unique h, fun w => failureId_eq w, ?_, ?_⟩
  · intro delivery delivery' message error hmessage herror
    rw [identity_decoded hmessage, identity_undecoded herror]
    exact uuidText_ne_raw _ _
  · intro delivery delivery' error error' herror herror' hsame hcollide h
    rw [identity_undecoded herror, identity_undecoded herror', hsame] at h
    exact hcollide (raw_injective h)

end Deliveries

-- Names with quotes, commas and parentheses that would be confused without the escapes, and two
-- payloads of which only one is an envelope.
def quotedPlace (connection queue : String) : ExecutorConfig Nat where
  connection := connection
  queue := queue
  decode payload :=
    if payload = [123] then .ok { jobId := 7, jobType := "a.b", jobVersion := 1, payload := [], enqueuedAt := 0 }
    else .error .invalidMessage
  sha256 payload := toString payload.length
  uuid5 _ := 0
  printable _ := true

theorem failure_identity_injective_quoted :
    failureText (fun _ => true) "main', 'a" "b" "x" ≠ failureText (fun _ => true) "main" "a', 'b" "x" ∧
      identity (quotedPlace "main', 'a" "b") (received (quotedPlace "main', 'a" "b") ⟨[123], false⟩) ≠
        identity (quotedPlace "main" "b") (received (quotedPlace "main" "b") ⟨[125], false⟩) := by
  obtain ⟨htext, -, hidentity, -⟩ :=
    @failure_identity_injective _ (quotedPlace "main', 'a" "b") (quotedPlace "main" "b")
  refine ⟨fun h => ?_, hidentity _ _ _ _ rfl rfl⟩
  exact absurd (htext _ _ _ _ _ _ _ h).1 (by decide)

end Scaffold.Worker
