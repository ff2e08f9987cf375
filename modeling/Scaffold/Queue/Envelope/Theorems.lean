import Scaffold.Queue.Envelope
import Mathlib.Data.List.Nodup

namespace Scaffold.Queue

open Decimal Python

section Codec

variable {loads : Bytes → Except LoadsError Unit} {parse : Bytes → Option EnvelopeData}
    {maxBytes limit : Int}
  {message : MessageEnvelope Datetime} {raw : Bytes} {data : EnvelopeData}

theorem checkSize_eq_ok : checkSize maxBytes raw = .ok () ↔ (raw.length : Int) ≤ maxBytes := by
  unfold checkSize
  split
  · simp
    omega
  · simp
    omega

-- What `encode` accepts, and what it gives.
theorem encode_eq_ok : encode loads maxBytes message = .ok raw ↔
    loads message.payload = .ok () ∧ (envelopeData message).valid = true ∧
      raw = dumpJson (envelopeData message) ∧ (raw.length : Int) ≤ maxBytes := by
  unfold encode
  constructor
  · intro h
    split at h
    · cases h
    · cases h
    · rename_i hloads
      dsimp only at h
      split_ifs at h with hvalid
      split at h
      · cases h
      · rename_i hsize
        obtain rfl := Except.ok.inj h
        exact ⟨hloads, hvalid, rfl, checkSize_eq_ok.mp hsize⟩
  · rintro ⟨hloads, hvalid, rfl, hsize⟩
    simp only [hloads, hvalid, if_true, checkSize_eq_ok.mpr hsize]

-- What `decode` accepts, and what it gives.
theorem decode_eq_ok : decode loads parse maxBytes raw = .ok message ↔
    (raw.length : Int) ≤ maxBytes ∧ ∃ data, parse raw = some data ∧ data.valid = true ∧
      b64decode data.payload.toList = some message.payload ∧ loads message.payload = .ok () ∧
      envelopeData message =
        { data with schemaVersion := 2, payload := .ofList (b64encode message.payload) } := by
  unfold decode
  constructor
  · intro h
    split at h
    · cases h
    · rename_i hsize
      split at h
      · cases h
      · rename_i data hparse
        split_ifs at h with hvalid
        split at h
        · cases h
        · rename_i payload hpayload
          split at h
          · cases h
          · rename_i hloads
            obtain rfl := Except.ok.inj h
            exact ⟨checkSize_eq_ok.mp hsize, data, hparse, hvalid, hpayload, hloads, rfl⟩
  · rintro ⟨hsize, data, hparse, hvalid, hpayload, hloads, hdata⟩
    simp only [checkSize_eq_ok.mpr hsize, hparse, hvalid, if_true, hpayload, hloads]
    obtain ⟨jobId, jobType, jobVersion, payload, enqueuedAt, correlationId, replayOf⟩ := message
    simp only [envelopeData, EnvelopeData.mk.injEq] at hdata
    obtain ⟨-, rfl, rfl, rfl, -, rfl, rfl, rfl⟩ := hdata
    rfl

-- All that is asked of the parser is that it reads this envelope.
theorem decode_encode
    (hparse : parse (dumpJson (envelopeData message)) = some (envelopeData message))
    (h : encode loads maxBytes message = .ok raw) : decode loads parse maxBytes raw = .ok message := by
  obtain ⟨hloads, hvalid, rfl, hsize⟩ := encode_eq_ok.mp h
  refine decode_eq_ok.mpr ⟨hsize, envelopeData message, hparse, hvalid, ?_, hloads, rfl⟩
  rw [envelopeData, String.toList_ofList, b64decode_b64encode]

theorem decode_encode_error (hparse : parse (dumpJson (envelopeData message)) = none)
    (h : encode loads maxBytes message = .ok raw) : decode loads parse maxBytes raw = .error .decode := by
  obtain ⟨-, -, rfl, hsize⟩ := encode_eq_ok.mp h
  simp only [decode, checkSize_eq_ok.mpr hsize, hparse]

-- A decoded message is one that `encode` accepts, whatever the spelling of its JSON was.
theorem encode_decode (h : decode loads parse maxBytes raw = .ok message)
    (hlimit : ((dumpJson (envelopeData message)).length : Int) ≤ limit) :
    encode loads limit message = .ok (dumpJson (envelopeData message)) := by
  obtain ⟨-, data, -, hvalid, -, hloads, hdata⟩ := decode_eq_ok.mp h
  refine encode_eq_ok.mpr ⟨hloads, ?_, rfl, hlimit⟩
  rw [hdata]
  simp only [EnvelopeData.valid, decide_eq_true_eq] at hvalid ⊢
  exact ⟨⟨Int.le_refl _, Int.le_refl _⟩, hvalid.2⟩

theorem envelope_roundtrip (hparse : ∀ d : EnvelopeData, d.valid = true → parse (dumpJson d) = some d) :
    (∀ maxBytes message raw, encode loads maxBytes message = .ok raw →
      decode loads parse maxBytes raw = .ok message) ∧
    (∀ maxBytes message raw, decode loads parse maxBytes raw = .ok message →
      ∃ enough, ∀ limit, enough ≤ limit →
        ∃ raw', encode loads limit message = .ok raw' ∧ decode loads parse limit raw' = .ok message) ∧
    (∀ message, (∃ maxBytes raw, encode loads maxBytes message = .ok raw) ↔
      ∃ maxBytes raw, decode loads parse maxBytes raw = .ok message) := by
  have hdecode : ∀ maxBytes message raw, encode loads maxBytes message = .ok raw →
      decode loads parse maxBytes raw = .ok message :=
    fun _ _ _ h => decode_encode (hparse _ (encode_eq_ok.mp h).2.1) h
  refine ⟨hdecode, ?_, ?_⟩
  · intro maxBytes message raw h
    refine ⟨(dumpJson (envelopeData message)).length, fun limit hlimit => ?_⟩
    have hencode := encode_decode h hlimit
    exact ⟨_, hencode, hdecode _ _ _ hencode⟩
  · intro message
    constructor
    · rintro ⟨maxBytes, raw, h⟩
      exact ⟨maxBytes, raw, hdecode _ _ _ h⟩
    · rintro ⟨maxBytes, raw, h⟩
      exact ⟨_, _, encode_decode h (Int.le_refl _)⟩

end Codec

section Dump

-- A number in an object ends at the comma before the next key.
theorem decimal_jsonFields_injective {m n : Nat} {name name' : String} {v w : List Char}
    {rest rest' : List (String × List Char)}
    (h : decimal m ++ jsonFields ((name, v) :: rest) = decimal n ++ jsonFields ((name', w) :: rest')) :
    m = n ∧ jsonFields ((name, v) :: rest) = jsonFields ((name', w) :: rest') := by
  obtain ⟨hmn, hrest⟩ := decimal_append_injective (by decide) h
  exact ⟨hmn, congrArg (List.cons ',') hrest⟩

-- The JSON of valid data determines the data, so there are parsers that invert it.
theorem dumpJson_injective {a b : EnvelopeData} (ha : a.valid = true) (hb : b.valid = true)
    (h : dumpJson a = dumpJson b) : a = b := by
  obtain ⟨schemaA, jobIdA, typeA, versionA, payloadA, ⟨wallA, zoneA⟩, correlationA, replayA⟩ := a
  obtain ⟨schemaB, jobIdB, typeB, versionB, payloadB, ⟨wallB, zoneB⟩, correlationB, replayB⟩ := b
  simp only [EnvelopeData.valid, decide_eq_true_eq] at ha hb
  obtain ⟨hschemaA, -, hversionA, -, rfl, -⟩ := ha
  obtain ⟨hschemaB, -, hversionB, -, rfl, -⟩ := hb
  obtain rfl : schemaA = 2 := by omega
  obtain rfl : schemaB = 2 := by omega
  obtain ⟨versionA, rfl⟩ := Int.eq_ofNat_of_zero_le (by omega : 0 ≤ versionA)
  obtain ⟨versionB, rfl⟩ := Int.eq_ofNat_of_zero_le (by omega : 0 ≤ versionB)
  have h := utf8_injective h
  simp only [jsonObject, List.cons_append, List.cons.injEq, true_and] at h
  have h := jsonFields_cons_injective (List.append_cancel_left h)
  obtain ⟨hid, h⟩ := jsonString_append_injective h
  obtain ⟨htype, h⟩ := jsonString_append_injective (jsonFields_cons_injective h)
  have h := jsonFields_cons_injective h
  simp only [integerText_natCast] at h
  obtain ⟨hversion, h⟩ := decimal_jsonFields_injective h
  obtain ⟨hpayload, h⟩ := jsonString_append_injective (jsonFields_cons_injective h)
  obtain ⟨htime, h⟩ := jsonString_append_injective (jsonFields_cons_injective h)
  obtain ⟨hcorrelation, h⟩ := jsonOption_append_injective (jsonFields_cons_injective h)
  obtain ⟨hreplay, -⟩ := jsonOption_append_injective (jsonFields_cons_injective h)
  obtain rfl := uuidText_injective (String.toList_injective hid)
  obtain rfl := String.toList_injective htype
  obtain rfl := hversion
  obtain rfl := String.toList_injective hpayload
  obtain rfl := NaiveDatetime.isoformat_injective htime
  obtain rfl := Option.map_injective (fun _ _ => String.toList_injective) hcorrelation
  obtain rfl := Option.map_injective (fun _ _ h => uuidText_injective (String.toList_injective h)) hreplay
  rfl

theorem plain_isoformat (time : NaiveDatetime) : ∀ c ∈ time.isoformat, plain c = true := by
  have hclock : ∀ c ∈ time.clock, plain c = true := by
    intro c hc
    simp only [NaiveDatetime.clock, List.mem_append, List.mem_cons] at hc
    rcases hc with (((((h | rfl | h) | rfl | h) | rfl | h) | rfl | h) | rfl | h)
    all_goals first
      | exact plain_paddedDecimal c h
      | decide
  intro c hc
  unfold NaiveDatetime.isoformat at hc
  split at hc
  · exact hclock c hc
  · rcases List.mem_append.mp hc with hc | hc
    · exact hclock c hc
    · rcases List.mem_cons.mp hc with rfl | hc
      · decide
      · exact plain_paddedDecimal c hc

theorem utf8_jsonString_isoformat (time : NaiveDatetime) :
    (utf8 (jsonString time.isoformat)).length = timeWidth time := by
  rw [utf8_jsonString_plain (plain_isoformat time), NaiveDatetime.isoformat_length, timeWidth]
  split <;> rfl

theorem utf8_replayOf (replayOf : Option Uuid) :
    (utf8 (jsonOption (replayOf.map fun id => (uuidText id).toList))).length = replayWidth replayOf := by
  cases replayOf with
  | none => decide
  | some id => exact utf8_jsonString_uuid id

-- A replay changes the width of the time and of `replay_of`.
theorem dumpJson_replayed_length (message : MessageEnvelope Datetime) (failureId newId : Uuid)
    (now : NaiveDatetime) :
    (dumpJson (envelopeData (replayed message failureId newId now))).length +
        timeWidth message.enqueuedAt.wall + replayWidth message.replayOf =
      (dumpJson (envelopeData message)).length + timeWidth now + replayWidth (some failureId) := by
  have hobject : ∀ (name : String) (value : List Char) (rest : List (String × List Char)),
      (utf8 (jsonObject name value rest)).length =
        (utf8 ('\x7b' :: jsonField name value)).length + (utf8 (jsonFields rest)).length := by
    intro name value rest
    rw [jsonObject, utf8_append, List.length_append]
  simp only [dumpJson, envelopeData, replayed, hobject, utf8_jsonFields_cons, utf8_jsonString_isoformat,
    utf8_replayOf, utf8_jsonString_uuid]
  omega

end Dump

section Replay

variable {loads : Bytes → Except LoadsError Unit} {parse : Bytes → Option EnvelopeData} {maxBytes : Int}
  {message : MessageEnvelope Datetime} {raw : Bytes}

theorem valid_replayed (failureId newId : Uuid) (now : NaiveDatetime)
    (h : (envelopeData message).valid = true) :
    (envelopeData (replayed message failureId newId now)).valid = true := by
  obtain ⟨hschema, htype, hversion, hcorrelation, -, hblank⟩ := of_decide_eq_true h
  exact decide_eq_true ⟨hschema, htype, hversion, hcorrelation, rfl, hblank⟩

theorem encode_replayed_iff (failureId newId : Uuid) (now : NaiveDatetime)
    (h : encode loads maxBytes message = .ok raw) :
    encode loads maxBytes (replayed message failureId newId now) =
        .ok (dumpJson (envelopeData (replayed message failureId newId now))) ↔
      (raw.length + timeWidth now + replayWidth (some failureId) : Int) ≤
        maxBytes + timeWidth message.enqueuedAt.wall + replayWidth message.replayOf := by
  obtain ⟨hloads, hvalid, rfl, hsize⟩ := encode_eq_ok.mp h
  have hlength := dumpJson_replayed_length message failureId newId now
  rw [encode_eq_ok]
  constructor
  · rintro ⟨-, -, -, hfits⟩
    omega
  · intro hfits
    exact ⟨hloads, valid_replayed failureId newId now hvalid, rfl, by omega⟩

variable {J F V C T : Type*} [DecidableEq V] [DecidableEq C] {settings : QueueSettings}

-- A record is replayed if its message can be read again and has room for the new time and for its
-- `replay_of`.
theorem replay_republishes_iff
    (hparse : ∀ d : EnvelopeData, d.valid = true → d.jobVersion < versionLimit → parse (dumpJson d) = some d)
    (hlarge : ∀ d : EnvelopeData, d.valid = true → versionLimit ≤ d.jobVersion → parse (dumpJson d) = none)
    (h : encode loads maxBytes message = .ok raw) (record : FailedJobRecord Datetime F)
    (hpayload : record.payload = raw) (hname : record.connection ∈ settings.names)
    (hqueue : validateQueueName record.queue = some record.queue) (newId : Uuid) (now : NaiveDatetime)
    (encodeJob : J → Option (String × Int × Bytes)) (isQueueError : Nat → Bool) :
    -- the call decodes the record and gets the backend for the replayed message, or it raises
    (∀ (t : T) (s : ManagerState V C T) (l : CallState J Datetime V C), s.closed = false →
      l.call = .finding newId { wall := now } →
      callStep settings (envelopeCodecs loads parse maxBytes encodeJob isQueueError) t s l
          (.findReturns (some record)) =
        if message.jobVersion < versionLimit then
          startGet settings (envelopeCodecs loads parse maxBytes encodeJob isQueueError) t s l
            record.connection (.replay (replayed message record.failureId newId now) record.queue)
        else some (raise s l .badMessage)) ∧
    -- and once it has the backend of an open manager
    (∀ (act : Resources.Act String V) (s : ManagerState V C T) (l : CallState J Datetime V C)
      (name : String)
      (backend : V), s.closed = false →
      l.call = .getting record.connection (.replay (replayed message record.failureId newId now) record.queue) →
      l.lazy.task = .done (.value name backend) →
      ((∃ raw', resume settings (envelopeCodecs loads parse maxBytes encodeJob isQueueError) act s l =
          ({ s with publishes := s.publishes ++ [(backend, record.queue, raw')] },
            { l with call := .publishing }) ∧
          decode loads parse maxBytes raw' = .ok (replayed message record.failureId newId now)) ↔
        message.jobVersion < versionLimit ∧
        (raw.length + timeWidth now + replayWidth (some record.failureId) : Int) ≤
          maxBytes + timeWidth message.enqueuedAt.wall + replayWidth message.replayOf)) := by
  have hvalid := (encode_eq_ok.mp h).2.1
  have hiff := encode_replayed_iff record.failureId newId now h
  refine ⟨?_, ?_⟩
  · intro t s l hopen hcall
    have hresolve : resolveName settings s (some record.connection) = .ok record.connection := by
      simp [resolveName, hopen, hname]
    split_ifs with hversion
    · have hdecode := decode_encode (hparse _ hvalid hversion) h
      simp only [callStep, hcall, envelopeCodecs, hpayload, hdecode, Except.toOption, hresolve]
      rfl
    · have hdecode := decode_encode_error (hlarge _ hvalid (Int.not_lt.mp hversion)) h
      simp only [callStep, hcall, envelopeCodecs, hpayload, hdecode, Except.toOption]
  · intro act s l name backend hopen hcall hlazy
    rw [← hiff]
    simp only [resume, hcall, hlazy, continueGet, publishEnvelope, hopen, Option.getD_some, hqueue,
      envelopeCodecs]
    cases hencode : encode loads maxBytes (replayed message record.failureId newId now) with
    | error error =>
        constructor
        · rintro ⟨raw', hpublish, -⟩
          simp [Except.toOption, raise] at hpublish
        · rintro ⟨-, hok⟩
          cases hok
    | ok raw' =>
        obtain ⟨-, hvalid', hraw, -⟩ := encode_eq_ok.mp hencode
        constructor
        · rintro ⟨raw'', hpublish, hdecode⟩
          refine ⟨?_, by rw [hraw]⟩
          -- what was published is read back, so its version is one of those that are read
          by_contra hversion
          have herror := decode_encode_error (hlarge _ hvalid' (Int.not_lt.mp hversion)) hencode
          obtain rfl : raw' = raw'' := by
            simpa [Except.toOption] using congrArg (fun next => next.1.publishes) hpublish
          rw [herror] at hdecode
          cases hdecode
        · rintro ⟨hversion, -⟩
          exact ⟨raw', rfl, decode_encode (hparse _ hvalid' hversion) hencode⟩

end Replay

-- A parser that inverts `dumpJson` on valid data.
noncomputable def inverseParse (raw : Bytes) : Option EnvelopeData :=
  open Classical in if h : ∃ d : EnvelopeData, d.valid = true ∧ dumpJson d = raw then some h.choose else none

theorem inverseParse_dumpJson (d : EnvelopeData) (hd : d.valid = true) :
    inverseParse (dumpJson d) = some d := by
  have hex : ∃ e : EnvelopeData, e.valid = true ∧ dumpJson e = dumpJson d := ⟨d, hd, rfl⟩
  obtain ⟨hvalid, hdump⟩ := hex.choose_spec
  rw [inverseParse, dif_pos hex, dumpJson_injective hvalid hd hdump]

-- The same with the limit of pydantic.
noncomputable def limitedParse (raw : Bytes) : Option EnvelopeData :=
  (inverseParse raw).filter fun d => d.jobVersion < versionLimit

theorem limitedParse_dumpJson (d : EnvelopeData) (hd : d.valid = true) (h : d.jobVersion < versionLimit) :
    limitedParse (dumpJson d) = some d := by
  rw [limitedParse, inverseParse_dumpJson d hd, Option.filter_some, if_pos (decide_eq_true h)]

theorem limitedParse_large (d : EnvelopeData) (hd : d.valid = true) (h : versionLimit ≤ d.jobVersion) :
    limitedParse (dumpJson d) = none := by
  rw [limitedParse, inverseParse_dumpJson d hd, Option.filter_some, if_neg]
  simpa using h

-- `json.loads` at the JSON null and at the empty text.
def loadsNull (payload : Bytes) : Except LoadsError Unit :=
  if payload = [110, 117, 108, 108] then .ok () else .error .valueError

-- A message of 256 bytes, which is the least limit that the settings allow.
def fullMessage : MessageEnvelope Datetime where
  jobId := 0x0f8fad5bd9cb469fa16570867728950e
  jobType := "jobs.users.cleanup_expired"
  jobVersion := 1
  payload := [110, 117, 108, 108]
  enqueuedAt := { wall := { year := 2026, month := 1, day := 2, hour := 3, minute := 4, second := 5 } }
  correlationId := some "request-0f8fad5bd9cb469fa1657086772895"

def fullRecord : FailedJobRecord Datetime Unit where
  failureId := 0x7c9e6679742540de944be07fc1f90ae7
  payload := dumpJson (envelopeData fullMessage)
  connection := "main"
  queue := "default"
  failedAt := fullMessage.enqueuedAt
  attempts := 1
  reason := "handler_error"

def oneSecondLater : NaiveDatetime where
  year := 2026
  month := 1
  day := 2
  hour := 3
  minute := 4
  second := 6

theorem fullMessage_version : fullMessage.jobVersion < versionLimit :=
  one_lt_pow₀ (by decide) (by decide)

theorem fullMessage_length : (dumpJson (envelopeData fullMessage)).length = 256 := by decide +kernel

theorem encode_fullMessage {limit : Int} (hlimit : 256 ≤ limit) :
    encode loadsNull limit fullMessage = .ok (dumpJson (envelopeData fullMessage)) := by
  refine encode_eq_ok.mpr ⟨by decide, by decide +kernel, rfl, ?_⟩
  rw [fullMessage_length]
  exact hlimit

def replaySettings : QueueSettings where
  default := some "main"
  configs := [("main", {})]
  distinct := List.nodup_singleton "main"

noncomputable def fullCodecs (limit : Int) : Codecs Unit Datetime :=
  envelopeCodecs loadsNull limitedParse limit (fun _ => none) fun _ => false

def replayJobId : Uuid := 0x16fd2706879a4b6ba1d3a1f8c2b7e510

-- A replay of the record that has got its backend.
def replayReady : CallState Unit Datetime Unit Unit where
  call := .getting "main"
    (.replay (replayed fullMessage fullRecord.failureId replayJobId oneSecondLater) "default")
  lazy := { task := .done (.value "main" ()) }

theorem envelope_roundtrip_full :
    decode loadsNull inverseParse 256 (dumpJson (envelopeData fullMessage)) = .ok fullMessage :=
  (envelope_roundtrip inverseParse_dumpJson).1 256 fullMessage _ (encode_fullMessage (by decide))

theorem replay_republishes_with_room : ∃ raw,
    resume replaySettings (fullCodecs 290) (.get "main") ({} : ManagerState Unit Unit Unit) replayReady =
      ({ publishes := [((), "default", raw)] }, { replayReady with call := .publishing }) := by
  have hreplay := replay_republishes_iff (V := Unit) (C := Unit) (T := Unit) limitedParse_dumpJson limitedParse_large
    (encode_fullMessage (by decide : (256 : Int) ≤ 290)) fullRecord rfl
    (by decide : "main" ∈ replaySettings.names) (by decide +kernel) replayJobId oneSecondLater (fun _ : Unit => none) fun _ => false
  have hroom : ((dumpJson (envelopeData fullMessage)).length + timeWidth oneSecondLater +
      replayWidth (some fullRecord.failureId) : Int) ≤
        290 + timeWidth fullMessage.enqueuedAt.wall + replayWidth fullMessage.replayOf := by
    rw [fullMessage_length]
    decide
  obtain ⟨raw, hpublish, -⟩ := (hreplay.2 (.get "main") {} replayReady "main" () rfl rfl rfl).mpr
    ⟨fullMessage_version, hroom⟩
  exact ⟨raw, hpublish⟩

-- Without room the replay of a message that was published fails.
theorem replay_too_large :
    encode loadsNull 256 fullMessage = .ok fullRecord.payload ∧
      decode loadsNull limitedParse 256 fullRecord.payload = .ok fullMessage ∧
      encode loadsNull 256 (replayed fullMessage fullRecord.failureId replayJobId oneSecondLater) =
        .error .size ∧
      resume replaySettings (fullCodecs 256) (.get "main") ({} : ManagerState Unit Unit Unit) replayReady =
        ({}, { replayReady with call := .done (.failed .badMessage) }) := by
  have hencode := encode_fullMessage (Int.le_refl 256)
  have hsize : encode loadsNull 256 (replayed fullMessage fullRecord.failureId replayJobId oneSecondLater) =
      .error .size := by
    have hdata : (envelopeData (replayed fullMessage fullRecord.failureId replayJobId oneSecondLater)).valid =
          true ∧
        (dumpJson (envelopeData (replayed fullMessage fullRecord.failureId replayJobId
          oneSecondLater))).length = 290 := by
      decide +kernel
    have hloads : loadsNull (replayed fullMessage fullRecord.failureId replayJobId oneSecondLater).payload =
      .ok () := rfl
    simp [encode, hloads, hdata.1, checkSize, hdata.2]
  have hparse := limitedParse_dumpJson (envelopeData fullMessage) (encode_eq_ok.mp hencode).2.1 fullMessage_version
  refine ⟨hencode, decode_encode hparse hencode, hsize, ?_⟩
  have hqueue : validateQueueName "default" = some "default" := by decide +kernel
  simp [resume, replayReady, continueGet, publishEnvelope, hqueue, fullCodecs, envelopeCodecs, hsize,
    Except.toOption, raise]

end Scaffold.Queue
