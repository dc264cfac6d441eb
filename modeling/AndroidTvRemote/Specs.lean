import AndroidTvRemote.Handlers

namespace AndroidTvRemote.World

open Wire Protocol SteadyTimer

section Primitives

variable (w : World)

@[simp] theorem log_impl (r : Record) : (w.log r).impl = w.impl := rfl
@[simp] theorem log_ops (r : Record) : (w.log r).ops = w.ops := rfl
@[simp] theorem log_contexts (r : Record) : (w.log r).contexts = w.contexts := rfl
@[simp] theorem log_reconnectTimer (r : Record) :
    (w.log r).reconnectTimer = w.reconnectTimer := rfl
@[simp] theorem log_idleTimer (r : Record) : (w.log r).idleTimer = w.idleTimer := rfl
@[simp] theorem log_voiceTimer (r : Record) : (w.log r).voiceTimer = w.voiceTimer := rfl
@[simp] theorem log_trace (r : Record) :
    (w.log r).trace = w.trace ++ [(w.impl.generation, r)] := rfl

theorem queueMessage_eq (m : Bytes) (hs : w.impl.stream.isSome = true) :
    w.queueMessage m =
      let w' := { w.resetIdleTimer with impl.writeQueue := w.impl.writeQueue ++ [frame m] }
      if w.impl.writeInProgress then w'.log (.queued m) else (w'.log (.queued m)).beginWrite := by
  simp only [queueMessage, Option.isNone_eq_false_iff.mpr hs, Bool.false_eq_true, if_false]
  rfl

theorem queueMessage_none (m : Bytes) (hs : w.impl.stream = none) : w.queueMessage m = w := by
  simp [queueMessage, hs]

theorem beginWrite_keeps :
    w.beginWrite.impl.stream = w.impl.stream ∧
      w.beginWrite.impl.generation = w.impl.generation := by
  unfold beginWrite
  split <;> exact ⟨rfl, rfl⟩

theorem queueMessage_keeps (m : Bytes) :
    (w.queueMessage m).impl.stream = w.impl.stream ∧
      (w.queueMessage m).impl.generation = w.impl.generation := by
  cases hs : w.impl.stream with
  | none =>
    rw [queueMessage_none w m hs]
    exact ⟨hs, rfl⟩
  | some s =>
    rw [queueMessage_eq w m (by simp [hs]), ← hs]
    simp only
    split
    · exact ⟨rfl, rfl⟩
    · exact beginWrite_keeps _

theorem beginWrite_cons {front : Bytes} {rest : List Bytes} (hs : w.impl.stream.isSome = true)
    (hq : w.impl.writeQueue = front :: rest) :
    w.beginWrite = ({ w with impl.writeInProgress := true }.log (.write front)).start
      ⟨w.impl.generation, .write front⟩ := by
  obtain ⟨s, hs⟩ := Option.isSome_iff_exists.mp hs
  simp only [beginWrite, hs, hq]

theorem beginWrite_nil (hq : w.impl.writeQueue = []) :
    w.beginWrite = { w with impl.writeInProgress := false } := by
  unfold beginWrite
  split
  next h => rw [hq] at h; cases h
  next => rfl

end Primitives

/-- What `queueMessage` does on a live stream: the frame goes to the end of
the queue, and a write is begun if none is in progress. -/
theorem queueMessage_spec {w : World} (m : Bytes) (hs : w.impl.stream.isSome = true)
    (hb : w.impl.writeInProgress = !w.impl.writeQueue.isEmpty) :
    w.queueMessage m = { w with
      impl.writeQueue := w.impl.writeQueue ++ [frame m]
      impl.writeInProgress := true
      ops := w.ops ++ if w.impl.writeQueue = [] then [⟨w.impl.generation, .write (frame m)⟩] else []
      idleTimer := (w.idleTimer.expiresAfter idleTimeout).asyncWait w.impl.generation
      trace := w.trace ++ (w.impl.generation, .queued m) ::
        if w.impl.writeQueue = [] then [(w.impl.generation, .write (frame m))] else [] } := by
  rw [queueMessage_eq w m hs]
  cases hq : w.impl.writeQueue with
  | nil =>
    have hp : w.impl.writeInProgress = false := by simp [hb, hq]
    simp only [hp, Bool.false_eq_true, if_false]
    refine (beginWrite_cons _ (by exact hs) rfl).trans ?_
    simp [log, start, resetIdleTimer]
  | cons f q =>
    have hp : w.impl.writeInProgress = true := by simp [hb, hq]
    simp only [hp, if_true]
    simp [log, resetIdleTimer, hp]

theorem wrote_spec {w : World} (hs : w.impl.stream.isSome = true) :
    { w with impl.writeQueue := w.impl.writeQueue.tail }.beginWrite = { w with
      impl.writeQueue := w.impl.writeQueue.tail
      impl.writeInProgress := !w.impl.writeQueue.tail.isEmpty
      ops := w.ops ++ (w.impl.writeQueue.tail.head?.map fun f ↦
        (⟨w.impl.generation, .write f⟩ : Op)).toList
      trace := w.trace ++ (w.impl.writeQueue.tail.head?.map fun f ↦
        (w.impl.generation, Record.write f)).toList } := by
  cases hq : w.impl.writeQueue.tail with
  | nil =>
    rw [beginWrite_nil _ rfl]
    simp
  | cons f q =>
    refine (beginWrite_cons _ (by exact hs) rfl).trans ?_
    simp [World.log, World.start]

theorem handleConnectionLoss_spec {w : World} (hu : w.impl.userDisconnect = false)
    (ha : w.impl.shuttingDown = false) :
    w.handleConnectionLoss w.impl.generation =
      let news := if w.impl.state = .connected then
        [(w.impl.generation + 1, Record.callback (.availabilityChanged false))] else []
      if w.impl.options.autoReconnect then { w.closeStream with
        impl.state := .reconnecting
        impl.reconnectDelay := min (w.impl.reconnectDelay * 2) 30000
        reconnectTimer := (w.reconnectTimer.expiresAfter w.impl.reconnectDelay).asyncWait ()
        trace := w.trace ++ (w.impl.generation, .lost) :: news ++
          [(w.impl.generation + 1, .callback (.connectionState .reconnecting)),
            (w.impl.generation + 1, .reconnectArmed w.impl.reconnectDelay)] }
      else { w.closeStream with
        impl.state := .disconnected
        trace := w.trace ++ (w.impl.generation, .lost) :: news ++
          [(w.impl.generation + 1, .callback (.connectionState .disconnected))] } := by
  unfold handleConnectionLoss
  by_cases hc : w.impl.state = .connected <;> cases ho : w.impl.options.autoReconnect <;>
    simp [hc, ho, hu, ha, log, closeStream, setState, emit, emitAvailability]

theorem handleConnectionLoss_closes (w : World) :
    (w.handleConnectionLoss w.impl.generation).impl.stream = none ∧
      (w.handleConnectionLoss w.impl.generation).impl.generation = w.impl.generation + 1 := by
  unfold handleConnectionLoss
  simp only [ne_eq, not_true_eq_false, if_false]
  split_ifs <;> exact ⟨rfl, rfl⟩

theorem connectionFailed_spec {w : World} (prefixText error : String)
    (hu : w.impl.userDisconnect = false) (ha : w.impl.shuttingDown = false) :
    w.connectionFailed prefixText error w.impl.generation =
      (w.emitError (prefixText ++ ": " ++ error)).handleConnectionLoss w.impl.generation := by
  simp [connectionFailed, hu, ha]

theorem authenticationFailed_spec {w : World} (error : String)
    (hu : w.impl.userDisconnect = false) (ha : w.impl.shuttingDown = false) :
    w.authenticationFailed error w.impl.generation =
      let news := if w.impl.state = .connected then
        [(w.impl.generation + 1, Record.callback (.availabilityChanged false))] else []
      { w.closeStream with
        impl.state := .disconnected
        trace := w.trace ++
          [(w.impl.generation, .callback
              (.error ("TLS authentication failed; pairing is required: " ++ error))),
            (w.impl.generation, .refused),
            (w.impl.generation + 1, .callback (.connectionState .disconnected))] ++ news ++
          [(w.impl.generation + 1, .callback .authenticationRequired)] } := by
  unfold authenticationFailed
  by_cases hc : w.impl.state = .connected <;>
    simp [hc, hu, ha, log, closeStream, setState, emit, emitError, emitAvailability]

section Identity

variable {w : World} {a : IdentityAttempt}

theorem ensureSslContext_cached {c : ℕ} (hc : w.impl.sslContext = some c) :
    w.ensureSslContext a = (w, .ok ()) := by
  simp [ensureSslContext, hc]

theorem ensureSslContext_no_context {error : String} (hc : w.impl.sslContext = none)
    (ha : a.contextError = some error) : w.ensureSslContext a = (w, .error error) := by
  simp [ensureSslContext, hc, ha]

theorem ensureSslContext_loaded (hc : w.impl.sslContext = none) (ha : a.contextError = none)
    (hl : loadClientIdentity w.impl.options.certificateFile w.impl.options.privateKeyFile a =
      .ok ()) :
    w.ensureSslContext a = ({ w with
      contexts := w.contexts + 1
      impl.sslContext := some w.contexts
      trace := w.trace ++ [(w.impl.generation, .identity w.contexts true)] }, .ok ()) := by
  simp [ensureSslContext, hc, ha, hl, log]

theorem ensureSslContext_not_loaded {error : String} (hc : w.impl.sslContext = none)
    (ha : a.contextError = none)
    (hl : loadClientIdentity w.impl.options.certificateFile w.impl.options.privateKeyFile a =
      .error error) :
    w.ensureSslContext a = ({ w with
      contexts := w.contexts + 1
      impl.sslContext := some w.contexts
      trace := w.trace ++ [(w.impl.generation, .identity w.contexts false)] }, .error error) := by
  simp [ensureSslContext, hc, ha, hl, log]

end Identity

/-- `ensureSslContext` touches the cached context and nothing else; when it
returns, there is one. -/
theorem ensureSslContext_spec (a : IdentityAttempt) (w : World) :
    ∃ n context l, (w.ensureSslContext a).1 =
        { w with contexts := n, impl.sslContext := context, trace := w.trace ++ l } ∧
      (∀ r ∈ l, ∃ c b, r = (w.impl.generation, .identity c b)) ∧
      ((w.ensureSslContext a).2 = .ok () → context.isSome = true) := by
  cases hc : w.impl.sslContext with
  | some c =>
    rw [ensureSslContext_cached hc]
    exact ⟨w.contexts, w.impl.sslContext, [], by simp, by simp, fun _ ↦ by simp [hc]⟩
  | none =>
    cases ha : a.contextError with
    | some error =>
      rw [ensureSslContext_no_context hc ha]
      exact ⟨w.contexts, w.impl.sslContext, [], by simp, by simp, fun h ↦ by cases h⟩
    | none =>
      cases hl : loadClientIdentity w.impl.options.certificateFile
          w.impl.options.privateKeyFile a with
      | ok =>
        rw [ensureSslContext_loaded hc ha hl]
        exact ⟨_, _, _, rfl, by simp, fun _ ↦ rfl⟩
      | error error =>
        rw [ensureSslContext_not_loaded hc ha hl]
        exact ⟨_, _, _, rfl, by simp, fun _ ↦ rfl⟩

theorem beginConnect_error (reconnecting : Bool) {a : IdentityAttempt} {w v : World}
    {error : String} (halive : w.impl.shuttingDown = false) (hu : w.impl.userDisconnect = false)
    (he : w.closeStream.ensureSslContext a = (v, .error error)) :
    w.beginConnect reconnecting a = { v with
      impl.state := .disconnected
      trace := v.trace ++ [(v.impl.generation, .callback
          (.error ("unable to load TLS certificate/key: " ++ error))),
        (v.impl.generation, .callback (.connectionState .disconnected))] } := by
  simp [beginConnect, halive, hu, he, setState, emitError, emit, log]

theorem beginConnect_ok (reconnecting : Bool) {a : IdentityAttempt} {w v : World} {k : ℕ}
    (halive : w.impl.shuttingDown = false) (hu : w.impl.userDisconnect = false)
    (he : w.closeStream.ensureSslContext a = (v, .ok ())) (hk : v.impl.sslContext = some k) :
    w.beginConnect reconnecting a = { v with
      impl.state := if reconnecting then .reconnecting else .connecting
      impl.stream := some ⟨k⟩
      ops := v.ops ++ [⟨w.impl.generation + 1,
        .resolve v.impl.options.host (toString v.impl.options.apiPort)⟩]
      trace := v.trace ++ [(v.impl.generation, .callback (.connectionState
          (if reconnecting then .reconnecting else .connecting))),
        (v.impl.generation, .opened k)] } := by
  simp only [beginConnect, halive, hu, Bool.or_self, Bool.false_eq_true, if_false, he]
  simp [hk, setState, emit, log, openStream, start, closeStream]

/-- The two ways `beginConnect` ends once it has closed the old stream: the
identity is missing, or a new stream is being connected. -/
theorem beginConnect_cases (reconnecting : Bool) (a : IdentityAttempt) {w : World}
    (halive : w.impl.shuttingDown = false) (hu : w.impl.userDisconnect = false) :
    ∃ n context l, (∀ r ∈ l, ∃ k b, r = (w.impl.generation + 1, Record.identity k b)) ∧
      ((∃ error, w.beginConnect reconnecting a = { w.closeStream with
          contexts := n
          impl.sslContext := context
          impl.state := .disconnected
          trace := w.trace ++ (l ++
            [(w.impl.generation + 1, .callback
                (.error ("unable to load TLS certificate/key: " ++ error))),
              (w.impl.generation + 1, .callback (.connectionState .disconnected))]) }) ∨
        ∃ k, context = some k ∧ w.beginConnect reconnecting a = { w.closeStream with
          contexts := n
          impl.sslContext := context
          impl.state := if reconnecting then .reconnecting else .connecting
          impl.stream := some ⟨k⟩
          ops := w.ops ++ [⟨w.impl.generation + 1,
            .resolve w.impl.options.host (toString w.impl.options.apiPort)⟩]
          trace := w.trace ++ (l ++
            [(w.impl.generation + 1, .callback (.connectionState
                (if reconnecting then .reconnecting else .connecting))),
              (w.impl.generation + 1, .opened k)]) }) := by
  obtain ⟨n, context, l, hw, hl, hok⟩ := ensureSslContext_spec a w.closeStream
  refine ⟨n, context, l, hl, ?_⟩
  cases he : w.closeStream.ensureSslContext a with
  | mk v result =>
    obtain rfl : v = _ := (congrArg Prod.fst he).symm.trans hw
    cases result with
    | error error =>
      refine .inl ⟨error, (beginConnect_error reconnecting halive hu he).trans ?_⟩
      simp [closeStream]
    | ok =>
      obtain ⟨k, rfl⟩ := Option.isSome_iff_exists.mp (hok (congrArg Prod.snd he))
      refine .inr ⟨k, rfl, (beginConnect_ok reconnecting halive hu he rfl).trans ?_⟩
      simp [closeStream]

def voicePayloads (sessionId : Int32) (data : Bytes) (offset : ℕ) : List Bytes :=
  if offset < data.length then
    remoteVoicePayload sessionId (voiceChunk data offset) ::
      voicePayloads sessionId data (offset + voiceChunkSize)
  else []
termination_by data.length - offset
decreasing_by
  simp only [voiceChunkSize]
  omega

theorem sendVoiceChunks_eq (sessionId : Int32) (data : Bytes) (offset : ℕ) (w : World) :
    w.sendVoiceChunks sessionId data offset =
      (voicePayloads sessionId data offset).foldl (fun w m ↦ w.queueMessage m) w := by
  fun_induction sendVoiceChunks sessionId data offset w with
  | case1 offset w hlt ih =>
    rw [voicePayloads, if_pos hlt, List.foldl_cons, ih]
  | case2 offset w hlt =>
    rw [voicePayloads, if_neg hlt]
    rfl

theorem stopVoice_none {w : World} (hv : w.impl.voiceSessionId = none) :
    w.stopVoice = { w with
      voiceTimer := w.voiceTimer.cancel
      impl.voiceStarting := false } := by
  simp [stopVoice, hv]

theorem stopVoice_some {w : World} {s : Int32} (hv : w.impl.voiceSessionId = some s) :
    w.stopVoice = { { w with
        voiceTimer := w.voiceTimer.cancel
        impl.voiceStarting := false }.queueMessage (remoteVoiceEnd s) with
      impl.voiceSessionId := none }.emitVoiceStopped := by
  simp [stopVoice, hv]

theorem fill_eq (op : Op) (c : Completion) (w : World) :
    ∃ byte body, w.fill op c = { w with impl.lengthByte := byte, impl.readBody := body } := by
  unfold fill
  split <;> exact ⟨_, _, rfl⟩

theorem fill_readLength {g : ℕ} {c : Completion} (hf : c.Fits .readLength) (he : c.error = none)
    (w : World) : (w.fill ⟨g, .readLength⟩ c).impl.lengthByte = c.bytes.headD 0 := by
  obtain ⟨byte, hb⟩ := List.length_eq_one_iff.mp (hf.2 he)
  simp [fill, hb]

theorem fill_readBody {g size : ℕ} {c : Completion} (hf : c.Fits (.readBody size))
    (he : c.error = none) (w : World) :
    (w.fill ⟨g, .readBody size⟩ c).impl.readBody = c.bytes := by
  have hlen : c.bytes.length = size := hf.2 he
  simp [fill, hlen]

/-- A completion of an earlier generation does no more than that. -/
theorem complete_stale {op : Op} {w : World} (hg : op.generation ≠ w.impl.generation)
    (c : Completion) : w.complete op c = { w with ops := w.ops.erase op }.fill op c := by
  obtain ⟨byte, body, hf⟩ := fill_eq op c { w with ops := w.ops.erase op }
  unfold complete handler
  rw [hf]
  cases op.kind <;>
    simp [onResolve, onConnect, onHandshake, onReadLength, onReadBody, onWrite, hg]

end AndroidTvRemote.World
