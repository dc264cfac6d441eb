import AndroidTvRemote.Reactions
import AndroidTvRemote.Vigils

namespace AndroidTvRemote

open Wire Protocol SteadyTimer Relation

/-- The members that sending and handling messages leaves alone. -/
structure Ground where
  options : Options
  shuttingDown : Bool
  sslContext : Option ℕ
  stream : Option Stream
  userDisconnect : Bool
  reconnectDelay : ℕ
  generation : ℕ
  lengthByte : UInt8
  readLength : UInt64
  readShift : ℕ
  readBody : Bytes

def Impl.ground (i : Impl) : Ground where
  options := i.options
  shuttingDown := i.shuttingDown
  sslContext := i.sslContext
  stream := i.stream
  userDisconnect := i.userDisconnect
  reconnectDelay := i.reconnectDelay
  generation := i.generation
  lengthByte := i.lengthByte
  readLength := i.readLength
  readShift := i.readShift
  readBody := i.readBody

def Record.isChore : Record → Bool
  | callback _ | write _ => true
  | _ => false

def Record.isSetup : Record → Bool
  | callback _ | identity _ _ | opened _ => true
  | _ => false

namespace World

def news (w w' : World) : List Record := (w'.trace.drop w.trace.length).map Prod.snd

theorem news_eq {w w' : World} {l : List (ℕ × Record)} (h : w'.trace = w.trace ++ l) :
    news w w' = l.map Prod.snd := by
  rw [news, h, List.drop_left]

theorem news_nil {w w' : World} (h : w'.trace = w.trace) : news w w' = [] :=
  news_eq (h.trans (List.append_nil _).symm)

def Proper (op : Op) : Prop := op.kind ≠ .readBody 0

theorem mem_or_proper {ops : List Op} {op : Op} (hop : Proper op) :
    ∀ op' ∈ ops ++ [op], op' ∈ ops ∨ Proper op' := by
  intro op' hop'
  refine (List.mem_append.mp hop').imp_right ?_
  intro hmem
  rwa [List.mem_singleton.mp hmem]

/-- What sending and handling messages is made of. No message is queued but
the idle timer is armed again, and a voice session is not awaited but the voice
timer is armed behind the search key. -/
inductive Chore : World → World → Prop
  | log {w : World} (r : Record) (hr : r.isChore = true) : Chore w (w.log r)
  | tune {w : World} (i : Impl) (hi : i.ground = w.impl.ground)
      (hstate : i.state = .reconnecting → w.impl.state = .reconnecting)
      (hvoice : i.voiceStarting = true → w.impl.voiceStarting = true) :
      Chore w { w with impl := i }
  | hush {w : World} (t : Timer Unit) (ht : w.voiceTimer.Changes t) :
      Chore w { w with impl.voiceStarting := false, voiceTimer := t }
  | await {w : World} :
      Chore w { w.resetIdleTimer.log (.queued (remoteKey keyCodeSearch .short)) with
        impl.voiceStarting := true
        voiceTimer := (w.voiceTimer.expiresAfter voiceStartTimeout).asyncWait () }
  | queue {w : World} (m : Bytes) : Chore w (w.resetIdleTimer.log (.queued m))
  | write {w : World} (buffer : Bytes) : Chore w (w.start ⟨w.impl.generation, .write buffer⟩)

abbrev Chores : World → World → Prop := ReflTransGen Chore

theorem Chores.emit {w w' : World} (h : Chores w w') (c : Callback) : Chores w (w'.emit c) :=
  h.tail (.log _ rfl)

theorem chores_beginWrite (w : World) : Chores w w.beginWrite := by
  unfold beginWrite
  split
  next front _ _ _ =>
    refine ReflTransGen.tail ?_ (.write front)
    refine ReflTransGen.tail ?_ (.log (.write front) rfl)
    exact .single (.tune _ rfl id id)
  next => exact .single (.tune _ rfl id id)

theorem chores_queueMessage (w : World) (m : Bytes) : Chores w (w.queueMessage m) := by
  cases hs : w.impl.stream with
  | none =>
    rw [queueMessage_none w m hs]
  | some s =>
    rw [queueMessage_eq w m (by simp [hs])]
    have hpush : Chores w ({ w.resetIdleTimer with
        impl.writeQueue := w.impl.writeQueue ++ [frame m] }.log (.queued m)) :=
      .tail (.single (.tune { w.impl with writeQueue := w.impl.writeQueue ++ [frame m] }
        rfl id id)) (.queue m)
    simp only
    split
    · exact hpush
    · exact hpush.trans (chores_beginWrite _)

theorem Chores.queueMessage {w w' : World} (h : Chores w w') (m : Bytes) :
    Chores w (w'.queueMessage m) := h.trans (chores_queueMessage w' m)

theorem Chores.endVoice {w w' : World} (h : Chores w w') :
    Chores w { w' with impl.voiceSessionId := none }.emitVoiceStopped := by
  refine Chores.emit ?_ _
  exact h.tail (.tune { w'.impl with voiceSessionId := none } rfl id id)

theorem beginWrite_voiceTimer (w : World) : w.beginWrite.voiceTimer = w.voiceTimer := by
  unfold beginWrite
  split <;> rfl

theorem beginWrite_timed (w : World) (t : Timer Unit) :
    { w.beginWrite with voiceTimer := t } = { w with voiceTimer := t }.beginWrite := by
  unfold beginWrite
  simp only
  split <;> rfl

/-- The voice timer is armed after the search key was written, which makes no
difference. -/
theorem chores_startVoice {w : World}
    (hlive : w.impl.state = .connected → w.impl.stream.isSome = true) : Chores w w.startVoice := by
  unfold startVoice
  split_ifs with he hv hc
  · exact .single (.log _ rfl)
  · exact .single (.log _ rfl)
  · exact .single (.log _ rfl)
  have hs : w.impl.stream.isSome = true := hlive (not_not.mp hc)
  have hpush : Chores w { w with
      impl.writeQueue := w.impl.writeQueue ++ [frame (remoteKey keyCodeSearch .short)] } :=
    .single (.tune _ rfl id id)
  have hqueue := queueMessage_eq { w with impl.voiceStarting := true }
    (remoteKey keyCodeSearch .short) hs
  simp only [hqueue]
  split
  · exact hpush.tail .await
  · rw [beginWrite_voiceTimer, beginWrite_timed]
    exact (hpush.tail .await).trans (chores_beginWrite _)

theorem chores_sendVoiceChunks (sessionId : Int32) (data : Bytes) (offset : ℕ) (w : World) :
    Chores w (w.sendVoiceChunks sessionId data offset) := by
  fun_induction sendVoiceChunks sessionId data offset w with
  | case1 offset w hlt ih => exact (chores_queueMessage w _).trans ih
  | case2 offset w hlt => exact .refl

theorem chores_sendVoiceData (w : World) (pcm : Bytes) : Chores w (w.sendVoiceData pcm) := by
  unfold sendVoiceData
  split
  · exact .refl
  · exact chores_sendVoiceChunks _ _ _ w

theorem chores_stopVoice (w : World) : Chores w w.stopVoice := by
  have hset : Chores w { w with
      voiceTimer := w.voiceTimer.cancel
      impl.voiceStarting := false } := .single (.hush _ (.single (.cancel _)))
  unfold stopVoice
  simp only
  split
  · exact hset
  next sessionId _ =>
    exact (hset.queueMessage (remoteVoiceEnd sessionId)).endVoice

theorem chores_handleMessage (w : World) (m : Bytes) :
    Chores (w.log (.received m)) (w.handleMessage m) := by
  unfold handleMessage
  simp only
  split
  next =>
    refine Chores.queueMessage (Chores.emit ?_ _) _
    exact .single (.tune _ rfl id id)
  next => exact chores_queueMessage _ _
  next =>
    refine Chores.emit ?_ _
    exact .single (.tune _ rfl id id)
  next => exact .single (.tune _ rfl id id)
  next =>
    refine Chores.emit ?_ _
    exact .single (.tune _ rfl id id)
  next =>
    refine Chores.emit (Chores.emit (Chores.emit ?_ _) _) _
    exact .single (.tune _ rfl (fun h ↦ by cases h) id)
  next => exact chores_queueMessage _ _
  next => exact .single (.log _ rfl)
  next sessionId _ =>
    split
    · have hhush : Chores (w.log (.received m)) { w.log (.received m) with
          impl.voiceStarting := false
          voiceTimer := w.voiceTimer.cancel } := .single (.hush _ (.single (.cancel _)))
      refine Chores.emit (Chores.queueMessage ?_ _) _
      exact hhush.tail (.tune _ rfl id id)
    · exact .refl
  next => exact .refl

end World

/-- The event neither starts nor ends the user's wish for a connection, and is
none of the timers that keep it. -/
def Event.isPlain : Event → Bool
  | connect _ | disconnect | disconnectAndWait => false
  | reconnectExpires | reconnectWait _ _ | idleExpires | idleWait _ => false
  | _ => true

inductive Fate
  | stays
  | greeted
  | lost
  | refused
  deriving DecidableEq, Repr

/-- What an event makes of the connection that is there before it. An event that
opens a connection or ends it as asked for makes nothing else of it. -/
def Event.fate (w : World) : Event → Fate
  | complete op c =>
    if op.generation ≠ w.impl.generation then .stays
    else match op.kind, c.error with
    | .handshake, none => .greeted
    | .handshake, some _ => .refused
    | _, some _ => .lost
    | .readLength, none => if w.impl.refuses (c.bytes.headD 0) then .lost else .stays
    | _, none => .stays
  | idleWait q =>
    if q.2 = .success ∧ w.impl.userDisconnect = false ∧ q.1.captured = w.impl.generation then .lost
    else .stays
  | _ => .stays

def Event.EmptyFrame (w : World) : Event → Prop
  | complete op c => op = ⟨w.impl.generation, .readLength⟩ ∧ c.error = none ∧
      ∃ b, c.bytes = [b] ∧ b &&& 0x80 = 0 ∧
        w.impl.readLength ||| ((b &&& 0x7f).toUInt64 <<< UInt64.ofNat w.impl.readShift) = 0
  | _ => False

namespace World

/-- What the completion handlers do as long as the connection lasts. No frame
with a body is handled but the idle timer is armed again. -/
inductive Task : World → World → Prop
  | chore {w w' : World} (h : Chore w w') : Task w w'
  | consume {w : World} (op : Op) : Task w { w with ops := w.ops.erase op }
  | read {w : World} (lengthByte : UInt8) (readLength : UInt64) (readShift : ℕ)
      (readBody : Bytes) : Task w { w with
        impl.lengthByte := lengthByte
        impl.readLength := readLength
        impl.readShift := readShift
        impl.readBody := readBody }
  | start {w : World} (op : Op) (hop : Proper op) : Task w (w.start op)
  | frame {w : World} (m : Bytes) (hm : m ≠ []) : Task w (w.resetIdleTimer.log (.received m))

abbrev Tasks : World → World → Prop := ReflTransGen Task

theorem Chores.tasks {w w' : World} (h : Chores w w') : Tasks w w' :=
  ReflTransGen.mono (fun _ _ hc ↦ Task.chore hc) _ _ h

inductive Deed (w : World) : Event → World → Prop
  | work {e : Event} {w' : World} (he : e.isPlain = true) (h : Tasks w w')
      (hf : e.fate w = .stays) : Deed w e w'
  | emptyFrame {e : Event} (h : e.EmptyFrame w) (hf : e.fate w = .stays) (lengthByte : UInt8)
      (readLength : UInt64) (readShift : ℕ) (readBody : Bytes) (ops : List Op)
      (hops : ∀ op ∈ ops, op ∈ w.ops ∨ Proper op) : Deed w e { w with
        impl.lengthByte := lengthByte
        impl.readLength := readLength
        impl.readShift := readShift
        impl.readBody := readBody
        ops := ops
        trace := w.trace ++ [(w.impl.generation, .received [])] }
  | handshake {e : Event} {v w' : World} (he : e.isPlain = true) (h : Tasks w v)
      (h' : Tasks { v.resetIdleTimer.log .handshake with impl.reconnectDelay := 100 } w')
      (hf : e.fate w = .greeted) : Deed w e w'
  | lose {e : Event} {v : World} (he : e.isPlain = true) (h : Tasks w v)
      (hu : v.impl.userDisconnect = false) (ha : v.impl.shuttingDown = false)
      (hf : e.fate w = .lost) : Deed w e (v.handleConnectionLoss v.impl.generation)
  | refuse {e : Event} {v : World} (he : e.isPlain = true) (h : Tasks w v)
      (hu : v.impl.userDisconnect = false) (ha : v.impl.shuttingDown = false) (error : String)
      (hf : e.fate w = .refused) : Deed w e (v.authenticationFailed error v.impl.generation)
  | connect (a : IdentityAttempt) : Deed w (.connect a) (w.connect a)
  | disconnect : Deed w .disconnect w.disconnect
  | disconnectAndWait : Deed w .disconnectAndWait w.disconnectAndWait
  | reconnectExpires (t : Timer Unit) (h : w.reconnectTimer.expire = some t) :
      Deed w .reconnectExpires { w with reconnectTimer := t }
  | idleExpires (t : Timer ℕ) (h : w.idleTimer.expire = some t) :
      Deed w .idleExpires { w with idleTimer := t }
  | reconnectWait (q : Wait Unit × Code) (a : IdentityAttempt)
      (h : q ∈ w.reconnectTimer.queued) : Deed w (.reconnectWait q a)
        ({ w with reconnectTimer := w.reconnectTimer.dequeue q }.onReconnectWait q.2 a)
  | idleSkip (q : Wait ℕ × Code) (hf : (Event.idleWait q).fate w = .stays) :
      Deed w (.idleWait q) { w with idleTimer := w.idleTimer.dequeue q }
  | idleClose (q : Wait ℕ × Code) (hq : q ∈ w.idleTimer.queued) (hs : q.2 = .success)
      (hg : q.1.captured = w.impl.generation) (hu : w.impl.userDisconnect = false)
      (ha : w.impl.shuttingDown = false) : Deed w (.idleWait q)
        (({ w with idleTimer := w.idleTimer.dequeue q }.emitError
          "closing idle Android TV connection after 16 seconds without traffic")
          |>.handleConnectionLoss w.impl.generation)
  | voiceExpires (t : Timer Unit) (h : w.voiceTimer.expire = some t) :
      Deed w .voiceExpires { w with voiceTimer := t }
  | voiceSkip (q : Wait Unit × Code) (h : ¬ (q.2 = .success ∧ w.impl.voiceStarting = true)) :
      Deed w (.voiceWait q) { w with voiceTimer := w.voiceTimer.dequeue q }

theorem beginConnect_frame {w : World} (ha : w.impl.shuttingDown = false)
    (hu : w.impl.userDisconnect = false) (reconnecting : Bool) (a : IdentityAttempt) :
    ∃ i n ops l, w.beginConnect reconnecting a =
        { w with impl := i, contexts := n, ops := ops, trace := w.trace ++ l } ∧
      i.options = w.impl.options ∧ i.reconnectDelay = w.impl.reconnectDelay ∧
      (∀ op ∈ ops, op ∈ w.ops ∨ Proper op) ∧ ∀ r ∈ l, r.2.isSetup = true := by
  obtain ⟨n, context, l, hl, ⟨error, he⟩ | ⟨k, -, he⟩⟩ :=
    beginConnect_cases reconnecting a ha hu
  case' inl => refine ⟨_, _, _, _, he, rfl, rfl, fun _ ↦ .inl, ?_⟩
  case' inr => refine ⟨_, _, _, _, he, rfl, rfl, mem_or_proper (by simp [Proper]), ?_⟩
  all_goals
    intro r hr
    rcases List.mem_append.mp hr with hr | hr
    · obtain ⟨k, b, rfl⟩ := hl r hr
      rfl
    · simp only [List.mem_cons, List.not_mem_nil, or_false] at hr
      rcases hr with rfl | rfl <;> rfl

/-- The length of the first frame is asked for before the timer is armed, which
makes no difference. -/
theorem resetIdleTimer_beginReadLength (v : World) (g : ℕ) :
    (v.beginReadLength g).resetIdleTimer = v.resetIdleTimer.beginReadLength g := by
  unfold beginReadLength readOneLengthByte
  by_cases hg : (v.impl.stream.isNone || decide (g ≠ v.impl.generation)) = true
  · rw [if_pos hg, if_pos (by exact hg)]
  · rw [if_neg hg, if_neg (by exact hg), if_neg (by exact hg), if_neg (by exact hg)]
    rfl

section Completion

variable {w v : World} {c : Completion} (h : Tasks w v)

theorem fate_failed {k : OpKind} (hk : k ≠ .handshake) {error : String}
    (he : c.error = some error) :
    (Event.complete ⟨w.impl.generation, k⟩ c).fate w = .lost := by
  cases k <;> simp_all [Event.fate]

theorem fate_succeeded {k : OpKind} (hk : k ≠ .handshake) (hk' : k ≠ .readLength)
    (he : c.error = none) : (Event.complete ⟨w.impl.generation, k⟩ c).fate w = .stays := by
  cases k <;> simp_all [Event.fate]

include h

theorem Tasks.emitError (error : String) : Tasks w (v.emitError error) :=
  h.tail (.chore (.log _ rfl))

theorem Tasks.startOnStream {op : Op} (hop : Proper op) (hs : v.impl.stream.isSome = true) :
    Tasks w (v.startOnStream op) := by
  obtain ⟨s, hs⟩ := Option.isSome_iff_exists.mp hs
  simp only [World.startOnStream, hs]
  exact h.tail (.start op hop)

theorem Tasks.readOneLengthByte (generation : ℕ) : Tasks w (v.readOneLengthByte generation) := by
  unfold World.readOneLengthByte
  split_ifs
  · exact h
  · exact h.tail (.start _ (by simp [Proper]))

theorem Tasks.beginReadLength (generation : ℕ) : Tasks w (v.beginReadLength generation) := by
  unfold World.beginReadLength
  split_ifs
  · exact h
  · refine Tasks.readOneLengthByte ?_ _
    exact h.tail (.read v.impl.lengthByte 0 0 v.impl.readBody)

variable (hu : v.impl.userDisconnect = false) (ha : v.impl.shuttingDown = false)

include hu ha

theorem Tasks.lose {e : Event} (he : e.isPlain = true) (hf : e.fate w = .lost) (error : String) :
    Deed w e ((v.emitError error).handleConnectionLoss v.impl.generation) :=
  .lose he (h.emitError error) hu ha hf

theorem Tasks.connectionFailed {k : OpKind} (hk : k ≠ .handshake) {error : String}
    (he : c.error = some error) (prefixText : String) :
    Deed w (.complete ⟨w.impl.generation, k⟩ c)
      (v.connectionFailed prefixText error v.impl.generation) := by
  rw [connectionFailed_spec prefixText error hu ha]
  exact h.lose hu ha rfl (fate_failed hk he) _

theorem Tasks.onResolve (host port : String) (hs : v.impl.stream.isSome = true) :
    Deed w (.complete ⟨w.impl.generation, .resolve host port⟩ c)
      (v.onResolve v.impl.generation c) := by
  simp only [World.onResolve, ne_eq, not_true_eq_false, if_false]
  split
  next he => exact h.connectionFailed hu ha (by simp) he _
  next he =>
    exact .work rfl (h.startOnStream (by simp [Proper]) hs)
      (fate_succeeded (by simp) (by simp) he)

theorem Tasks.onConnect (hs : v.impl.stream.isSome = true) :
    Deed w (.complete ⟨w.impl.generation, .connect⟩ c) (v.onConnect v.impl.generation c) := by
  simp only [World.onConnect, ne_eq, not_true_eq_false, if_false]
  split
  next he => exact h.connectionFailed hu ha (by simp) he _
  next he =>
    exact .work rfl (h.startOnStream (by simp [Proper]) hs)
      (fate_succeeded (by simp) (by simp) he)

theorem Tasks.onHandshake :
    Deed w (.complete ⟨w.impl.generation, .handshake⟩ c) (v.onHandshake v.impl.generation c) := by
  simp only [World.onHandshake, ne_eq, not_true_eq_false, if_false]
  split
  next he => exact .refuse rfl h hu ha _ (by simp [Event.fate, he])
  next he =>
    rw [resetIdleTimer_beginReadLength]
    exact .handshake rfl h (Tasks.beginReadLength .refl _) (by simp [Event.fate, he])

theorem Tasks.onReadBody (size : ℕ) (hbody : c.error = none → v.impl.readBody ≠ []) :
    Deed w (.complete ⟨w.impl.generation, .readBody size⟩ c)
      (v.onReadBody v.impl.generation c) := by
  simp only [World.onReadBody, ne_eq, not_true_eq_false, if_false]
  split
  next he => exact h.connectionFailed hu ha (by simp) he _
  next he =>
    refine .work rfl (Tasks.beginReadLength (ReflTransGen.trans ?_ (chores_handleMessage _ _).tasks)
      _) (fate_succeeded (by simp) (by simp) he)
    exact h.tail (.frame _ (hbody he))

theorem Tasks.onWrite (buffer : Bytes) :
    Deed w (.complete ⟨w.impl.generation, .write buffer⟩ c) (v.onWrite v.impl.generation c) := by
  simp only [World.onWrite, ne_eq, not_true_eq_false, if_false]
  split
  next he =>
    have hset : Tasks w { v with impl.writeInProgress := false } :=
      h.tail (.chore (.tune _ rfl id id))
    exact hset.connectionFailed hu ha (by simp) he _
  next he =>
    have hset : Tasks w { v with impl.writeQueue := v.impl.writeQueue.tail } :=
      h.tail (.chore (.tune _ rfl id id))
    exact .work rfl (hset.trans (chores_beginWrite _).tasks)
      (fate_succeeded (by simp) (by simp) he)

/-- The next byte of a length. What follows an empty frame is left to the
caller, who knows the object before the byte. -/
theorem Tasks.onReadLength (hs : v.impl.stream.isSome = true)
    (hrefuses : c.error = none →
      w.impl.refuses (c.bytes.headD 0) = v.impl.refuses v.impl.lengthByte)
    (hempty : ∀ length body, c.error = none → v.impl.lengthByte &&& 0x80 = 0 →
      v.impl.readLength |||
        ((v.impl.lengthByte &&& 0x7f).toUInt64 <<< UInt64.ofNat v.impl.readShift) = 0 →
      (Event.complete ⟨w.impl.generation, .readLength⟩ c).fate w = .stays →
      Deed w (.complete ⟨w.impl.generation, .readLength⟩ c)
        (({ v with impl.readLength := length, impl.readBody := body }.handleMessage [])
          |>.beginReadLength v.impl.generation)) :
    Deed w (.complete ⟨w.impl.generation, .readLength⟩ c)
      (v.onReadLength v.impl.generation c) := by
  have hread : ∀ length shift body, Tasks w { v with
      impl.readLength := length
      impl.readShift := shift
      impl.readBody := body } :=
    fun length shift body ↦ h.tail (.read v.impl.lengthByte length shift body)
  simp only [World.onReadLength, ne_eq, not_true_eq_false, if_false]
  split
  next he => exact h.connectionFailed hu ha (by simp) he _
  next herror =>
    have hfate : (Event.complete ⟨w.impl.generation, .readLength⟩ c).fate w =
        if v.impl.refuses v.impl.lengthByte then .lost else .stays := by
      simp only [Event.fate, herror, hrefuses herror, ne_eq, not_true_eq_false, if_false]
    have hlong : v.impl.lengthByte &&& 0x80 ≠ 0 →
        (v.impl.refuses v.impl.lengthByte = true ↔ v.impl.readShift + 7 > 63) :=
      fun hmore ↦ by simp [Impl.refuses, hmore]
    have hlarge : v.impl.lengthByte &&& 0x80 = 0 → (v.impl.refuses v.impl.lengthByte = true ↔
        (v.impl.readLength ||| ((v.impl.lengthByte &&& 0x7f).toUInt64 <<<
          UInt64.ofNat v.impl.readShift)).toNat > maxFrameSize) :=
      fun hend ↦ by simp [Impl.refuses, hend]
    replace hempty := fun length body ↦ hempty length body herror
    generalize v.impl.readLength |||
      ((v.impl.lengthByte &&& 0x7f).toUInt64 <<< UInt64.ofNat v.impl.readShift) = length
      at hempty hlarge ⊢
    split
    next hmore =>
      split
      next hlimit =>
        exact (hread length (v.impl.readShift + 7) v.impl.readBody).lose hu ha rfl
          (hfate.trans (if_pos ((hlong hmore).mpr hlimit))) _
      next hlimit =>
        exact .work rfl ((hread length (v.impl.readShift + 7) v.impl.readBody).readOneLengthByte _)
          (hfate.trans (if_neg (hlimit ∘ (hlong hmore).mp)))
    next hend =>
      replace hend := not_not.mp hend
      split
      next hlimit =>
        exact (hread length v.impl.readShift v.impl.readBody).lose hu ha rfl
          (hfate.trans (if_pos ((hlarge hend).mpr hlimit))) _
      next hlimit =>
        have hstays := hfate.trans (if_neg (hlimit ∘ (hlarge hend).mp))
        split
        next hzero =>
          rw [List.isEmpty_iff, List.replicate_eq_nil_iff] at hzero
          exact hempty _ _ hend (UInt64.toNat_inj.mp hzero) hstays
        next hzero =>
          refine .work rfl (Tasks.startOnStream (hread length v.impl.readShift _) ?_ hs) hstays
          rw [Proper, ne_eq, OpKind.readBody.injEq, List.length_eq_zero_iff, ← List.isEmpty_iff]
          exact hzero

end Completion

section Step

variable {w w' : World}

theorem handleMessage_nil (w : World) : w.handleMessage [] = w.log (.received []) := by
  have hkind : (parseRemote []).kind = .unknown := by decide +kernel
  simp only [handleMessage, hkind]

theorem deed_empty {e : Event} (he : e.EmptyFrame w) (hf : e.fate w = .stays)
    (hs : w.impl.stream.isSome = true) {ops : List Op} (hops : ∀ op ∈ ops, op ∈ w.ops ∨ Proper op)
    (lengthByte : UInt8) (readLength : UInt64) (readBody : Bytes) :
    Deed w e (({ w with
      ops := ops
      impl.lengthByte := lengthByte
      impl.readLength := readLength
      impl.readBody := readBody }.handleMessage []).beginReadLength w.impl.generation) := by
  have hn : w.impl.stream.isNone = false := by simpa using hs
  simp only [handleMessage_nil, beginReadLength, readOneLengthByte, log_impl, hn, decide_false,
    not_true_eq_false, ne_eq, Bool.or_self, Bool.false_eq_true, if_false]
  refine .emptyFrame he hf lengthByte 0 0 readBody _ ?_
  exact fun op hop ↦ (mem_or_proper (by simp [Proper]) op hop).elim (hops op) .inr

theorem deed_complete {op : Op} {c : Completion} (hg : op.generation = w.impl.generation)
    (hs : w.impl.stream.isSome = true) (hu : w.impl.userDisconnect = false)
    (ha : w.impl.shuttingDown = false) (hop : Proper op) (hc : c.Fits op.kind) :
    Deed w (.complete op c) (w.complete op c) := by
  obtain ⟨g, k⟩ := op
  obtain rfl : g = w.impl.generation := hg
  obtain ⟨byte, body, hf⟩ := fill_eq ⟨w.impl.generation, k⟩ c
    { w with ops := w.ops.erase ⟨w.impl.generation, k⟩ }
  have hfill : Tasks w { w with
      ops := w.ops.erase ⟨w.impl.generation, k⟩
      impl.lengthByte := byte
      impl.readBody := body } :=
    .tail (.single (.consume _)) (.read byte w.impl.readLength w.impl.readShift body)
  unfold complete handler
  cases k with
  | resolve host port =>
    rw [hf]
    exact hfill.onResolve hu ha host port hs
  | connect =>
    rw [hf]
    exact hfill.onConnect hu ha hs
  | handshake =>
    rw [hf]
    exact hfill.onHandshake hu ha
  | readLength =>
    have hbyte : c.error = none → byte = c.bytes.headD 0 := by
      intro herror
      have hb := fill_readLength (g := w.impl.generation) hc herror
        { w with ops := w.ops.erase ⟨w.impl.generation, .readLength⟩ }
      rwa [hf] at hb
    rw [hf]
    refine hfill.onReadLength hu ha hs (fun herror ↦ by rw [hbyte herror]; rfl) ?_
    intro length body' herror hend hzero hfate
    obtain ⟨b, hb⟩ := List.length_eq_one_iff.mp (hc.2 herror)
    obtain rfl : byte = b := by rw [hbyte herror, hb, List.headD_cons]
    have he : (Event.complete ⟨w.impl.generation, .readLength⟩ c).EmptyFrame w :=
      ⟨rfl, herror, byte, hb, hend, hzero⟩
    exact deed_empty he hfate hs (fun _ hop' ↦ .inl (List.mem_of_mem_erase hop')) _ _ _
  | readBody size =>
    rw [hf]
    refine hfill.onReadBody hu ha size ?_
    intro herror
    have hbody : body = c.bytes :=
      (congrArg (fun v ↦ v.impl.readBody) hf).symm.trans (fill_readBody hc herror _)
    have hlength : c.bytes.length = size := hc.2 herror
    have hsize : size ≠ 0 := mt (congrArg OpKind.readBody) hop
    rw [← hlength, Ne, List.length_eq_zero_iff, ← hbody] at hsize
    exact hsize
  | write buffer =>
    rw [hf]
    exact hfill.onWrite hu ha buffer

structure Ready (w : World) : Prop extends Inv w where
  proper : ∀ op ∈ w.ops, Proper op

theorem Ready.deed {e : Event} (h : w.Ready) (he : w.step e = some w') : Deed w e w' := by
  cases happens_of_step he with
  | connect a => exact .connect a
  | disconnect => exact .disconnect
  | disconnectAndWait => exact .disconnectAndWait
  | sendKey | sendText | launchApp => exact .work rfl (chores_queueMessage w _).tasks rfl
  | startVoice => exact .work rfl (chores_startVoice h.live_of_connected).tasks rfl
  | sendVoiceData pcm => exact .work rfl (chores_sendVoiceData w pcm).tasks rfl
  | stopVoice => exact .work rfl (chores_stopVoice w).tasks rfl
  | complete op c hop hc =>
    by_cases hg : op.generation = w.impl.generation
    · have hs := h.live_of_op hop hg
      exact deed_complete hg hs (h.opened hs).wanted h.alive (h.proper op hop) hc
    · obtain ⟨byte, body, hf⟩ := fill_eq op c { w with ops := w.ops.erase op }
      rw [World.complete_stale hg, hf]
      exact .work rfl (.tail (.single (.consume op))
        (.read byte w.impl.readLength w.impl.readShift body)) (if_pos hg)
  | reconnectExpires t ht => exact .reconnectExpires t ht
  | idleExpires t ht => exact .idleExpires t ht
  | voiceExpires t ht => exact .voiceExpires t ht
  | reconnectWait q a hq => exact .reconnectWait q a hq
  | idleWait q hq =>
    unfold onIdleWait
    split_ifs with hc
    · obtain ⟨hs, hu, hg⟩ := hc
      rw [hg]
      exact .idleClose q hq hs hg hu h.alive
    · exact .idleSkip q (if_neg hc)
  | voiceWait q =>
    unfold onVoiceWait
    split_ifs with hc
    · refine .work rfl (Tasks.emitError ?_ _) rfl
      exact .single (.chore (.hush _ (.single (.dequeue _ q))))
    · exact .voiceSkip q hc

def Properly (w w' : World) : Prop := ∀ op ∈ w'.ops, op ∈ w.ops ∨ Proper op

theorem Properly.trans {v : World} (h : Properly w v) (h' : Properly v w') : Properly w w' :=
  fun op hop ↦ (h' op hop).elim (h op) .inr

theorem Task.properly (h : Task w w') : Properly w w' := by
  cases h with
  | chore h =>
    cases h with
    | write buffer => exact mem_or_proper (by simp [Proper])
    | _ => exact fun _ ↦ .inl
  | consume op => exact fun _ hop ↦ .inl (List.mem_of_mem_erase hop)
  | start op hop => exact mem_or_proper hop
  | read | frame => exact fun _ ↦ .inl

theorem Tasks.properly (h : Tasks w w') : Properly w w' := by
  induction h with
  | refl => exact fun _ ↦ .inl
  | tail _ ht ih => exact ih.trans ht.properly

theorem ops_lose (hu : w.impl.userDisconnect = false) (ha : w.impl.shuttingDown = false) :
    (w.handleConnectionLoss w.impl.generation).ops = w.ops := by
  rw [handleConnectionLoss_spec hu ha]
  simp only
  split <;> rfl

theorem properly_onReconnectWait (ha : w.impl.shuttingDown = false) (code : Code)
    (a : IdentityAttempt) (t : Timer Unit) :
    Properly w ({ w with reconnectTimer := t }.onReconnectWait code a) := by
  unfold onReconnectWait
  split_ifs with hg
  · obtain ⟨i, n, ops, l, heq, -, -, hops, -⟩ :=
      beginConnect_frame (w := { w with reconnectTimer := t }) ha hg.2 true a
    rw [heq]
    exact hops
  · exact fun _ ↦ .inl

theorem Deed.properly {e : Event} (h : Deed w e w') (ha : w.impl.shuttingDown = false) :
    Properly w w' := by
  cases h with
  | work _ h => exact h.properly
  | emptyFrame _ _ _ _ _ _ ops hops => exact hops
  | handshake _ h h' => exact h.properly.trans h'.properly
  | lose _ h hu ha =>
    intro op hop
    rw [ops_lose hu ha] at hop
    exact h.properly op hop
  | refuse _ h hu ha error =>
    rw [authenticationFailed_spec error hu ha]
    exact h.properly
  | connect a =>
    obtain ⟨i, n, ops, l, heq, -, -, hops, -⟩ :=
      beginConnect_frame (w := w.wanting 100 w.reconnectTimer.cancel) ha rfl false a
    have hconnect : w.connect a = _ := heq
    rw [hconnect]
    exact hops
  | reconnectWait q a => exact properly_onReconnectWait ha q.2 a _
  | idleClose q _ _ _ hu _ =>
    have hloss := ops_lose (w := { w with idleTimer := w.idleTimer.dequeue q }.emitError
      "closing idle Android TV connection after 16 seconds without traffic") hu ha
    exact fun op hop ↦ .inl (hloss ▸ hop)
  | _ => exact fun _ ↦ .inl

theorem Ready.next {e : Event} (h : w.Ready) (he : w.step e = some w') : w'.Ready :=
  ⟨h.toInv.next he, fun op hop ↦ ((h.deed he).properly h.alive op hop).elim (h.proper op) id⟩

theorem ready_ofOptions (o : Options) : (World.ofOptions o).Ready :=
  ⟨inv_ofOptions o, fun _ hop ↦ by cases hop⟩

theorem ready_of_reaches {o : Options} {es : List Event} (h : Reaches o es w) : w.Ready :=
  h.invariant (fun _ _ _ hw he ↦ hw.next he) (ready_ofOptions o)

theorem idleTimer_emptyFrame {e : Event} (he : e.EmptyFrame w) (hw : w.step e = some w') :
    w'.idleTimer = w.idleTimer := by
  cases e with
  | complete op c =>
    obtain ⟨rfl, herror, b, hb, hend, hzero⟩ := he
    obtain ⟨error, bytes⟩ := c
    obtain rfl : error = none := herror
    obtain rfl : bytes = [b] := hb
    obtain ⟨-, ⟨⟩⟩ := (Option.ite_none_right_eq_some ..).mp hw
    simp only [complete, fill, handler, onReadLength, ne_eq, not_true_eq_false, if_false, hend,
      hzero, handleMessage_nil, UInt64.toNat_zero, List.replicate_zero, List.isEmpty_nil, if_true,
      Nat.not_lt_zero, gt_iff_lt, beginReadLength, readOneLengthByte]
    split_ifs <;> rfl
  | _ => cases he

end Step

end World

end AndroidTvRemote
