import AndroidTvRemote.Replies

namespace AndroidTvRemote

open Wire Protocol SteadyTimer Runs

/-- What the object keeps of the messages of the TV, over all connections. -/
structure Knowledge where
  deviceInfo : DeviceInfo := {}
  volumeInfo : VolumeInfo := {}
  currentApp : Bytes := []
  isOn : Bool := false
  supportedFeatures : Int32 := 0
  imeCounter : Int32 := 0
  imeFieldCounter : Int32 := 0
  deriving DecidableEq

namespace Knowledge

def hear (k : Knowledge) (message : Bytes) : Knowledge :=
  let incoming := parseRemote message
  match incoming.kind with
  | .configure =>
    { k with
      deviceInfo := incoming.deviceInfo
      supportedFeatures := incoming.supportedFeatures }
  | .imeKeyInject => { k with currentApp := incoming.currentApp }
  | .imeBatchEdit =>
    { k with imeCounter := incoming.imeCounter, imeFieldCounter := incoming.fieldCounter }
  | .volume => { k with volumeInfo := incoming.volume }
  | .start => { k with isOn := incoming.started }
  | .setActive | .ping | .error | .voiceBegin | .unknown => k

def learned (messages : List Bytes) : Knowledge := messages.foldl hear {}

def ofKind {α : Type} (kind : Kind) (f : RemoteIncoming → α) (message : Bytes) : Option α :=
  if (parseRemote message).kind = kind then some (f (parseRemote message)) else none

/-- A member that the messages of one kind set. -/
theorem learned_eq_latest {α : Type} (get : Knowledge → α) {kind : Kind} {f : RemoteIncoming → α}
    (hset : ∀ k m, (parseRemote m).kind = kind → get (hear k m) = f (parseRemote m))
    (hkeep : ∀ k m, (parseRemote m).kind ≠ kind → get (hear k m) = get k) (messages : List Bytes) :
    get (learned messages) = latest (ofKind kind f) (get {}) messages := by
  apply foldl_eq_latest
  intro k m
  by_cases hk : (parseRemote m).kind = kind
  · rw [hset k m hk, ofKind, if_pos hk]
    rfl
  · rw [hkeep k m hk, ofKind, if_neg hk]
    rfl

theorem learned_members (messages : List Bytes) :
    (learned messages).deviceInfo = latest (ofKind .configure (·.deviceInfo)) {} messages ∧
    (learned messages).supportedFeatures =
      latest (ofKind .configure (·.supportedFeatures)) 0 messages ∧
    (learned messages).currentApp = latest (ofKind .imeKeyInject (·.currentApp)) [] messages ∧
    (learned messages).volumeInfo = latest (ofKind .volume (·.volume)) {} messages ∧
    (learned messages).isOn = latest (ofKind .start (·.started)) false messages ∧
    (learned messages).imeCounter = latest (ofKind .imeBatchEdit (·.imeCounter)) 0 messages ∧
    (learned messages).imeFieldCounter =
      latest (ofKind .imeBatchEdit (·.fieldCounter)) 0 messages := by
  refine ⟨learned_eq_latest deviceInfo ?_ ?_ _, learned_eq_latest supportedFeatures ?_ ?_ _,
    learned_eq_latest currentApp ?_ ?_ _, learned_eq_latest volumeInfo ?_ ?_ _,
    learned_eq_latest isOn ?_ ?_ _, learned_eq_latest imeCounter ?_ ?_ _,
    learned_eq_latest imeFieldCounter ?_ ?_ _⟩
  all_goals
    intro k m hm
    cases hk : (parseRemote m).kind <;> simp_all [hear]

end Knowledge

namespace Callback

def isNews : Callback → Bool
  | powerChanged _ | currentAppChanged _ | volumeChanged _ | deviceInfoChanged _ => true
  | _ => false

def state : Callback → Option ConnectionState
  | connectionState state => some state
  | _ => none

def power : Callback → Option Bool
  | powerChanged on => some on
  | _ => none

def app : Callback → Option Bytes
  | currentAppChanged app => some app
  | _ => none

def volume : Callback → Option VolumeInfo
  | volumeChanged volume => some volume
  | _ => none

def device : Callback → Option DeviceInfo
  | deviceInfoChanged info => some info
  | _ => none

end Callback

def newsIn (message : Bytes) : Option Callback :=
  let incoming := parseRemote message
  match incoming.kind with
  | .configure => some (.deviceInfoChanged incoming.deviceInfo)
  | .imeKeyInject => some (.currentAppChanged incoming.currentApp)
  | .volume => some (.volumeChanged incoming.volume)
  | .start => some (.powerChanged incoming.started)
  | .setActive | .imeBatchEdit | .ping | .error | .voiceBegin | .unknown => none

namespace Record

def told {α : Type} (f : Callback → Option α) : Record → Option α
  | callback c => f c
  | _ => none

def news : Record → Option Callback := told fun c ↦ if c.isNews then some c else none

/-- The records of messages received, of what the application is told of the
connection and of the TV, and of texts queued. -/
def isEntry : Record → Bool
  | received _ => true
  | queued m => outerNumber m = some 21
  | callback (.connectionState _) => true
  | callback c => c.isNews
  | _ => false

end Record

/-- The state of the connection, what is kept of the TV, and the entries that
tell how they came about. -/
structure Mirror where
  state : ConnectionState
  knowledge : Knowledge
  entries : List (ℕ × Record)

namespace Mirror

def enter (g : ℕ) (r : Record) (s : Mirror) : Mirror := { s with entries := s.entries ++ [(g, r)] }

def setState (g : ℕ) (state : ConnectionState) (s : Mirror) : Mirror :=
  { s with state }.enter g (.callback (.connectionState state))

def hear (g : ℕ) (message : Bytes) (s : Mirror) : Mirror :=
  let incoming := parseRemote message
  let s := { s with knowledge := s.knowledge.hear message }.enter g (.received message)
  match incoming.kind with
  | .configure => s.enter g (.callback (.deviceInfoChanged incoming.deviceInfo))
  | .imeKeyInject => s.enter g (.callback (.currentAppChanged incoming.currentApp))
  | .volume => s.enter g (.callback (.volumeChanged incoming.volume))
  | .start => (s.setState g .connected).enter g (.callback (.powerChanged incoming.started))
  | .setActive | .imeBatchEdit | .ping | .error | .voiceBegin | .unknown => s

/-- What an event adds that sends no text. -/
inductive Turn (s : Mirror) : Mirror → Prop
  | rest : Turn s s
  | hear (g : ℕ) (message : Bytes) : Turn s (s.hear g message)
  | setState (g : ℕ) (state : ConnectionState) : Turn s (s.setState g state)

end Mirror

def Impl.knowledge (i : Impl) : Knowledge where
  deviceInfo := i.deviceInfo
  volumeInfo := i.volumeInfo
  currentApp := i.currentApp
  isOn := i.isOn
  supportedFeatures := i.supportedFeatures
  imeCounter := i.imeCounter
  imeFieldCounter := i.imeFieldCounter

namespace World

def mirror (w : World) : Mirror where
  state := w.impl.state
  knowledge := w.impl.knowledge
  entries := w.trace.filter fun r ↦ r.2.isEntry

section Primitives

variable {w : World}

theorem mirror_eq {s : Mirror} {l : List (ℕ × Record)} (hl : w.mirror.entries = l)
    (h : { w.mirror with entries := l } = s) : w.mirror = s := by
  rw [← h, ← hl]

theorem mirror_log {r : Record} (hr : r.isEntry = false) : (w.log r).mirror = w.mirror := by
  simp only [mirror, log_trace, List.filter_append, log_impl]
  rw [List.filter_cons_of_neg (by simp [hr]), List.filter_nil, List.append_nil]

theorem mirror_enter {r : Record} (hr : r.isEntry = true) :
    (w.log r).mirror = w.mirror.enter w.impl.generation r := by
  simp only [mirror, Mirror.enter, log_trace, List.filter_append, log_impl]
  rw [List.filter_cons_of_pos (by exact hr), List.filter_nil]

theorem mirror_emitError (error : String) : (w.emitError error).mirror = w.mirror := mirror_log rfl

theorem mirror_setState (state : ConnectionState) :
    (w.setState state).mirror = w.mirror.setState w.impl.generation state :=
  mirror_enter (w := { w with impl.state := state }) rfl

theorem mirror_beginWrite : w.beginWrite.mirror = w.mirror := by
  unfold beginWrite
  split
  · exact mirror_log (w := { w with impl.writeInProgress := true }) rfl
  · rfl

theorem mirror_queueMessage {m : Bytes} (hm : (Record.queued m).isEntry = false) :
    (w.queueMessage m).mirror = w.mirror := by
  cases hs : w.impl.stream with
  | none => rw [queueMessage_none w m hs]
  | some s =>
    have hlog := mirror_log (w := { w.resetIdleTimer with
      impl.writeQueue := w.impl.writeQueue ++ [frame m] }) hm
    rw [queueMessage_eq w m (by simp [hs])]
    simp only
    split
    · exact hlog
    · exact mirror_beginWrite.trans hlog

theorem isEntry_messageField {n : UInt32} (hn : n.toNat ≠ 21) (inner : Writer) :
    (Record.queued (Writer.messageField {} n inner).data).isEntry = false := by
  simpa [Record.isEntry, outerNumber_messageField] using hn

theorem mirror_startVoice : w.startVoice.mirror = w.mirror := by
  unfold startVoice
  split_ifs
  · exact mirror_emitError _
  · exact mirror_emitError _
  · exact mirror_emitError _
  · exact mirror_queueMessage (w := { w with impl.voiceStarting := true })
      (isEntry_messageField (by decide) _)

theorem mirror_sendVoiceChunks (sessionId : Int32) (data : Bytes) (offset : ℕ) :
    (w.sendVoiceChunks sessionId data offset).mirror = w.mirror := by
  fun_induction sendVoiceChunks sessionId data offset w with
  | case1 offset w hlt ih => exact ih.trans (mirror_queueMessage (isEntry_messageField (by decide) _))
  | case2 => rfl

theorem mirror_sendVoiceData (pcm : Bytes) : (w.sendVoiceData pcm).mirror = w.mirror := by
  unfold sendVoiceData
  split
  · rfl
  · exact mirror_sendVoiceChunks _ _ _

theorem mirror_stopVoice : w.stopVoice.mirror = w.mirror := by
  cases hv : w.impl.voiceSessionId with
  | none =>
    rw [stopVoice_none hv]
    rfl
  | some s =>
    have hq := mirror_queueMessage (w := { w with
      voiceTimer := w.voiceTimer.cancel
      impl.voiceStarting := false }) (m := remoteVoiceEnd s) (isEntry_messageField (by decide) _)
    rw [stopVoice_some hv]
    exact (mirror_log rfl).trans hq

theorem mirror_startOnStream (op : Op) : (w.startOnStream op).mirror = w.mirror := by
  unfold startOnStream
  split
  · rfl
  · exact mirror_log rfl

theorem mirror_readOneLengthByte (g : ℕ) : (w.readOneLengthByte g).mirror = w.mirror := by
  unfold readOneLengthByte
  split <;> rfl

theorem mirror_beginReadLength (g : ℕ) : (w.beginReadLength g).mirror = w.mirror := by
  unfold beginReadLength
  split
  · rfl
  · exact mirror_readOneLengthByte (w := { w with impl.readLength := 0, impl.readShift := 0 }) g

theorem mirror_handleMessage (m : Bytes) :
    (w.handleMessage m).mirror = w.mirror.hear w.impl.generation m := by
  have hreceived := congrArg Mirror.entries
    (mirror_enter (w := w) (r := .received m) rfl)
  have hreply : ∀ {n : UInt32} {inner : Writer} {v : World}, n.toNat ≠ 21 →
      (v.queueMessage (Writer.messageField {} n inner).data).mirror = v.mirror :=
    fun hn ↦ mirror_queueMessage (isEntry_messageField hn _)
  unfold handleMessage Mirror.hear Knowledge.hear
  simp only
  cases hk : (parseRemote m).kind with
  | configure =>
    refine (hreply (by decide)).trans ((mirror_enter rfl).trans (congrArg (Mirror.enter _ _) ?_))
    exact mirror_eq hreceived rfl
  | setActive => exact (hreply (by decide)).trans (mirror_eq hreceived rfl)
  | imeKeyInject | volume =>
    refine (mirror_enter rfl).trans (congrArg (Mirror.enter _ _) ?_)
    exact mirror_eq hreceived rfl
  | imeBatchEdit => exact mirror_eq hreceived rfl
  | start =>
    refine (mirror_enter rfl).trans (congrArg (Mirror.enter _ _) ?_)
    refine (mirror_log rfl).trans ((mirror_setState _).trans (congrArg (Mirror.setState _ _) ?_))
    exact mirror_eq hreceived rfl
  | ping => exact (hreply (by decide)).trans (mirror_eq hreceived rfl)
  | error => exact (mirror_emitError _).trans (mirror_eq hreceived rfl)
  | voiceBegin =>
    by_cases hv : w.impl.voiceStarting = true
    · rw [if_pos (by exact hv)]
      refine (mirror_log rfl).trans ((hreply (by decide)).trans ?_)
      exact mirror_eq hreceived rfl
    · rw [if_neg (by exact hv)]
      exact mirror_eq hreceived rfl
  | unknown => exact mirror_eq hreceived rfl

end Primitives

section Handlers

variable {w : World}

def Reflects (w w' : World) : Prop := Mirror.Turn w.mirror w'.mirror

theorem reflects_of_eq {w' : World} (h : w'.mirror = w.mirror) : Reflects w w' := by
  rw [Reflects, h]
  exact .rest

theorem reflects_setState {v : World} (h : v.mirror = w.mirror) (state : ConnectionState) :
    Reflects w (v.setState state) := by
  rw [Reflects, mirror_setState, h]
  exact .setState _ state

theorem reflects_hear {v w' : World} (m : Bytes) (h : v.mirror = w.mirror)
    (h' : w'.mirror = (v.handleMessage m).mirror) : Reflects w w' := by
  rw [Reflects, h', mirror_handleMessage, h]
  exact .hear _ m

theorem Reflects.before {v w' : World} (h : Reflects v w') (hv : v.mirror = w.mirror) :
    Reflects w w' := by
  rwa [Reflects, ← hv]

theorem Reflects.after {v w' : World} (h : Reflects w v) (hv : w'.mirror = v.mirror) :
    Reflects w w' := by
  rwa [Reflects, hv]

theorem reflects_handleConnectionLoss (g : ℕ) : Reflects w (w.handleConnectionLoss g) := by
  have hclosed : (w.log .lost).closeStream.mirror = w.mirror := mirror_log rfl
  have hnews : (if w.impl.state = .connected then (w.log .lost).closeStream.emitAvailability false
      else (w.log .lost).closeStream).mirror = w.mirror := by
    split
    · exact (mirror_log rfl).trans hclosed
    · exact hclosed
  unfold handleConnectionLoss
  split
  · exact reflects_of_eq rfl
  · simp only
    generalize (if w.impl.state = .connected then (w.log .lost).closeStream.emitAvailability false
      else (w.log .lost).closeStream) = v at hnews ⊢
    split
    · exact (reflects_setState hnews .reconnecting).after (mirror_log (by rfl))
    · exact reflects_setState hnews .disconnected

theorem reflects_giveUp (error : String) (g : ℕ) :
    Reflects w ((w.emitError error).handleConnectionLoss g) :=
  (reflects_handleConnectionLoss g).before (mirror_emitError error)

theorem reflects_connectionFailed (prefixText error : String) (g : ℕ) :
    Reflects w (w.connectionFailed prefixText error g) := by
  unfold connectionFailed
  split
  · exact reflects_of_eq rfl
  · exact reflects_giveUp _ g

theorem reflects_authenticationFailed (error : String) (g : ℕ) :
    Reflects w (w.authenticationFailed error g) := by
  unfold authenticationFailed
  split
  · exact reflects_of_eq rfl
  · have hclosed : ((w.emitError ("TLS authentication failed; pairing is required: " ++ error)).log
        .refused).closeStream.mirror = w.mirror :=
      (mirror_log rfl).trans (mirror_emitError _)
    refine Reflects.after (reflects_setState hclosed .disconnected) ?_
    refine (mirror_log rfl).trans ?_
    split
    · exact mirror_log rfl
    · rfl

theorem mirror_ensureSslContext (a : IdentityAttempt) :
    (w.ensureSslContext a).1.mirror = w.mirror := by
  unfold ensureSslContext
  split
  · rfl
  · rfl
  · simp only
    split <;> exact mirror_log rfl

theorem mirror_openStream : w.openStream.mirror = w.mirror := by
  unfold openStream
  split
  · exact mirror_log (w := { w with impl.stream := some _ }) rfl
  · exact mirror_log rfl

theorem reflects_beginConnect (reconnecting : Bool) (a : IdentityAttempt) :
    Reflects w (w.beginConnect reconnecting a) := by
  have hensure : (w.closeStream.ensureSslContext a).1.mirror = w.mirror :=
    mirror_ensureSslContext (w := w.closeStream) a
  unfold beginConnect
  split
  · exact reflects_of_eq rfl
  · simp only
    split
    next v error he =>
      rw [he] at hensure
      exact reflects_setState ((mirror_emitError _).trans hensure) .disconnected
    next v he =>
      rw [he] at hensure
      have hset := reflects_setState hensure
        (if reconnecting then ConnectionState.reconnecting else .connecting)
      exact Reflects.after hset (mirror_openStream (w := _))

theorem reflects_onReadLength (g : ℕ) (c : Completion) : Reflects w (w.onReadLength g c) := by
  unfold onReadLength
  split
  · exact reflects_of_eq rfl
  split
  · exact reflects_connectionFailed _ _ g
  simp only
  split
  · split
    · exact Reflects.before (reflects_giveUp _ g) rfl
    · exact reflects_of_eq (mirror_readOneLengthByte (w := _) g)
  · split
    · exact Reflects.before (reflects_giveUp _ g) rfl
    · split
      · exact reflects_hear [] (by rfl) (mirror_beginReadLength g)
      · exact reflects_of_eq (mirror_startOnStream (w := _) _)

theorem reflects_handler (op : Op) (c : Completion) : Reflects w (w.handler op c) := by
  obtain ⟨g, k⟩ := op
  cases k with
  | resolve | connect =>
    simp only [handler, onResolve, onConnect]
    split
    · exact reflects_of_eq rfl
    split
    · exact reflects_connectionFailed _ _ g
    · exact reflects_of_eq (mirror_startOnStream _)
  | handshake =>
    simp only [handler, onHandshake]
    split
    · exact reflects_of_eq rfl
    split
    · exact reflects_authenticationFailed _ g
    · refine reflects_of_eq ((mirror_beginReadLength g).trans ?_)
      exact mirror_log rfl
  | readLength => exact reflects_onReadLength g c
  | readBody size =>
    simp only [handler, onReadBody]
    split
    · exact reflects_of_eq rfl
    split
    · exact reflects_connectionFailed _ _ g
    · exact reflects_hear _ (by rfl) (mirror_beginReadLength g)
  | write buffer =>
    simp only [handler, onWrite]
    split
    · exact reflects_of_eq rfl
    split
    · exact Reflects.before (reflects_connectionFailed _ _ g) rfl
    · exact reflects_of_eq (mirror_beginWrite (w := _))

theorem mirror_fill (op : Op) (c : Completion) : (w.fill op c).mirror = w.mirror := by
  obtain ⟨byte, body, hf⟩ := fill_eq op c w
  rw [hf]
  rfl

theorem reflects_command {m : Bytes} (hm : (Record.queued m).isEntry = false) :
    Reflects w (w.queueMessage m) := reflects_of_eq (mirror_queueMessage hm)

/-- A text is queued with the counters that are known when its turn comes. -/
structure Texts (w : World) (text : Bytes) (w' : World) : Prop where
  nonempty : text ≠ []
  trace : ∃ l, w'.trace = w.trace ++ (w.impl.generation,
      .queued (remoteText text w.impl.imeCounter w.impl.imeFieldCounter)) :: l ∧
    ∀ r ∈ l, r.2.isEntry = false
  mirror : w'.mirror = w.mirror.enter w.impl.generation
    (.queued (remoteText text w.impl.imeCounter w.impl.imeFieldCounter))

theorem trace_beginWrite : ∃ l, w.beginWrite.trace = w.trace ++ l ∧
    ∀ r ∈ l, r.2.isEntry = false := by
  unfold beginWrite
  split
  · exact ⟨_, rfl, by simp [Record.isEntry]⟩
  · exact ⟨[], (List.append_nil _).symm, by simp⟩

theorem texts_sendText {text : Bytes} (h : text ≠ []) (hs : w.impl.stream.isSome = true) :
    Texts w text (w.sendText text) := by
  have hlog := mirror_enter (w := { w.resetIdleTimer with impl.writeQueue :=
      w.impl.writeQueue ++ [frame (remoteText text w.impl.imeCounter w.impl.imeFieldCounter)] })
    (r := .queued (remoteText text w.impl.imeCounter w.impl.imeFieldCounter))
    (by simp [Record.isEntry, remoteText, outerNumber_messageField])
  rw [sendText, queueMessage_eq w _ hs]
  simp only
  split
  · exact ⟨h, ⟨[], rfl, by simp⟩, hlog⟩
  · obtain ⟨l, hl, hentries⟩ := trace_beginWrite (w := World.log
      (.queued (remoteText text w.impl.imeCounter w.impl.imeFieldCounter))
      { w.resetIdleTimer with impl.writeQueue :=
        w.impl.writeQueue ++ [frame (remoteText text w.impl.imeCounter w.impl.imeFieldCounter)] })
    refine ⟨h, ⟨l, hl.trans ?_, hentries⟩, mirror_beginWrite.trans hlog⟩
    exact List.append_assoc _ _ _

theorem texts_of_step {w' : World} {text : Bytes} (he : w.step (.sendText text) = some w') :
    Texts w text w' ∨ w' = w := by
  obtain ⟨htext, hw⟩ := (Option.ite_none_left_eq_some ..).mp he
  obtain rfl := Option.some.inj hw
  cases hs : w.impl.stream with
  | none => exact .inr (queueMessage_none w _ hs)
  | some s => exact .inl (texts_sendText htext (by simp [hs]))

theorem reflects_of_step {w' : World} {e : Event} (he : w.step e = some w')
    (htext : ∀ text, e ≠ .sendText text) : Reflects w w' := by
  cases happens_of_step he with
  | connect a => exact (reflects_beginConnect false a).before rfl
  | disconnect =>
    refine Reflects.after (reflects_setState ?_ .disconnected) (mirror_log rfl)
    rfl
  | disconnectAndWait =>
    unfold disconnectAndWait
    exact reflects_setState (by rfl) .disconnected
  | sendKey | launchApp => exact reflects_command (isEntry_messageField (by decide) _)
  | sendText text => exact absurd rfl (htext text)
  | startVoice => exact reflects_of_eq mirror_startVoice
  | sendVoiceData pcm => exact reflects_of_eq (mirror_sendVoiceData pcm)
  | stopVoice => exact reflects_of_eq mirror_stopVoice
  | complete op c => exact (reflects_handler op c).before (mirror_fill op c)
  | reconnectExpires | idleExpires | voiceExpires => exact reflects_of_eq rfl
  | reconnectWait q a =>
    unfold onReconnectWait
    split
    · exact (reflects_beginConnect true a).before rfl
    · exact reflects_of_eq rfl
  | idleWait q =>
    unfold onIdleWait
    split
    · exact (reflects_giveUp _ _).before rfl
    · exact reflects_of_eq rfl
  | voiceWait q =>
    unfold onVoiceWait
    split
    · exact reflects_of_eq ((mirror_emitError _).trans rfl)
    · exact reflects_of_eq rfl

end Handlers

end World

namespace Mirror

def heardIn (entries : List (ℕ × Record)) : List Bytes := entries.filterMap fun r ↦ r.2.handled

/-- What is kept is what was heard last and told last, and all the news was
told. -/
structure Faithful (s : Mirror) : Prop where
  knowledge : s.knowledge = Knowledge.learned (heardIn s.entries)
  news : s.entries.filterMap (fun r ↦ (r.2.news).map (Prod.mk r.1)) =
    (s.entries.filterMap fun r ↦ (r.2.handled).map (Prod.mk r.1)).flatMap
      fun x ↦ ((newsIn x.2).map (Prod.mk x.1)).toList
  state : s.state = latest (fun r ↦ r.2.told Callback.state) .disconnected s.entries
  power : s.knowledge.isOn = latest (fun r ↦ r.2.told Callback.power) false s.entries
  app : s.knowledge.currentApp = latest (fun r ↦ r.2.told Callback.app) [] s.entries
  volume : s.knowledge.volumeInfo = latest (fun r ↦ r.2.told Callback.volume) {} s.entries
  device : s.knowledge.deviceInfo = latest (fun r ↦ r.2.told Callback.device) {} s.entries

theorem hear_eq (g : ℕ) (m : Bytes) (s : Mirror) : s.hear g m =
    { state := if (parseRemote m).kind = .start then .connected else s.state
      knowledge := s.knowledge.hear m
      entries := s.entries ++ (g, .received m) ::
        ((if (parseRemote m).kind = .start then
            [(g, Record.callback (.connectionState .connected))] else []) ++
          ((newsIn m).map fun c ↦ (g, Record.callback c)).toList) } := by
  cases hk : (parseRemote m).kind <;> simp [hear, newsIn, hk, enter, setState]

theorem Turn.adds {s s' : Mirror} (h : Turn s s') :
    ∃ l, s'.entries = s.entries ++ l ∧ ∀ x ∈ l, x.2.queuedUnder [21] = none := by
  cases h with
  | rest => exact ⟨[], (List.append_nil _).symm, by simp⟩
  | hear g m =>
    rw [hear_eq]
    refine ⟨_, rfl, ?_⟩
    intro x hx
    cases hk : (parseRemote m).kind <;> simp [newsIn, hk] at hx <;>
      rcases hx with rfl | rfl | rfl <;> rfl
  | setState g state => exact ⟨_, rfl, by simp [Record.queuedUnder]⟩

section Turns

variable {s : Mirror} (h : s.Faithful)

include h

theorem Faithful.hear (g : ℕ) (m : Bytes) : (s.hear g m).Faithful := by
  rw [hear_eq]
  refine ⟨?_, ?_, ?_, ?_, ?_, ?_, ?_⟩
  · simp only [h.knowledge, Knowledge.learned, heardIn, List.filterMap_append]
    cases hk : (parseRemote m).kind <;> simp [newsIn, hk, Record.handled]
  · simp only [List.filterMap_append, h.news]
    cases hk : (parseRemote m).kind <;>
      simp [newsIn, hk, Record.handled, Record.news, Record.told, Callback.isNews]
  · rw [latest_append, ← h.state]
    cases hk : (parseRemote m).kind <;> simp [latest, newsIn, hk, Record.told, Callback.state]
  · rw [latest_append, ← h.power]
    cases hk : (parseRemote m).kind <;>
      simp [latest, newsIn, hk, Record.told, Callback.power, Knowledge.hear]
  · rw [latest_append, ← h.app]
    cases hk : (parseRemote m).kind <;>
      simp [latest, newsIn, hk, Record.told, Callback.app, Knowledge.hear]
  · rw [latest_append, ← h.volume]
    cases hk : (parseRemote m).kind <;>
      simp [latest, newsIn, hk, Record.told, Callback.volume, Knowledge.hear]
  · rw [latest_append, ← h.device]
    cases hk : (parseRemote m).kind <;>
      simp [latest, newsIn, hk, Record.told, Callback.device, Knowledge.hear]

theorem Faithful.enter {x : ℕ × Record} (state : ConnectionState)
    (hhandled : x.2.handled = none) (htold : ∀ {α : Type} {f : Callback → Option α},
      (∀ state, f (.connectionState state) = none) → x.2.told f = none)
    (hstate : state = (x.2.told Callback.state).getD s.state) :
    { s with state, entries := s.entries ++ [x] }.Faithful := by
  have hlatest : ∀ {α : Type} {f : Callback → Option α} {a : α},
      (∀ state, f (.connectionState state) = none) →
      latest (fun r ↦ r.2.told f) a (s.entries ++ [x]) = latest (fun r ↦ r.2.told f) a s.entries := by
    intro α f a hf
    rw [latest_snoc, htold hf]
    rfl
  refine ⟨?_, ?_, ?_, ?_, ?_, ?_, ?_⟩
  · simpa [heardIn, hhandled] using h.knowledge
  · have hnews : x.2.news = none := htold fun _ ↦ rfl
    simp [hhandled, hnews, h.news]
  · rw [latest_snoc, ← h.state, hstate]
  · exact h.power.trans (hlatest fun _ ↦ rfl).symm
  · exact h.app.trans (hlatest fun _ ↦ rfl).symm
  · exact h.volume.trans (hlatest fun _ ↦ rfl).symm
  · exact h.device.trans (hlatest fun _ ↦ rfl).symm

theorem Faithful.turn {s' : Mirror} (ht : Turn s s') : s'.Faithful := by
  cases ht with
  | rest => exact h
  | hear g m => exact h.hear g m
  | setState g state => exact h.enter state rfl (fun hf ↦ hf state) rfl

theorem Faithful.text (g : ℕ) (m : Bytes) : (s.enter g (.queued m)).Faithful :=
  h.enter s.state rfl (fun _ ↦ rfl) rfl

end Turns

end Mirror

namespace World

theorem faithful_step {w w' : World} {e : Event} (h : w.mirror.Faithful)
    (he : w.step e = some w') : w'.mirror.Faithful := by
  by_cases htext : ∃ text, e = .sendText text
  · obtain ⟨text, rfl⟩ := htext
    rcases texts_of_step he with ht | rfl
    · rw [ht.mirror]
      exact h.text _ _
    · exact h
  · exact h.turn (reflects_of_step he fun text hne ↦ htext ⟨text, hne⟩)

theorem faithful_of_reaches {o : Options} {es : List Event} {w : World} (h : Reaches o es w) :
    w.mirror.Faithful := by
  refine h.invariant (I := fun w ↦ w.mirror.Faithful) (fun _ _ _ hs he ↦ faithful_step hs he) ?_
  exact ⟨rfl, rfl, rfl, rfl, rfl, rfl, rfl⟩

theorem filterMap_entries {α : Type} {f : ℕ × Record → Option α} (w : World)
    (hf : ∀ r, r.2.isEntry = false → f r = none) :
    w.mirror.entries.filterMap f = w.trace.filterMap f := by
  refine (List.filterMap_filter ..).trans (List.filterMap_congr ?_)
  intro r _
  cases hr : r.2.isEntry with
  | true => rfl
  | false => simp [hf r hr]

theorem handled_of_not_isEntry {r : Record} (h : r.isEntry = false) : r.handled = none := by
  cases r with
  | received => cases h
  | _ => rfl

theorem told_of_not_isEntry {α : Type} {f : Callback → Option α} {r : Record}
    (hf : ∀ c, (f c).isSome = true → c.state.isSome = true ∨ c.isNews = true)
    (h : r.isEntry = false) : r.told f = none := by
  cases r with
  | callback c =>
    by_contra hne
    rcases hf c (Option.isSome_iff_ne_none.mpr hne) with hs | hn
    · cases c with
      | connectionState => cases h
      | _ => cases hs
    · cases c with
      | connectionState => cases hn
      | _ => cases h.symm.trans hn
  | _ => rfl

theorem latest_entries {α : Type} {f : Callback → Option α} (w : World) (a : α)
    (hf : ∀ c, (f c).isSome = true → c.state.isSome = true ∨ c.isNews = true) :
    latest (fun r ↦ r.2.told f) a w.mirror.entries = latest (fun r ↦ r.2.told f) a w.trace :=
  congrArg (fun l : List α ↦ l.getLast?.getD a)
    (filterMap_entries w fun _ hr ↦ told_of_not_isEntry hf hr)

theorem knowledge_of_reaches {o : Options} {es : List Event} {w : World} (h : Reaches o es w) :
    w.impl.knowledge = Knowledge.learned w.heard := by
  have hheard : Mirror.heardIn w.mirror.entries = w.heard := by
    refine (filterMap_entries w fun _ hr ↦ handled_of_not_isEntry hr).trans ?_
    simp [heard, tagged, List.map_filterMap]
  rw [← hheard]
  exact (faithful_of_reaches h).knowledge

open Knowledge in
/-- The getters return, and the texts are sent with, what the last message of
the kind said that sets it. -/
theorem getters_return_last_messages {o : Options} {es : List Event} {w : World}
    (h : Reaches o es w) :
    w.impl.deviceInfo = latest (ofKind .configure (·.deviceInfo)) {} w.heard ∧
    w.impl.supportedFeatures = latest (ofKind .configure (·.supportedFeatures)) 0 w.heard ∧
    w.impl.currentApp = latest (ofKind .imeKeyInject (·.currentApp)) [] w.heard ∧
    w.impl.volumeInfo = latest (ofKind .volume (·.volume)) {} w.heard ∧
    w.impl.isOn = latest (ofKind .start (·.started)) false w.heard ∧
    w.impl.imeCounter = latest (ofKind .imeBatchEdit (·.imeCounter)) 0 w.heard ∧
    w.impl.imeFieldCounter = latest (ofKind .imeBatchEdit (·.fieldCounter)) 0 w.heard := by
  have hk := knowledge_of_reaches h
  have hmembers := learned_members w.heard
  rwa [← hk] at hmembers

theorem getters_return_last_messages_on_off :
    ∃ w, Reaches {} (.connect {} :: Event.handshakes 1 ++
        Event.reads 1 [0xC2, 0x02, 0x02, 0x08, 0x01] ++ Event.reads 1 Event.startMessage) w ∧
      w.heard = [[0xC2, 0x02, 0x02, 0x08, 0x01], Event.startMessage] ∧
      w.impl.isOn = latest (Knowledge.ofKind .start (·.started)) false w.heard := by
  have h : Reaches {} (.connect {} :: Event.handshakes 1 ++
      Event.reads 1 [0xC2, 0x02, 0x02, 0x08, 0x01] ++ Event.reads 1 Event.startMessage) _ :=
    run_of_isSome (by decide +kernel)
  exact ⟨_, h, by decide +kernel, (getters_return_last_messages h).2.2.2.2.1⟩

/-- Every piece of news in a message is told, once and on its connection, and
no other; what the application was told last is what the getters return. -/
theorem callbacks_mirror_getters {o : Options} {es : List Event} {w : World}
    (h : Reaches o es w) :
    w.tagged Record.news = (w.tagged Record.handled).flatMap
      (fun x ↦ ((newsIn x.2).map (Prod.mk x.1)).toList) ∧
    w.impl.state = latest (fun r ↦ r.2.told Callback.state) .disconnected w.trace ∧
    w.impl.isOn = latest (fun r ↦ r.2.told Callback.power) false w.trace ∧
    w.impl.currentApp = latest (fun r ↦ r.2.told Callback.app) [] w.trace ∧
    w.impl.volumeInfo = latest (fun r ↦ r.2.told Callback.volume) {} w.trace ∧
    w.impl.deviceInfo = latest (fun r ↦ r.2.told Callback.device) {} w.trace := by
  have hf := faithful_of_reaches h
  have hnews : w.mirror.entries.filterMap (fun r ↦ (r.2.news).map (Prod.mk r.1)) =
      w.tagged Record.news := by
    apply filterMap_entries
    intro r hr
    have hnone : r.2.news = none := by
      refine told_of_not_isEntry ?_ hr
      intro c hc
      cases hn : c.isNews with
      | true => exact .inr rfl
      | false => simp [hn] at hc
    rw [hnone, Option.map_none]
  have hhandled : w.mirror.entries.filterMap (fun r ↦ (r.2.handled).map (Prod.mk r.1)) =
      w.tagged Record.handled := by
    apply filterMap_entries
    intro r hr
    rw [handled_of_not_isEntry hr, Option.map_none]
  refine ⟨?_, ?_, ?_, ?_, ?_, ?_⟩
  · rw [← hnews, ← hhandled]
    exact hf.news
  · refine hf.state.trans (latest_entries w _ ?_)
    exact fun c hc ↦ .inl hc
  · refine hf.power.trans (latest_entries w _ ?_)
    intro c hc
    cases c <;> first | exact .inr rfl | cases hc
  · refine hf.app.trans (latest_entries w _ ?_)
    intro c hc
    cases c <;> first | exact .inr rfl | cases hc
  · refine hf.volume.trans (latest_entries w _ ?_)
    intro c hc
    cases c <;> first | exact .inr rfl | cases hc
  · refine hf.device.trans (latest_entries w _ ?_)
    intro c hc
    cases c <;> first | exact .inr rfl | cases hc

theorem callbacks_mirror_getters_on_off :
    ∃ w, Reaches {} (.connect {} :: Event.handshakes 1 ++
        Event.reads 1 [0xC2, 0x02, 0x02, 0x08, 0x01] ++ Event.reads 1 Event.startMessage) w ∧
      w.tagged Record.news = [(1, .powerChanged true), (1, .powerChanged false)] ∧
      w.impl.isOn = latest (fun r ↦ r.2.told Callback.power) false w.trace := by
  have h : Reaches {} (.connect {} :: Event.handshakes 1 ++
      Event.reads 1 [0xC2, 0x02, 0x02, 0x08, 0x01] ++ Event.reads 1 Event.startMessage) _ :=
    run_of_isSome (by decide +kernel)
  exact ⟨_, h, by decide +kernel, (callbacks_mirror_getters h).2.2.1⟩

theorem Reflects.no_text {w w' : World} {l : List (ℕ × Record)} (h : Reflects w w')
    (ht : w'.trace = w.trace ++ l) {x : ℕ × Record} (hx : x ∈ l) (hentry : x.2.isEntry = true) :
    x.2.queuedUnder [21] = none := by
  obtain ⟨added, hadded, hnone⟩ := Mirror.Turn.adds h
  have hentries : w'.mirror.entries = w.mirror.entries ++ l.filter fun r ↦ r.2.isEntry := by
    simp [mirror, ht, List.filter_append]
  obtain rfl := List.append_cancel_left (hadded.symm.trans hentries)
  exact hnone x (List.mem_filter.mpr ⟨hx, hentry⟩)

def Sent (o : Options) (es : List Event) (pre : List (ℕ × Record)) (g : ℕ) (m : Bytes) : Prop :=
  ∃ text es₁ es₂ v v' l, es = es₁ ++ .sendText text :: es₂ ∧ Reaches o es₁ v ∧
    v.step (.sendText text) = some v' ∧ v.trace = pre ∧ v.impl.generation = g ∧
    v'.trace = pre ++ (g, .queued m) :: l ∧ text ≠ [] ∧
    m = remoteText text v.impl.imeCounter v.impl.imeFieldCounter

theorem Sent.snoc {o : Options} {es : List Event} {pre : List (ℕ × Record)} {g : ℕ} {m : Bytes}
    (h : Sent o es pre g m) (e : Event) : Sent o (es ++ [e]) pre g m := by
  obtain ⟨text, es₁, es₂, v, v', l, rfl, hrest⟩ := h
  exact ⟨text, es₁, es₂ ++ [e], v, v', l, by simp, hrest⟩

theorem sent_of_step {o : Options} {es : List Event} {v v' : World} {e : Event}
    (hv : Reaches o es v) (he : v.step e = some v') {l pre post : List (ℕ × Record)} {g : ℕ}
    {m : Bytes} (ht : v'.trace = v.trace ++ l) (hl : l = pre ++ (g, .queued m) :: post)
    (hm : outerNumber m = some 21) : Sent o (es ++ [e]) (v.trace ++ pre) g m := by
  have hmem : (g, .queued m) ∈ l := by simp [hl]
  have hentry : (Record.queued m).isEntry = true := by simp [Record.isEntry, hm]
  by_cases htext : ∃ text, e = .sendText text
  · obtain ⟨text, rfl⟩ := htext
    rcases texts_of_step he with hsent | rfl
    · obtain ⟨rest, hrest, hfree⟩ := hsent.trace
      have hnews := List.append_cancel_left (hrest.symm.trans (ht.trans (congrArg _ hl)))
      cases pre with
      | nil =>
        obtain ⟨hfirst, rfl⟩ := List.cons.inj hnews
        obtain ⟨rfl, hqueued⟩ := Prod.mk.inj hfirst
        obtain rfl := Record.queued.inj hqueued
        rw [List.append_nil]
        exact ⟨text, es, [], v, v', _, rfl, hv, he, rfl, rfl, hrest, hsent.nonempty, rfl⟩
      | cons first pre =>
        obtain ⟨-, rfl⟩ := List.cons.inj hnews
        have hnot := hfree (g, .queued m) (by simp)
        cases hnot.symm.trans hentry
    · obtain rfl : l = [] := by simpa using ht
      cases hmem
  · have hreflects := reflects_of_step he fun text hne ↦ htext ⟨text, hne⟩
    have hnone := hreflects.no_text ht hmem hentry
    rw [Record.queuedUnder, if_pos (by simp [hm])] at hnone
    cases hnone

theorem sent_of_reaches {o : Options} {es : List Event} {w : World} (h : Reaches o es w)
    {pre post : List (ℕ × Record)} {g : ℕ} {m : Bytes}
    (ht : w.trace = pre ++ (g, .queued m) :: post) (hm : outerNumber m = some 21) :
    Sent o es pre g m := by
  refine h.history (H := fun es w ↦ ∀ pre post, w.trace = pre ++ (g, .queued m) :: post →
    Sent o es pre g m) ?_ ?_ pre post ht
  · intro pre post ht
    simp [World.ofOptions] at ht
  · intro es v e v' hv ih he pre post ht
    obtain ⟨l, hl⟩ := (inv_of_reaches hv).trace_grows (.one he)
    rcases List.append_eq_append_iff.mp (hl.trans ht) with ⟨first, rfl, hnews⟩ | ⟨rest, hold, hnews⟩
    · exact sent_of_step hv he hl.symm hnews hm
    · cases rest with
      | nil =>
        rw [List.append_nil] at hold
        have hfirst : l = [] ++ (g, .queued m) :: post := hnews.symm
        have hsent := sent_of_step hv he hl.symm hfirst hm
        rwa [List.append_nil, hold] at hsent
      | cons x rest =>
        obtain ⟨rfl, -⟩ := List.cons.inj hnews
        exact (ih pre rest hold).snoc e

open Knowledge in
/-- A text was queued by a call of `sendText`, as the first thing this did, and
carries the counters of the last batch edit received before, on whichever
connection. -/
theorem texts_carry_latest_counters {o : Options} {es : List Event} {w : World}
    (h : Reaches o es w) {pre post : List (ℕ × Record)} {g : ℕ} {m : Bytes}
    (ht : w.trace = pre ++ (g, .queued m) :: post) (hm : outerNumber m = some 21) :
    ∃ text es₁ es₂ v v' l, es = es₁ ++ .sendText text :: es₂ ∧ Reaches o es₁ v ∧
      v.step (.sendText text) = some v' ∧ v.trace = pre ∧ v.impl.generation = g ∧
      v'.trace = pre ++ (g, .queued m) :: l ∧ text ≠ [] ∧ m = remoteText text
        (latest (ofKind .imeBatchEdit (·.imeCounter)) 0 (pre.filterMap fun r ↦ r.2.handled))
        (latest (ofKind .imeBatchEdit (·.fieldCounter)) 0 (pre.filterMap fun r ↦ r.2.handled)) := by
  obtain ⟨text, es₁, es₂, v, v', l, hes, hv, he, rfl, hg, ht', htext, rfl⟩ := sent_of_reaches h ht hm
  refine ⟨text, es₁, es₂, v, v', l, hes, hv, he, rfl, hg, ht', htext, ?_⟩
  have hheard : v.heard = v.trace.filterMap fun r ↦ r.2.handled := by
    simp [heard, tagged, List.map_filterMap]
  obtain ⟨-, -, -, -, -, hcounter, hfield⟩ := getters_return_last_messages hv
  rw [← hheard, ← hcounter, ← hfield]

theorem texts_carry_latest_counters_edited :
    let first : List Event := .connect {} :: Event.handshakes 1 ++
      Event.reads 1 [0xAA, 0x01, 0x04, 0x08, 0x03, 0x10, 0x04]
    ∃ w pre post, Reaches {} (first ++ [.sendText [0x61]]) w ∧
      w.trace = pre ++ (1, .queued (remoteText [0x61] 3 4)) :: post ∧
      ∃ text es₁ es₂ v, first ++ [.sendText [0x61]] = es₁ ++ .sendText text :: es₂ ∧
        Reaches {} es₁ v ∧ v.trace = pre ∧ remoteText [0x61] 3 4 = remoteText text
          (latest (Knowledge.ofKind .imeBatchEdit (·.imeCounter)) 0
            (pre.filterMap fun r ↦ r.2.handled))
          (latest (Knowledge.ofKind .imeBatchEdit (·.fieldCounter)) 0
            (pre.filterMap fun r ↦ r.2.handled)) := by
  intro first
  let w := (exec World.step (World.ofOptions {}) (first ++ [.sendText [0x61]])).get
    (by decide +kernel)
  have h : Reaches {} _ w := run_of_isSome _
  have ht : w.trace = w.trace.take (w.trace.length - 2) ++
      (1, .queued (remoteText [0x61] 3 4)) ::
        [(1, .write (frame (remoteText [0x61] 3 4)))] := by decide +kernel
  obtain ⟨text, es₁, es₂, v, -, -, hes, hv, -, hpre, -, -, -, hm⟩ :=
    texts_carry_latest_counters h ht (by decide +kernel)
  exact ⟨w, _, _, h, ht, text, es₁, es₂, v, hes, hv, hpre, hm⟩

end World

end AndroidTvRemote
