import AndroidTvRemote.Lifecycle
import AndroidTvRemote.NewConnection

namespace AndroidTvRemote

open Wire Protocol SteadyTimer Runs

def Record.call : Record → Option Callback
  | callback c => some c
  | _ => none

/-- What an operation that fails is reported as. -/
def OpKind.failure : OpKind → String
  | resolve _ _ => "DNS/host resolution failed"
  | connect => "TCP connection failed"
  | handshake => "TLS authentication failed; pairing is required"
  | readLength | readBody _ => "read failed"
  | write _ => "write failed"

def Event.quits : Event → Bool
  | disconnect | disconnectAndWait => true
  | _ => false

def tidings (voiceStarting : Bool) (message : Bytes) : List Callback :=
  let incoming := parseRemote message
  match incoming.kind with
  | .configure => [.deviceInfoChanged incoming.deviceInfo]
  | .imeKeyInject => [.currentAppChanged incoming.currentApp]
  | .volume => [.volumeChanged incoming.volume]
  | .start =>
    [.connectionState .connected, .availabilityChanged true, .powerChanged incoming.started]
  | .error => [.error "Android TV reported a remote protocol error"]
  | .voiceBegin => if voiceStarting then [.voiceStarted incoming.voiceSessionId] else []
  | .setActive | .imeBatchEdit | .ping | .unknown => []

namespace Options

variable (o : Options) (state : ConnectionState)

def parting : List Callback :=
  (if state = .connected then [.availabilityChanged false] else []) ++
    [.connectionState (if o.autoReconnect then .reconnecting else .disconnected)]

def loss (what : String) : List Callback := .error what :: o.parting state

/-- What the application is told of an operation that fails. -/
def failed (k : OpKind) (error : String) : List Callback :=
  let what := k.failure ++ ": " ++ error
  match k with
  | .handshake => [.error what, .connectionState .disconnected, .authenticationRequired]
  | _ => o.loss state what

end Options

namespace World

def attemptAnswer (w : World) (state : ConnectionState) (a : IdentityAttempt) : List Callback :=
  match (w.ensureSslContext a).2 with
  | .ok () => [.connectionState state]
  | .error what =>
    [.error ("unable to load TLS certificate/key: " ++ what), .connectionState .disconnected]

def completeAnswer (w : World) (op : Op) (c : Completion) : List Callback :=
  if op.generation ≠ w.impl.generation then []
  else match op.kind, c.error with
  | k, some error => w.impl.options.failed w.impl.state k error
  | .readLength, none =>
    if w.impl.refuses (c.bytes.headD 0) then
      w.impl.options.loss w.impl.state
        (if (c.bytes.headD 0 &&& 0x80 : UInt8) ≠ 0 then "invalid protobuf frame length"
          else "protobuf frame exceeds 4 MiB safety limit")
    else []
  | .readBody _, none => tidings w.impl.voiceStarting c.bytes
  | _, none => []

def voiceAnswer (w : World) : List Callback :=
  if !w.impl.voiceEnabled then
    [.error "voice is not enabled or not supported by the Android TV"]
  else if w.impl.voiceStarting || w.impl.voiceSessionId.isSome then
    [.error "voice session already in progress"]
  else if w.impl.state ≠ .connected then [.error "cannot start voice while disconnected"]
  else []

end World

/-- What the application is told of an event. -/
def Event.answer (w : World) : Event → List Callback
  | connect a => w.attemptAnswer .connecting a
  | disconnect => [.connectionState .disconnected, .availabilityChanged false]
  | disconnectAndWait => [.connectionState .disconnected]
  | complete op c => w.completeAnswer op c
  | reconnectWait q a =>
    if q.2 = .success ∧ w.impl.userDisconnect = false then w.attemptAnswer .reconnecting a else []
  | idleWait q =>
    if q.2 = .success ∧ w.impl.userDisconnect = false ∧ q.1.captured = w.impl.generation then
      w.impl.options.loss w.impl.state
        "closing idle Android TV connection after 16 seconds without traffic"
    else []
  | voiceWait q =>
    if q.2 = .success ∧ w.impl.voiceStarting = true then
      [.error "Android TV did not start a voice session within 2 seconds"]
    else []
  | startVoice => w.voiceAnswer
  | stopVoice => if w.impl.voiceSessionId.isSome then [.voiceStopped] else []
  | sendKey _ _ | sendText _ | launchApp _ | sendVoiceData _ => []
  | reconnectExpires | idleExpires | voiceExpires => []

def lastState (calls : List Callback) : ConnectionState :=
  latest Callback.state .disconnected calls

@[simp] theorem lastState_snoc (calls : List Callback) (c : Callback) :
    lastState (calls ++ [c]) = c.state.getD (lastState calls) := latest_snoc ..

namespace Callback

/-- What a call comes directly behind, whichever the run. -/
def Follows (before : List Callback) : Callback → Prop
  | authenticationRequired => ∃ error,
      [.error (OpKind.handshake.failure ++ ": " ++ error), .connectionState .disconnected] <:+ before
  | powerChanged _ => [.connectionState .connected, .availabilityChanged true] <:+ before
  | availabilityChanged true => [.connectionState .connected] <:+ before
  | availabilityChanged false => [.connectionState .disconnected] <:+ before ∨
      lastState before = .connected ∧ ∃ what, [.error what] <:+ before
  | _ => True

/-- The end of a connection comes directly behind what it was for. -/
def Explained (before : List Callback) : Callback → Prop
  | connectionState .disconnected => ∃ what,
      [.error what] <:+ before ∨ [.error what, .availabilityChanged false] <:+ before
  | _ => True

end Callback

section Rules

open Callback

variable {o : Options} {w : World} {calls : List Callback}

theorem follows_loss (what : String) :
    JustifiedFrom Follows calls (o.loss (lastState calls) what) := by
  by_cases hc : lastState calls = .connected
  · rw [Options.loss, Options.parting, if_pos hc]
    refine ⟨trivial, .inr ⟨?_, what, List.suffix_append calls _⟩, trivial, trivial⟩
    rw [lastState_snoc]
    exact hc
  · rw [Options.loss, Options.parting, if_neg hc]
    exact ⟨trivial, trivial, trivial⟩

theorem follows_failed (k : OpKind) (error : String) :
    JustifiedFrom Follows calls (o.failed (lastState calls) k error) := by
  cases k with
  | handshake =>
    refine ⟨trivial, trivial, ⟨error, ?_⟩, trivial⟩
    rw [List.append_assoc]
    exact List.suffix_append calls _
  | _ => exact follows_loss _

theorem follows_tidings (voiceStarting : Bool) (message : Bytes) :
    JustifiedFrom Follows calls (tidings voiceStarting message) := by
  unfold tidings
  simp only
  cases (parseRemote message).kind with
  | start =>
    refine ⟨trivial, List.suffix_append calls _, ?_, trivial⟩
    change _ <:+ calls ++ [_] ++ [_]
    rw [List.append_assoc]
    exact List.suffix_append calls _
  | configure | imeKeyInject | volume | error => exact ⟨trivial, trivial⟩
  | voiceBegin => cases voiceStarting <;> simp [JustifiedFrom, Follows]
  | setActive | imeBatchEdit | ping | unknown => trivial

theorem follows_complete (hs : lastState calls = w.impl.state) (op : Op) (c : Completion) :
    JustifiedFrom Follows calls (w.completeAnswer op c) := by
  rw [World.completeAnswer, ← hs]
  split
  · trivial
  split
  next error _ => exact follows_failed op.kind error
  next =>
    split
    · exact follows_loss _
    · trivial
  next => exact follows_tidings _ _
  next => trivial

/-- Every answer keeps to the rule, to an application that knows the state. -/
theorem follows_answer (hs : lastState calls = w.impl.state) (e : Event) :
    JustifiedFrom Follows calls (e.answer w) := by
  have hattempt : ∀ state a, JustifiedFrom Follows calls (w.attemptAnswer state a) := by
    intro state a
    unfold World.attemptAnswer
    split
    · exact ⟨trivial, trivial⟩
    · exact ⟨trivial, trivial, trivial⟩
  cases e with
  | connect a => exact hattempt _ a
  | disconnect => exact ⟨trivial, .inl (List.suffix_append calls _), trivial⟩
  | disconnectAndWait => exact ⟨trivial, trivial⟩
  | complete op c => exact follows_complete hs op c
  | reconnectWait q a =>
    simp only [Event.answer]
    split
    · exact hattempt _ a
    · trivial
  | idleWait q =>
    simp only [Event.answer]
    split
    · rw [← hs]
      exact follows_loss _
    · trivial
  | startVoice =>
    simp only [Event.answer, World.voiceAnswer]
    split_ifs <;> trivial
  | voiceWait | stopVoice =>
    simp only [Event.answer]
    split
    · exact ⟨trivial, trivial⟩
    · trivial
  | _ => trivial

theorem explained_loss (state : ConnectionState) (what : String) :
    JustifiedFrom Explained calls (o.loss state what) := by
  have hexplained : ∀ before state, [.error what] <:+ before ∨
      [.error what, .availabilityChanged false] <:+ before →
      Explained before (.connectionState state) := by
    intro before state hbefore
    cases state with
    | disconnected => exact ⟨what, hbefore⟩
    | _ => trivial
  by_cases hc : state = .connected
  · rw [Options.loss, Options.parting, if_pos hc]
    refine ⟨trivial, trivial, hexplained _ _ (.inr ?_), trivial⟩
    rw [List.append_assoc]
    exact List.suffix_append calls _
  · rw [Options.loss, Options.parting, if_neg hc]
    exact ⟨trivial, hexplained _ _ (.inl (List.suffix_append calls _)), trivial⟩

theorem explained_tidings (voiceStarting : Bool) (message : Bytes) :
    JustifiedFrom Explained calls (tidings voiceStarting message) := by
  unfold tidings
  simp only
  cases (parseRemote message).kind with
  | start => exact ⟨trivial, trivial, trivial, trivial⟩
  | configure | imeKeyInject | volume | error => exact ⟨trivial, trivial⟩
  | voiceBegin => cases voiceStarting <;> simp [JustifiedFrom, Explained]
  | setActive | imeBatchEdit | ping | unknown => trivial

theorem explained_complete (op : Op) (c : Completion) :
    JustifiedFrom Explained calls (w.completeAnswer op c) := by
  rw [World.completeAnswer]
  split
  · trivial
  split
  next =>
    cases op.kind with
    | handshake => exact ⟨trivial, ⟨_, .inl (List.suffix_append calls _)⟩, trivial, trivial⟩
    | _ => exact explained_loss _ _
  next =>
    split
    · exact explained_loss _ _
    · trivial
  next => exact explained_tidings _ _
  next => trivial

theorem explained_answer {e : Event} (he : e.quits = false) :
    JustifiedFrom Explained calls (e.answer w) := by
  have hattempt : ∀ state a, state ≠ .disconnected →
      JustifiedFrom Explained calls (w.attemptAnswer state a) := by
    intro state a hstate
    unfold World.attemptAnswer
    split
    · cases state with
      | disconnected => exact absurd rfl hstate
      | _ => exact ⟨trivial, trivial⟩
    · exact ⟨trivial, ⟨_, .inl (List.suffix_append calls _)⟩, trivial⟩
  cases e with
  | connect a => exact hattempt _ a (by simp)
  | disconnect | disconnectAndWait => cases he
  | complete op c => exact explained_complete op c
  | reconnectWait q a =>
    simp only [Event.answer]
    split
    · exact hattempt _ a (by simp)
    · trivial
  | idleWait q =>
    simp only [Event.answer]
    split
    · exact explained_loss _ _
    · trivial
  | startVoice =>
    simp only [Event.answer, World.voiceAnswer]
    split_ifs <;> trivial
  | voiceWait | stopVoice =>
    simp only [Event.answer]
    split
    · exact ⟨trivial, trivial⟩
    · trivial
  | _ => trivial

end Rules

namespace World

def calls (w : World) : List Callback := w.trace.filterMap fun r ↦ r.2.call

section Primitives

variable {w : World}

theorem calls_append {w' : World} {l : List (ℕ × Record)} (ht : w'.trace = w.trace ++ l) :
    w'.calls = w.calls ++ l.filterMap fun r ↦ r.2.call := by
  rw [calls, ht, List.filterMap_append]
  rfl

theorem calls_log {r : Record} (hr : r.call = none) : (w.log r).calls = w.calls := by
  rw [calls_append (log_trace w r)]
  simp [hr]

theorem calls_emit (c : Callback) : (w.emit c).calls = w.calls ++ [c] :=
  calls_append (log_trace w (.callback c))

theorem calls_beginWrite : w.beginWrite.calls = w.calls := by
  unfold beginWrite
  split
  · exact calls_log (w := { w with impl.writeInProgress := true }) rfl
  · rfl

theorem calls_queueMessage (m : Bytes) : (w.queueMessage m).calls = w.calls := by
  cases hs : w.impl.stream with
  | none => rw [queueMessage_none w m hs]
  | some s =>
    have hlog := calls_log (w := { w.resetIdleTimer with
      impl.writeQueue := w.impl.writeQueue ++ [frame m] }) (r := .queued m) rfl
    rw [queueMessage_eq w m (by simp [hs])]
    simp only
    split
    · exact hlog
    · exact calls_beginWrite.trans hlog

theorem calls_sendVoiceData (pcm : Bytes) : (w.sendVoiceData pcm).calls = w.calls := by
  have hchunks : ∀ (s : Int32) offset v,
      (World.sendVoiceChunks s pcm offset v).calls = v.calls := by
    intro s offset v
    fun_induction World.sendVoiceChunks s pcm offset v with
    | case1 offset v hlt ih => exact ih.trans (calls_queueMessage _)
    | case2 => rfl
  unfold sendVoiceData
  split
  · rfl
  · exact hchunks _ _ _

theorem calls_startOnStream (op : Op) : (w.startOnStream op).calls = w.calls := by
  unfold startOnStream
  split
  · rfl
  · exact calls_log rfl

theorem calls_readOneLengthByte (g : ℕ) : (w.readOneLengthByte g).calls = w.calls := by
  unfold readOneLengthByte
  split <;> rfl

theorem calls_beginReadLength (g : ℕ) : (w.beginReadLength g).calls = w.calls := by
  unfold beginReadLength
  split
  · rfl
  · exact calls_readOneLengthByte (w := { w with impl.readLength := 0, impl.readShift := 0 }) g

theorem calls_handleMessage (m : Bytes) :
    (w.handleMessage m).calls = w.calls ++ tidings w.impl.voiceStarting m := by
  have hreceived : (w.log (.received m)).calls = w.calls := calls_log rfl
  unfold handleMessage tidings
  simp only
  cases hk : (parseRemote m).kind with
  | configure =>
    refine (calls_queueMessage _).trans ((calls_emit _).trans ?_)
    exact congrArg (· ++ _) hreceived
  | setActive | ping =>
    exact (calls_queueMessage _).trans (hreceived.trans (List.append_nil _).symm)
  | imeKeyInject | volume => exact (calls_emit _).trans (congrArg (· ++ _) hreceived)
  | imeBatchEdit | unknown => exact hreceived.trans (List.append_nil _).symm
  | start =>
    refine (calls_emit _).trans ?_
    rw [emitAvailability, calls_emit, setState, calls_emit, List.append_assoc, List.append_assoc]
    exact congrArg (· ++ _) hreceived
  | error => exact (calls_emit _).trans (congrArg (· ++ _) hreceived)
  | voiceBegin =>
    by_cases hv : w.impl.voiceStarting = true
    · rw [if_pos (by exact hv), if_pos hv]
      refine (calls_emit _).trans (congrArg (· ++ _) ?_)
      exact (calls_queueMessage _).trans hreceived
    · rw [if_neg (by exact hv), if_neg hv]
      exact hreceived.trans (List.append_nil _).symm

end Primitives

theorem attemptAnswer_congr {v w : World} (hc : v.impl.sslContext = w.impl.sslContext)
    (ho : v.impl.options = w.impl.options) (state : ConnectionState) (a : IdentityAttempt) :
    v.attemptAnswer state a = w.attemptAnswer state a := by
  rw [attemptAnswer, attemptAnswer, ensureSslContext_result hc ho a]

section Endings

variable {w : World} (hu : w.impl.userDisconnect = false) (ha : w.impl.shuttingDown = false)

include hu ha

theorem calls_lose : (w.handleConnectionLoss w.impl.generation).calls =
    w.calls ++ w.impl.options.parting w.impl.state := by
  rw [handleConnectionLoss_spec hu ha, Options.parting]
  by_cases hc : w.impl.state = .connected <;> cases ho : w.impl.options.autoReconnect <;>
    simp [hc, calls, Record.call]

theorem calls_giveUp (what : String) {g : ℕ} (hg : g = w.impl.generation) :
    ((w.emitError what).handleConnectionLoss g).calls =
      w.calls ++ w.impl.options.loss w.impl.state what := by
  subst hg
  have hlose := calls_lose (w := w.emitError what) hu ha
  rw [emitError, calls_emit, List.append_assoc] at hlose
  exact hlose

theorem calls_connectionFailed (prefixText error : String) :
    (w.connectionFailed prefixText error w.impl.generation).calls =
      w.calls ++ w.impl.options.loss w.impl.state (prefixText ++ ": " ++ error) := by
  rw [connectionFailed_spec prefixText error hu ha]
  exact calls_giveUp hu ha _ rfl

theorem calls_authenticationFailed (hc : w.impl.state ≠ .connected) (error : String) :
    (w.authenticationFailed error w.impl.generation).calls =
      w.calls ++ w.impl.options.failed w.impl.state .handshake error := by
  rw [authenticationFailed_spec error hu ha]
  simp only [hc, if_false, List.append_nil]
  refine (calls_append (l := [_, _, _] ++ [_]) (List.append_assoc ..)).trans ?_
  rfl

theorem calls_beginConnect (reconnecting : Bool) (a : IdentityAttempt) :
    (w.beginConnect reconnecting a).calls = w.calls ++
      w.attemptAnswer (if reconnecting then .reconnecting else .connecting) a := by
  obtain ⟨n, context, l, hv, hl, hok⟩ := ensureSslContext_spec a w.closeStream
  have hidentity : l.filterMap (fun r ↦ r.2.call) = [] := by
    apply List.filterMap_eq_nil_iff.mpr
    intro r hr
    obtain ⟨k, b, rfl⟩ := hl r hr
    rfl
  have hanswer := attemptAnswer_congr (v := w) (w := w.closeStream) rfl rfl
  rw [hanswer, attemptAnswer]
  cases he : w.closeStream.ensureSslContext a with
  | mk v result =>
    obtain rfl : v = _ := (congrArg Prod.fst he).symm.trans hv
    have hcalls : (w.trace ++ l).filterMap (fun r ↦ r.2.call) = w.calls := by
      rw [List.filterMap_append, hidentity, List.append_nil]
      rfl
    cases result with
    | error what =>
      rw [beginConnect_error reconnecting ha hu he]
      exact (List.filterMap_append ..).trans (congrArg (· ++ _) hcalls)
    | ok =>
      obtain ⟨k, rfl⟩ := Option.isSome_iff_exists.mp (hok (congrArg Prod.snd he))
      rw [beginConnect_ok reconnecting ha hu he rfl]
      exact (List.filterMap_append ..).trans (congrArg (· ++ _) hcalls)

end Endings

section Handlers

variable {w v : World} {c : Completion}

theorem calls_startVoice : w.startVoice.calls = w.calls ++ w.voiceAnswer := by
  unfold startVoice voiceAnswer
  split_ifs
  · exact calls_emit _
  · exact calls_emit _
  · exact calls_emit _
  · rw [List.append_nil]
    exact calls_queueMessage (w := { w with impl.voiceStarting := true }) _

theorem calls_stopVoice : w.stopVoice.calls = w.calls ++ Event.stopVoice.answer w := by
  cases hv : w.impl.voiceSessionId with
  | none =>
    rw [stopVoice_none hv, Event.answer, if_neg (by simp [hv]), List.append_nil]
    rfl
  | some s =>
    rw [stopVoice_some hv, Event.answer, if_pos (by simp [hv])]
    refine (calls_emit _).trans (congrArg (· ++ _) ?_)
    exact calls_queueMessage (w := { w with
      voiceTimer := w.voiceTimer.cancel
      impl.voiceStarting := false }) _

section Completed

variable (hu : v.impl.userDisconnect = false) (ha : v.impl.shuttingDown = false) {k : OpKind}

include hu ha

theorem calls_failed {error : String} (he : c.error = some error)
    (hk : k = .handshake → v.impl.state ≠ .connected) :
    (v.handler ⟨v.impl.generation, k⟩ c).calls =
      v.calls ++ v.impl.options.failed v.impl.state k error := by
  cases k with
  | resolve | connect | readLength | readBody =>
    simp only [handler, onResolve, onConnect, onReadLength, onReadBody, he, ne_eq,
      not_true_eq_false, if_false]
    exact calls_connectionFailed hu ha _ error
  | write =>
    simp only [handler, onWrite, he, ne_eq, not_true_eq_false, if_false]
    exact calls_connectionFailed (w := { v with impl.writeInProgress := false }) hu ha _ error
  | handshake =>
    simp only [handler, onHandshake, he, ne_eq, not_true_eq_false, if_false]
    exact calls_authenticationFailed hu ha (hk rfl) error

theorem calls_refused {i : Impl} (hi : i.core = v.impl.core) (what : String) :
    (({ v with impl := i }.emitError what).handleConnectionLoss v.impl.generation).calls =
      v.calls ++ v.impl.options.loss v.impl.state what := by
  have hu' : i.userDisconnect = false := (congrArg Core.userDisconnect hi).trans hu
  have ha' : i.shuttingDown = false := (congrArg Core.shuttingDown hi).trans ha
  have hgiven := calls_giveUp (w := { v with impl := i }) hu' ha' what
    (congrArg Core.generation hi).symm
  rwa [show i.options = v.impl.options from congrArg Core.options hi,
    show i.state = v.impl.state from congrArg Core.state hi] at hgiven

theorem calls_readLength (he : c.error = none) (hbyte : v.impl.lengthByte = c.bytes.headD 0) :
    (v.onReadLength v.impl.generation c).calls =
      v.calls ++ v.completeAnswer ⟨v.impl.generation, .readLength⟩ c := by
  simp only [onReadLength, completeAnswer, Impl.refuses, ← hbyte, he, ne_eq, not_true_eq_false,
    if_false]
  by_cases hb : (v.impl.lengthByte &&& 0x80 : UInt8) = 0
  · simp only [hb, not_true_eq_false, if_false, decide_eq_true_eq]
    split
    · exact calls_refused hu ha (by rfl) _
    rw [List.append_nil]
    split
    · have hnone : ∀ b, tidings b [] = [] := by decide +kernel
      refine (calls_beginReadLength _).trans ((calls_handleMessage []).trans ?_)
      rw [hnone, List.append_nil]
      rfl
    · exact calls_startOnStream (w := _) _
  · simp only [hb, not_false_eq_true, if_true, decide_eq_true_eq]
    split
    · exact calls_refused hu ha (by rfl) _
    · rw [List.append_nil]
      exact calls_readOneLengthByte (w := _) _

theorem calls_succeeded (he : c.error = none)
    (hbyte : k = .readLength → v.impl.lengthByte = c.bytes.headD 0)
    (hbody : ∀ size, k = .readBody size → v.impl.readBody = c.bytes) :
    (v.handler ⟨v.impl.generation, k⟩ c).calls =
      v.calls ++ v.completeAnswer ⟨v.impl.generation, k⟩ c := by
  cases k with
  | readLength => exact calls_readLength hu ha he (hbyte rfl)
  | resolve | connect =>
    simp only [handler, onResolve, onConnect, completeAnswer, he, ne_eq, not_true_eq_false,
      if_false, List.append_nil]
    exact calls_startOnStream _
  | handshake =>
    simp only [handler, onHandshake, completeAnswer, he, ne_eq, not_true_eq_false, if_false,
      List.append_nil]
    refine (calls_beginReadLength _).trans ?_
    exact calls_log rfl
  | readBody size =>
    simp only [handler, onReadBody, completeAnswer, he, ne_eq, not_true_eq_false, if_false]
    rw [← hbody size rfl]
    exact (calls_beginReadLength _).trans (calls_handleMessage _)
  | write =>
    simp only [handler, onWrite, completeAnswer, he, ne_eq, not_true_eq_false, if_false,
      List.append_nil]
    exact calls_beginWrite (w := _)

end Completed

end Handlers

/-- The handshake of a connection is over once the object is connected. -/
theorem Staged.not_connected {w : World} (h : w.Staged)
    (hop : (⟨w.impl.generation, .handshake⟩ : Op) ∈ w.ops) : w.impl.state ≠ .connected := by
  intro hc
  have hs := h.live_of_op hop rfl
  obtain ⟨k, hb, -⟩ := h.ledger hs
  have hmem : (⟨w.impl.generation, .handshake⟩ : Op) ∈ w.current := by
    simp [current, hop, OpKind.isWrite]
  obtain rfl : .handshake = k := by simpa [hb.current, OpKind.isWrite] using hmem
  cases h.reading hs hb rfl hc

section Steps

variable {w w' : World}

theorem Staged.calls_complete (h : w.Staged) {op : Op} (hop : op ∈ w.ops) {c : Completion}
    (hf : c.Fits op.kind) : (w.complete op c).calls = w.calls ++ w.completeAnswer op c := by
  obtain ⟨byte, body, hv⟩ := fill_eq op c { w with ops := w.ops.erase op }
  by_cases hg : op.generation = w.impl.generation
  · obtain ⟨g, k⟩ := op
    obtain rfl : g = w.impl.generation := hg
    have hu := (h.opened (h.live_of_op hop rfl)).wanted
    unfold World.complete
    rw [hv]
    let v := { w with
      ops := w.ops.erase ⟨w.impl.generation, k⟩
      impl.lengthByte := byte
      impl.readBody := body }
    have hanswer : v.completeAnswer ⟨w.impl.generation, k⟩ c =
        w.completeAnswer ⟨w.impl.generation, k⟩ c := rfl
    rw [← hanswer]
    cases he : c.error with
    | some error =>
      refine (calls_failed (v := v) hu h.alive he ?_).trans (congrArg (v.calls ++ ·) ?_)
      · rintro rfl
        exact h.not_connected hop
      · simp only [completeAnswer, he, ne_eq]
        exact (if_neg (not_not.mpr rfl)).symm
    | none =>
      refine calls_succeeded (v := v) hu h.alive he ?_ ?_
      · rintro rfl
        exact (congrArg (fun v ↦ v.impl.lengthByte) hv).symm.trans (fill_readLength hf he _)
      · rintro size rfl
        exact (congrArg (fun v ↦ v.impl.readBody) hv).symm.trans (fill_readBody hf he _)
  · rw [World.complete_stale hg c, hv, completeAnswer, if_pos hg, List.append_nil]
    rfl

theorem Staged.calls_step (h : w.Staged) {e : Event} (he : w.step e = some w') :
    w'.calls = w.calls ++ e.answer w := by
  cases happens_of_step he with
  | connect a =>
    refine (calls_beginConnect (w := w.wanting 100 w.reconnectTimer.cancel) rfl h.alive false
      a).trans (congrArg (w.calls ++ ·) ?_)
    exact attemptAnswer_congr (v := w.wanting 100 w.reconnectTimer.cancel) (w := w) rfl rfl _ a
  | disconnect =>
    refine (calls_emit _).trans ?_
    rw [setState, calls_emit, List.append_assoc]
    rfl
  | disconnectAndWait =>
    unfold disconnectAndWait
    exact calls_emit _
  | sendKey | sendText | launchApp => exact (calls_queueMessage _).trans (List.append_nil _).symm
  | startVoice => exact calls_startVoice
  | sendVoiceData pcm => exact (calls_sendVoiceData pcm).trans (List.append_nil _).symm
  | stopVoice => exact calls_stopVoice
  | complete op c hop hf => exact h.calls_complete hop hf
  | reconnectExpires | idleExpires | voiceExpires => exact (List.append_nil _).symm
  | reconnectWait q a =>
    simp only [onReconnectWait, Event.answer]
    split_ifs with hg
    · refine (calls_beginConnect (w := { w with
        reconnectTimer := w.reconnectTimer.dequeue q }) hg.2 h.alive true a).trans
          (congrArg (w.calls ++ ·) ?_)
      exact attemptAnswer_congr (v := { w with
        reconnectTimer := w.reconnectTimer.dequeue q }) (w := w) rfl rfl _ a
    · exact (List.append_nil _).symm
  | idleWait q =>
    simp only [onIdleWait, Event.answer]
    split_ifs with hg
    · exact calls_giveUp (w := { w with idleTimer := w.idleTimer.dequeue q }) hg.2.1 h.alive _ hg.2.2
    · exact (List.append_nil _).symm
  | voiceWait q =>
    simp only [onVoiceWait, Event.answer]
    split_ifs
    · exact calls_emit _
    · exact (List.append_nil _).symm

end Steps

theorem staged_of_reaches {o : Options} {es : List Event} {w : World} (h : Reaches o es w) :
    w.Staged := h.invariant (fun _ _ _ hs he ↦ hs.next he) (staged_ofOptions o)

theorem lastState_calls {o : Options} {es : List Event} {w : World} (h : Reaches o es w) :
    lastState w.calls = w.impl.state := by
  have hstate : latest (fun r ↦ r.2.told Callback.state) .disconnected w.trace = w.impl.state :=
    (latest_entries w _ fun c hc ↦ .inl hc).symm.trans (faithful_of_reaches h).state.symm
  rw [← hstate, lastState, latest, latest, calls, List.filterMap_filterMap]
  congr 3
  funext r
  cases r.2 <;> rfl

def answers (o : Options) (es : List Event) : List Callback :=
  (acts World.step (fun w e ↦ some (e.answer w)) (World.ofOptions o) es).flatten

theorem answers_snoc {o : Options} {es : List Event} {w w' : World} {e : Event}
    (h : Reaches o es w) (he : w.step e = some w') :
    answers o (es ++ [e]) = answers o es ++ e.answer w := by
  rw [answers, h.acts_append, List.flatten_append, acts_cons he]
  simp [answers, acts]

theorem calls_of_reaches {o : Options} {es : List Event} {w : World} (h : Reaches o es w) :
    w.calls = answers o es := by
  refine h.history (H := fun es w ↦ w.calls = answers o es) rfl ?_
  intro es t e u ht ih he
  rw [answers_snoc ht he, ← ih]
  exact (staged_of_reaches ht).calls_step he

theorem justified_of_answers {J : List Callback → Callback → Prop} {o : Options}
    {es : List Event} {w : World} (h : Reaches o es w)
    (hJ : ∀ w, ∀ e ∈ es, lastState w.calls = w.impl.state →
      JustifiedFrom J w.calls (e.answer w)) : Justified J w.calls := by
  refine h.history (H := fun es w ↦ (∀ w, ∀ e ∈ es, lastState w.calls = w.impl.state →
    JustifiedFrom J w.calls (e.answer w)) → Justified J w.calls) (fun _ ↦ justified_nil J) ?_ hJ
  intro es t e u ht ih he hJ
  rw [(staged_of_reaches ht).calls_step he]
  refine (ih fun w e he ↦ hJ w e (List.mem_append_left _ he)).append_from ?_
  exact hJ t e (by simp) (lastState_calls ht)

/-- What the application is told makes sense to it. Every event is answered by
what its kind and the state it meets call for, so that the state told last is
the state there is; the parts of an answer are never told apart from one
another, so that the object is never lost, nor pairing asked for, without an
error that says why; and a failure of the current connection is always told. -/
theorem calls_tell_story {o : Options} {es : List Event} {w : World} (h : Reaches o es w) :
    w.calls = answers o es ∧ (∀ e w', w.step e = some w' → w'.calls = w.calls ++ e.answer w) ∧
    lastState w.calls = w.impl.state ∧ Justified Callback.Follows w.calls ∧
    ((∀ e ∈ es, e.quits = false) → Justified Callback.Explained w.calls) ∧
    ∀ op c error w', op.generation = w.impl.generation → c.error = some error →
      w.step (.complete op c) = some w' →
        w'.calls = w.calls ++ o.failed w.impl.state op.kind error := by
  have hstep : ∀ e w', w.step e = some w' → w'.calls = w.calls ++ e.answer w :=
    fun _ _ he ↦ (staged_of_reaches h).calls_step he
  refine ⟨calls_of_reaches h, hstep, lastState_calls h, ?_, ?_, ?_⟩
  · exact justified_of_answers h fun _ e _ hs ↦ follows_answer hs e
  · intro hquits
    exact justified_of_answers h fun _ e he _ ↦ explained_answer (hquits e he)
  · intro op c error w' hg hc he
    rw [hstep _ _ he, Event.answer, completeAnswer, if_neg (not_not.mpr hg), hc,
      options_of_reaches h]

theorem calls_tell_story_refused :
    let es : List Event := [.connect {},
      .complete ⟨1, .resolve "" "6466"⟩ {}, .complete ⟨1, .connect⟩ {},
      .complete ⟨1, .handshake⟩ { error := some "alert" }]
    ∃ w, Reaches {} es w ∧ w.calls = answers {} es ∧ Justified Callback.Explained w.calls ∧
      answers {} es = [.connectionState .connecting,
        .error "TLS authentication failed; pairing is required: alert",
        .connectionState .disconnected, .authenticationRequired] := by
  intro es
  have h : Reaches {} es _ := run_of_isSome (by decide +kernel)
  obtain ⟨hcalls, -, -, -, hexplained, -⟩ := calls_tell_story h
  exact ⟨_, h, hcalls, hexplained (by decide), by decide +kernel⟩

end World

end AndroidTvRemote
