import AndroidTvRemote.Events
import AndroidTvRemote.Specs
import Mathlib.Logic.Relation

namespace AndroidTvRemote

open Wire Protocol SteadyTimer

structure Core where
  options : Options
  state : ConnectionState
  shuttingDown : Bool
  sslContext : Option ℕ
  stream : Option Stream
  userDisconnect : Bool
  voiceStarting : Bool
  voiceSessionId : Option Int32
  generation : ℕ
  writeQueue : List Bytes
  writeInProgress : Bool

def Impl.core (i : Impl) : Core where
  options := i.options
  state := i.state
  shuttingDown := i.shuttingDown
  sslContext := i.sslContext
  stream := i.stream
  userDisconnect := i.userDisconnect
  voiceStarting := i.voiceStarting
  voiceSessionId := i.voiceSessionId
  generation := i.generation
  writeQueue := i.writeQueue
  writeInProgress := i.writeInProgress

/-- The callbacks that carry news without a place in the protocol of the
object: neither the connection state nor a voice session. -/
def Callback.isReport : Callback → Bool
  | powerChanged _ | currentAppChanged _ | volumeChanged _ | deviceInfoChanged _
  | authenticationRequired | error _ => true
  | connectionState _ | availabilityChanged _ | voiceStarted _ | voiceStopped => false

/-- The records that the end of a connection leaves. -/
def Record.isClosing : Record → Bool
  | callback _ | lost | refused | reconnectArmed _ => true
  | identity _ _ | opened _ | handshake | queued _ | write _ | received _ | nullDereference => false

inductive Reply : Bytes → Prop
  | configure (features : Int32) : Reply (remoteConfigureResponse features)
  | setActive (features : Int32) : Reply (remoteSetActiveResponse features)
  | ping (value : Int32) : Reply (remotePingResponse value)

def Event.message (w : World) : Event → Option Bytes
  | sendKey key direction => some (remoteKey key direction)
  | sendText text => some (remoteText text w.impl.imeCounter w.impl.imeFieldCounter)
  | launchApp appLink => some (remoteAppLink appLink)
  | _ => none

theorem World.step_message {w w' : World} {e : Event} {m : Bytes} (hm : e.message w = some m)
    (he : w.step e = some w') : w' = w.queueMessage m := by
  cases happens_of_step he with
  | sendKey | sendText | launchApp =>
    obtain rfl := Option.some.inj hm
    rfl
  | _ => cases hm

def Impl.refuses (i : Impl) (byte : UInt8) : Bool :=
  if (byte &&& 0x80 : UInt8) ≠ 0 then i.readShift + 7 > 63
  else (i.readLength ||| ((byte &&& 0x7f).toUInt64 <<< UInt64.ofNat i.readShift)).toNat >
    World.maxFrameSize

/-- The event makes `beginConnect` look for the client identity, with these
answers. -/
def Event.attempt (w : World) : Event → Option IdentityAttempt
  | connect a => some a
  | reconnectWait q a => if q.2 = .success ∧ w.impl.userDisconnect = false then some a else none
  | _ => none

/-- The object as `beginConnect` finds it. -/
def World.wanting (delay : ℕ) (t : Timer Unit) (w : World) : World :=
  { w with impl.userDisconnect := false, impl.reconnectDelay := delay, reconnectTimer := t }

theorem World.step_attempt {w w' : World} {e : Event} {a : IdentityAttempt}
    (ha : e.attempt w = some a) (he : w.step e = some w') :
    ∃ reconnecting delay t, w' = (w.wanting delay t).beginConnect reconnecting a := by
  cases happens_of_step he with
  | connect a =>
    obtain rfl := Option.some.inj ha
    exact ⟨false, 100, w.reconnectTimer.cancel, rfl⟩
  | reconnectWait q a =>
    obtain ⟨hg, ⟨⟩⟩ := (Option.ite_none_right_eq_some ..).mp ha
    refine ⟨true, w.impl.reconnectDelay, w.reconnectTimer.dequeue q, ?_⟩
    rw [onReconnectWait, if_pos hg, wanting, ← hg.2]
  | _ => cases ha

namespace World

def Handshaken (w : World) : Prop := (w.impl.generation, Record.handshake) ∈ w.trace

def HasRead (w : World) (P : RemoteIncoming → Prop) : Prop :=
  ∃ m, (w.impl.generation, Record.received m) ∈ w.trace ∧ P (parseRemote m)

inductive Ends (w : World) : World → Prop
  | mk (state : ConnectionState) (delay : ℕ) (t : Timer Unit) (l : List (ℕ × Record))
      (hstate : state = .disconnected ∨ state = .reconnecting ∧ t.Pending)
      (hl : ∀ r ∈ l, r.1 ≤ w.impl.generation + 1 ∧ r.2.isClosing = true) :
      Ends w { w.closeStream with
        impl.state := state
        impl.reconnectDelay := delay
        reconnectTimer := t
        trace := w.trace ++ l }

theorem ends_lose {w : World} (hu : w.impl.userDisconnect = false)
    (ha : w.impl.shuttingDown = false) : Ends w (w.handleConnectionLoss w.impl.generation) := by
  rw [handleConnectionLoss_spec hu ha]
  simp only [List.append_assoc]
  split_ifs
  · exact .mk .reconnecting _ _ _ (.inr ⟨rfl, Timer.pending_arm _ _ _⟩) (by simp [Record.isClosing])
  · exact .mk .reconnecting _ _ _ (.inr ⟨rfl, Timer.pending_arm _ _ _⟩) (by simp [Record.isClosing])
  · exact .mk .disconnected _ _ _ (.inl rfl) (by simp [Record.isClosing])
  · exact .mk .disconnected _ _ _ (.inl rfl) (by simp [Record.isClosing])

theorem ends_refuse {w : World} (error : String) (hu : w.impl.userDisconnect = false)
    (ha : w.impl.shuttingDown = false) :
    Ends w (w.authenticationFailed error w.impl.generation) := by
  rw [authenticationFailed_spec error hu ha]
  simp only [List.append_assoc]
  split_ifs <;> exact .mk .disconnected _ _ _ (.inl rfl) (by simp [Record.isClosing])

/-- The moves of one connection: they neither close it nor open another, and
start no operation but writes. -/
inductive Inner : World → World → Prop
  | report {w : World} (c : Callback) (hc : c.isReport = true) : Inner w (w.emit c)
  | tune {w : World} (i : Impl) (hi : i.core = w.impl.core) : Inner w { w with impl := i }
  | timers {w : World} (idle : Timer ℕ) (voice : Timer Unit)
      (hidle : ∀ P : ℕ → Prop, w.idleTimer.Captures P →
        (w.impl.stream.isSome = true → P w.impl.generation) → idle.Captures P) :
      Inner w { w with idleTimer := idle, voiceTimer := voice }
  | received {w : World} (m : Bytes) (hs : w.impl.stream.isSome = true) (hh : w.Handshaken) :
      Inner w (w.log (.received m))
  | reply {w : World} (m : Bytes) (hm : Reply m) (hs : w.impl.stream.isSome = true)
      (hh : w.Handshaken) : Inner w (w.queueMessage m)
  | online {w : World} (hs : w.impl.stream.isSome = true) (hh : w.Handshaken)
      (hr : w.HasRead fun m ↦ m.kind = .start) :
      Inner w ((w.setState .connected).emitAvailability true)
  | voiceStart {w : World} (hs : w.impl.stream.isSome = true)
      (hc : w.impl.state = .connected) (hv : w.impl.voiceStarting = false)
      (hn : w.impl.voiceSessionId = none) :
      Inner w ({ w with impl.voiceStarting := true }.queueMessage (remoteKey keyCodeSearch .short))
  | voiceBegin {w : World} (s : Int32) (hs : w.impl.stream.isSome = true)
      (hv : w.impl.voiceStarting = true)
      (hr : w.HasRead fun m ↦ m.kind = .voiceBegin ∧ m.voiceSessionId = s) :
      Inner w (({ w with impl.voiceStarting := false, impl.voiceSessionId := some s }.queueMessage
        (remoteVoiceBegin s)).emit (.voiceStarted s))
  | voicePayload {w : World} (s : Int32) (samples : Bytes)
      (hs : w.impl.stream.isSome = true) (hv : w.impl.voiceSessionId = some s) :
      Inner w (w.queueMessage (remoteVoicePayload s samples))
  | voiceEnd {w : World} (s : Int32) (hs : w.impl.stream.isSome = true)
      (hv : w.impl.voiceSessionId = some s) :
      Inner w { w.queueMessage (remoteVoiceEnd s) with impl.voiceSessionId := none }.emitVoiceStopped
  | voiceGiveUp {w : World} : Inner w { w with impl.voiceStarting := false }

inductive Move : World → World → Prop
  | inner {w w' : World} (h : Inner w w') : Move w w'
  | consume {w : World} (op : Op) (h : op ∈ w.ops) : Move w { w with ops := w.ops.erase op }
  | start {w : World} (k : OpKind) (hs : w.impl.stream.isSome = true) (hk : k.isWrite = false)
      (hr : k.isRead = true → w.Handshaken) : Move w (w.start ⟨w.impl.generation, k⟩)
  | wrote {w : World} (hs : w.impl.stream.isSome = true) (hb : w.impl.writeInProgress = true) :
      Move w { w with impl.writeQueue := w.impl.writeQueue.tail }.beginWrite
  | handshake {w : World} (hs : w.impl.stream.isSome = true) : Move w (w.log .handshake)
  | lose {w : World} (hs : w.impl.stream.isSome = true) :
      Move w (w.handleConnectionLoss w.impl.generation)
  | refuse {w : World} (error : String) (hs : w.impl.stream.isSome = true) :
      Move w (w.authenticationFailed error w.impl.generation)
  | reconnectExpires {w : World} (t : Timer Unit) (h : w.reconnectTimer.expire = some t) :
      Move w { w with reconnectTimer := t }
  | reconnectSkip {w : World} (q : Wait Unit × Code)
      (h : q.2 = .aborted ∨ w.impl.userDisconnect = true) :
      Move w { w with reconnectTimer := w.reconnectTimer.dequeue q }

abbrev Inners : World → World → Prop := Relation.ReflTransGen Inner

abbrev Moves : World → World → Prop := Relation.ReflTransGen Move

theorem Inners.moves {w w' : World} (h : Inners w w') : Moves w w' :=
  Relation.ReflTransGen.mono (fun _ _ hi ↦ Move.inner hi) _ _ h

/-- What an event does: the commands that send a message or replace the stream
are seen as a whole, every other handler by its moves. -/
inductive Does (w : World) : Event → World → Prop
  | moves {e : Event} {w' : World} (h : Moves w w') : Does w e w'
  | send {e : Event} {m : Bytes} (hm : e.message w = some m)
      (hs : w.impl.stream.isSome = true) : Does w e (w.queueMessage m)
  | attempt {e : Event} {a : IdentityAttempt} (ha : e.attempt w = some a) (reconnecting : Bool)
      (delay : ℕ) (t : Timer Unit) : Does w e ((w.wanting delay t).beginConnect reconnecting a)
  | disconnect : Does w .disconnect w.disconnect
  | disconnectAndWait : Does w .disconnectAndWait w.disconnectAndWait

end World

end AndroidTvRemote
