import AndroidTvRemote.Handlers
import AndroidTvRemote.Runs

namespace AndroidTvRemote

open Wire SteadyTimer Runs

/-- What the I/O thread can do next: run a handler the API posted, run the
completion handler of an outstanding operation, let a timer expire, or run a
queued wait handler. `disconnectAndWait` is what `startPairing` posts. The
events that may load the client identity carry the answers it meets. -/
inductive Event
  | connect (attempt : IdentityAttempt)
  | disconnect
  | disconnectAndWait
  | sendKey (key : Int32) (direction : Direction)
  | sendText (text : Bytes)
  | launchApp (appLink : Bytes)
  | startVoice
  | sendVoiceData (pcm : Bytes)
  | stopVoice
  | complete (op : Op) (completion : Completion)
  | reconnectExpires
  | idleExpires
  | voiceExpires
  | reconnectWait (wait : Wait Unit × Code) (attempt : IdentityAttempt)
  | idleWait (wait : Wait ℕ × Code)
  | voiceWait (wait : Wait Unit × Code)
  deriving DecidableEq, Repr

namespace World

/-- One handler of the I/O thread, from its start to its return. `sendText`
throws on an empty text before anything is posted. -/
def step (w : World) : Event → Option World
  | .connect a => some (w.connect a)
  | .disconnect => some w.disconnect
  | .disconnectAndWait => some w.disconnectAndWait
  | .sendKey key direction => some (w.sendKey key direction)
  | .sendText text => if text = [] then none else some (w.sendText text)
  | .launchApp appLink => some (w.launchApp appLink)
  | .startVoice => some w.startVoice
  | .sendVoiceData pcm => some (w.sendVoiceData pcm)
  | .stopVoice => some w.stopVoice
  | .complete op c => if op ∈ w.ops ∧ c.Fits op.kind then some (w.complete op c) else none
  | .reconnectExpires => w.reconnectTimer.expire.map fun t ↦ { w with reconnectTimer := t }
  | .idleExpires => w.idleTimer.expire.map fun t ↦ { w with idleTimer := t }
  | .voiceExpires => w.voiceTimer.expire.map fun t ↦ { w with voiceTimer := t }
  | .reconnectWait q a =>
    if q ∈ w.reconnectTimer.queued then
      some ({ w with reconnectTimer := w.reconnectTimer.dequeue q }.onReconnectWait q.2 a)
    else none
  | .idleWait q =>
    if q ∈ w.idleTimer.queued then
      some ({ w with idleTimer := w.idleTimer.dequeue q }.onIdleWait q.1.captured q.2)
    else none
  | .voiceWait q =>
    if q ∈ w.voiceTimer.queued then
      some ({ w with voiceTimer := w.voiceTimer.dequeue q }.onVoiceWait q.2)
    else none

theorem step_complete (w : World) (op : Op) (c : Completion)
    (h : op ∈ w.ops ∧ c.Fits op.kind) : w.step (.complete op c) = some (w.complete op c) :=
  if_pos h

inductive Happens (w : World) : Event → World → Prop
  | connect (a : IdentityAttempt) : Happens w (.connect a) (w.connect a)
  | disconnect : Happens w .disconnect w.disconnect
  | disconnectAndWait : Happens w .disconnectAndWait w.disconnectAndWait
  | sendKey (key : Int32) (direction : Direction) :
      Happens w (.sendKey key direction) (w.sendKey key direction)
  | sendText (text : Bytes) (h : text ≠ []) : Happens w (.sendText text) (w.sendText text)
  | launchApp (appLink : Bytes) : Happens w (.launchApp appLink) (w.launchApp appLink)
  | startVoice : Happens w .startVoice w.startVoice
  | sendVoiceData (pcm : Bytes) : Happens w (.sendVoiceData pcm) (w.sendVoiceData pcm)
  | stopVoice : Happens w .stopVoice w.stopVoice
  | complete (op : Op) (c : Completion) (hop : op ∈ w.ops) (hc : c.Fits op.kind) :
      Happens w (.complete op c) (w.complete op c)
  | reconnectExpires (t : Timer Unit) (h : w.reconnectTimer.expire = some t) :
      Happens w .reconnectExpires { w with reconnectTimer := t }
  | idleExpires (t : Timer ℕ) (h : w.idleTimer.expire = some t) :
      Happens w .idleExpires { w with idleTimer := t }
  | voiceExpires (t : Timer Unit) (h : w.voiceTimer.expire = some t) :
      Happens w .voiceExpires { w with voiceTimer := t }
  | reconnectWait (q : Wait Unit × Code) (a : IdentityAttempt)
      (h : q ∈ w.reconnectTimer.queued) : Happens w (.reconnectWait q a)
        ({ w with reconnectTimer := w.reconnectTimer.dequeue q }.onReconnectWait q.2 a)
  | idleWait (q : Wait ℕ × Code) (h : q ∈ w.idleTimer.queued) : Happens w (.idleWait q)
      ({ w with idleTimer := w.idleTimer.dequeue q }.onIdleWait q.1.captured q.2)
  | voiceWait (q : Wait Unit × Code) (h : q ∈ w.voiceTimer.queued) : Happens w (.voiceWait q)
      ({ w with voiceTimer := w.voiceTimer.dequeue q }.onVoiceWait q.2)

theorem happens_of_step {w w' : World} {e : Event} (h : w.step e = some w') : Happens w e w' := by
  cases e with
  | sendText text =>
    obtain ⟨ht, hw⟩ := (Option.ite_none_left_eq_some ..).mp h
    obtain rfl := Option.some.inj hw
    exact .sendText text ht
  | complete op c =>
    obtain ⟨⟨hop, hc⟩, hw⟩ := (Option.ite_none_right_eq_some ..).mp h
    obtain rfl := Option.some.inj hw
    exact .complete op c hop hc
  | reconnectExpires =>
    obtain ⟨t, ht, rfl⟩ := Option.map_eq_some_iff.mp h
    exact .reconnectExpires t ht
  | idleExpires =>
    obtain ⟨t, ht, rfl⟩ := Option.map_eq_some_iff.mp h
    exact .idleExpires t ht
  | voiceExpires =>
    obtain ⟨t, ht, rfl⟩ := Option.map_eq_some_iff.mp h
    exact .voiceExpires t ht
  | reconnectWait q a =>
    obtain ⟨hq, hw⟩ := (Option.ite_none_right_eq_some ..).mp h
    obtain rfl := Option.some.inj hw
    exact .reconnectWait q a hq
  | idleWait q =>
    obtain ⟨hq, hw⟩ := (Option.ite_none_right_eq_some ..).mp h
    obtain rfl := Option.some.inj hw
    exact .idleWait q hq
  | voiceWait q =>
    obtain ⟨hq, hw⟩ := (Option.ite_none_right_eq_some ..).mp h
    obtain rfl := Option.some.inj hw
    exact .voiceWait q hq
  | _ =>
    obtain rfl := Option.some.inj h
    constructor

end World

namespace Event

/-- The completions that take a stream of the default host and port to the end
of its handshake. -/
def handshakes (generation : ℕ) : List Event :=
  [.complete ⟨generation, .resolve "" "6466"⟩ {},
    .complete ⟨generation, .connect⟩ {},
    .complete ⟨generation, .handshake⟩ {}]

def reads (generation : ℕ) (message : Bytes) : List Event :=
  [.complete ⟨generation, .readLength⟩ { bytes := [UInt8.ofNat message.length] },
    .complete ⟨generation, .readBody message.length⟩ { bytes := message }]

def startMessage : Bytes := [0xC2, 0x02, 0x00]

def untilStart (generation : ℕ) : List Event :=
  handshakes generation ++ reads generation startMessage

def voiceConfigure : Bytes := [0x0A, 0x02, 0x08, 0x08]

def voiceBeginMessage : Bytes := [0xF2, 0x01, 0x02, 0x08, 0x05]

def untilVoice (generation : ℕ) : List Event :=
  handshakes generation ++ reads generation voiceConfigure ++ reads generation startMessage ++
    .startVoice :: reads generation voiceBeginMessage

end Event

abbrev Reaches (o : Options) (es : List Event) (w : World) : Prop :=
  Run World.step (World.ofOptions o) es w

end AndroidTvRemote
