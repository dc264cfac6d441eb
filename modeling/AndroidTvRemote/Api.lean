import AndroidTvRemote.KeyNames
import AndroidTvRemote.Posting
import AndroidTvRemote.Requests
import Mathlib.Data.List.Flatten

namespace AndroidTvRemote

open Wire Protocol Runs SyncTlsConnection
open scoped List

inductive Posted
  | connect
  | disconnect
  | disconnectAndWait
  | sendKey (key : Int32) (direction : Direction)
  | sendText (text : Bytes)
  | launchApp (appLink : Bytes)
  | startVoice
  | sendVoiceData (pcm : Bytes)
  | stopVoice
  deriving DecidableEq, Repr

def Event.origin : Event → Option Posted
  | connect _ => some .connect
  | disconnect => some .disconnect
  | disconnectAndWait => some .disconnectAndWait
  | sendKey key direction => some (.sendKey key direction)
  | sendText text => some (.sendText text)
  | launchApp appLink => some (.launchApp appLink)
  | startVoice => some .startVoice
  | sendVoiceData pcm => some (.sendVoiceData pcm)
  | stopVoice => some .stopVoice
  | _ => none

/-- The calls of the application that post a handler. `startPairing` goes on
after its handler has run. -/
inductive Call
  | connect
  | disconnect
  | sendKeyCode (key : KeyCode) (direction : Direction)
  | sendKey (key : Int32) (direction : Direction)
  | sendKeyName (keyName : Bytes) (direction : Direction)
  | sendText (text : Bytes)
  | launchApp (appLink : Bytes)
  | startVoice
  | sendVoiceData (pcm : Bytes)
  | stopVoice
  | startPairing

/-- What a call posts, or the text of the `std::invalid_argument` it throws. -/
def Call.posts : Call → Except Bytes Posted
  | connect => .ok .connect
  | disconnect => .ok .disconnect
  | sendKeyCode key direction => .ok (.sendKey key.value direction)
  | sendKey key direction => .ok (.sendKey key direction)
  | sendKeyName keyName direction =>
    match keyCodeFromName keyName with
    | none => .error (ascii "unknown Android key name: " ++ keyName)
    | some key => .ok (.sendKey key direction)
  | sendText text =>
    if text.isEmpty then .error (ascii "text cannot be empty") else .ok (.sendText text)
  | launchApp appLink => .ok (.launchApp appLink)
  | startVoice => .ok .startVoice
  | sendVoiceData pcm => .ok (.sendVoiceData pcm)
  | stopVoice => .ok .stopVoice
  | startPairing => .ok .disconnectAndWait

/-- The whole object: the I/O thread with its queue, the calls of
`startPairing` whose handler has run, and `pairing_`. -/
structure Remote where
  io : Posting.Server World Posted
  released : ℕ := 0
  pairing : Option PairingSession := none

namespace Remote

/-- A call of an application thread, a handler of the I/O thread, the rest of a
`startPairing` whose handler has run, or a `finishPairing`. -/
inductive Act
  | call (c : Call)
  | handle (e : Event)
  | pair (call : StartCall)
  | finishPairing (call : FinishCall)

def ofOptions (o : Options) : Remote := { io := { state := World.ofOptions o } }

variable (sha256 : Bytes → Crypto.Digest) (clientName : Bytes)

def step (r : Remote) : Act → Option Remote
  | .call c =>
    match c.posts with
    | .error _ => some r
    | .ok p => some { r with io.queue := r.io.queue ++ [p] }
  | .handle e =>
    (Posting.step World.step Event.origin r.io (.handle e)).map fun io ↦
      { r with io, released := if e = .disconnectAndWait then r.released + 1 else r.released }
  | .pair call =>
    if 0 < r.released then
      some { r with
        released := r.released - 1
        pairing := (startPairing clientName r.io.state.impl.options call r.pairing).state }
    else none
  | .finishPairing call => some { r with pairing := (finishPairing sha256 call r.pairing).state }

def handled (acts : List Act) : List Event :=
  acts.filterMap fun
    | .handle e => some e
    | _ => none

def pairs (acts : List Act) : ℕ :=
  acts.countP fun
    | .pair _ => true
    | _ => false

variable {sha256 clientName} {r r' : Remote}

end Remote

namespace World

end World

namespace Remote

variable {sha256 : Bytes → Crypto.Digest} {clientName : Bytes} {r : Remote}

end Remote

end AndroidTvRemote
