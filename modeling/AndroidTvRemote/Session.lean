import AndroidTvRemote.Specs

namespace AndroidTvRemote

open Wire Protocol

/-- What can happen on one connection: the completion of one of its operations,
an API call other than `connect`, or the end of a wait that was not cancelled. -/
inductive Act
  | complete (kind : OpKind) (completion : Completion)
  | sendKey (key : Int32) (direction : Direction)
  | sendText (text : Bytes)
  | launchApp (appLink : Bytes)
  | startVoice
  | sendVoiceData (pcm : Bytes)
  | stopVoice
  | disconnect
  | idleTimeout
  | voiceTimeout
  deriving DecidableEq, Repr

/-- The timers decide when, the network and the user what happens. -/
def Act.isTimeout : Act → Bool
  | idleTimeout | voiceTimeout => true
  | _ => false

/-- All that the frames sent on one connection can depend on: the members of
the object that decide about them, the outstanding operations, and the frames
queued so far. -/
structure Session where
  live : Bool
  connected : Bool
  voiceEnabled : Bool
  activeFeatures : Int32
  imeCounter : Int32
  imeFieldCounter : Int32
  voiceStarting : Bool
  voiceSessionId : Option Int32
  readLength : UInt64
  readShift : ℕ
  writeQueue : List Bytes
  writeInProgress : Bool
  ops : List OpKind
  sent : List Bytes
  deriving DecidableEq

namespace Session

def start (kind : OpKind) (s : Session) : Session := { s with ops := s.ops ++ [kind] }

def close (s : Session) : Session :=
  { s with
    live := false
    connected := false
    voiceStarting := false
    voiceSessionId := none
    readLength := 0
    readShift := 0
    writeQueue := []
    writeInProgress := false }

def beginWrite (s : Session) : Session :=
  match s.writeQueue with
  | [] => { s with writeInProgress := false }
  | front :: _ => { s with writeInProgress := true }.start (.write front)

theorem beginWrite_nil {s : Session} (hq : s.writeQueue = []) :
    s.beginWrite = { s with writeInProgress := false } := by
  rw [beginWrite, hq]

theorem beginWrite_cons {s : Session} {front : Bytes} {rest : List Bytes}
    (hq : s.writeQueue = front :: rest) :
    s.beginWrite = { s with writeInProgress := true }.start (.write front) := by
  rw [beginWrite, hq]

def send (payload : Bytes) (s : Session) : Session :=
  if s.live then
    let s := { s with
      writeQueue := s.writeQueue ++ [frame payload]
      sent := s.sent ++ [frame payload] }
    if s.writeInProgress then s else s.beginWrite
  else s

theorem send_of_live {s : Session} (hl : s.live = true) (m : Bytes) :
    s.send m =
      let s' := { s with
        writeQueue := s.writeQueue ++ [frame m]
        sent := s.sent ++ [frame m] }
      if s.writeInProgress then s' else s'.beginWrite := if_pos hl

theorem send_of_not_live {s : Session} (hl : s.live = false) (m : Bytes) : s.send m = s :=
  if_neg (by simp [hl])

def receive (message : Bytes) (s : Session) : Session :=
  let incoming := parseRemote message
  match incoming.kind with
  | .configure =>
    let features := s.activeFeatures &&& incoming.supportedFeatures
    { s with
      activeFeatures := features
      voiceEnabled := features &&& featureVoice != 0 }.send (remoteConfigureResponse features)
  | .setActive => s.send (remoteSetActiveResponse s.activeFeatures)
  | .imeBatchEdit =>
    { s with imeCounter := incoming.imeCounter, imeFieldCounter := incoming.fieldCounter }
  | .start => { s with connected := true }
  | .ping => s.send (remotePingResponse incoming.pingValue)
  | .voiceBegin =>
    if s.voiceStarting then
      { s with voiceStarting := false, voiceSessionId := some incoming.voiceSessionId }.send
        (remoteVoiceBegin incoming.voiceSessionId)
    else s
  | .imeKeyInject | .volume | .error | .unknown => s

def readNext (s : Session) : Session := { s with readLength := 0, readShift := 0 }.start .readLength

def lengthByte (byte : UInt8) (s : Session) : Session :=
  let s := { s with readLength := s.readLength |||
    ((byte &&& 0x7f).toUInt64 <<< UInt64.ofNat s.readShift) }
  if (byte &&& 0x80 : UInt8) ≠ 0 then
    if s.readShift + 7 > 63 then s.close
    else { s with readShift := s.readShift + 7 }.start .readLength
  else if s.readLength.toNat > World.maxFrameSize then s.close
  else if s.readLength.toNat = 0 then (s.receive []).readNext
  else s.start (.readBody s.readLength.toNat)

def succeed (kind : OpKind) (bytes : Bytes) (s : Session) : Session :=
  match kind with
  | .resolve _ _ => s.start .connect
  | .connect => s.start .handshake
  | .handshake => s.readNext
  | .readLength => s.lengthByte (bytes.headD 0)
  | .readBody _ => (s.receive bytes).readNext
  | .write _ => { s with writeQueue := s.writeQueue.tail }.beginWrite

def completed (kind : OpKind) (c : Completion) (s : Session) : Session :=
  if s.live then
    match c.error with
    | some _ => s.close
    | none => s.succeed kind c.bytes
  else s

def startVoice (s : Session) : Session :=
  if !s.voiceEnabled then s
  else if s.voiceStarting || s.voiceSessionId.isSome then s
  else if s.connected then { s with voiceStarting := true }.send (remoteKey keyCodeSearch .short)
  else s

def sendVoiceData (pcm : Bytes) (s : Session) : Session :=
  match s.voiceSessionId with
  | none => s
  | some sessionId => (World.voicePayloads sessionId pcm 0).foldl (fun s m ↦ s.send m) s

def stopVoice (s : Session) : Session :=
  let s := { s with voiceStarting := false }
  match s.voiceSessionId with
  | none => s
  | some sessionId => { s.send (remoteVoiceEnd sessionId) with voiceSessionId := none }

theorem sendVoiceData_none {s : Session} (hv : s.voiceSessionId = none) (pcm : Bytes) :
    s.sendVoiceData pcm = s := by
  rw [sendVoiceData, hv]

theorem sendVoiceData_some {s : Session} {sessionId : Int32}
    (hv : s.voiceSessionId = some sessionId) (pcm : Bytes) : s.sendVoiceData pcm =
      (World.voicePayloads sessionId pcm 0).foldl (fun s m ↦ s.send m) s := by
  rw [sendVoiceData, hv]

theorem stopVoice_none {s : Session} (hv : s.voiceSessionId = none) :
    s.stopVoice = { s with voiceStarting := false } := by
  simp [stopVoice, hv]

theorem stopVoice_some {s : Session} {sessionId : Int32} (hv : s.voiceSessionId = some sessionId) :
    s.stopVoice = { { s with voiceStarting := false }.send (remoteVoiceEnd sessionId) with
      voiceSessionId := none } := by
  simp [stopVoice, hv]

def step (s : Session) : Act → Option Session
  | .complete kind c =>
    if kind ∈ s.ops ∧ c.Fits kind then some ({ s with ops := s.ops.erase kind }.completed kind c)
    else none
  | .sendKey key direction => some (s.send (remoteKey key direction))
  | .sendText text =>
    if text = [] then none else some (s.send (remoteText text s.imeCounter s.imeFieldCounter))
  | .launchApp appLink => some (s.send (remoteAppLink appLink))
  | .startVoice => some s.startVoice
  | .sendVoiceData pcm => some (s.sendVoiceData pcm)
  | .stopVoice => some s.stopVoice
  | .disconnect => some s.close
  | .idleTimeout => some (if s.live then s.close else s)
  | .voiceTimeout => some { s with voiceStarting := false }

end Session

end AndroidTvRemote
