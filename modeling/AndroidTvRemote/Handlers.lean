import AndroidTvRemote.Impl

namespace AndroidTvRemote.World

open Wire Protocol SteadyTimer

def maxFrameSize : ℕ := 4 * 1024 * 1024
def voiceChunkSize : ℕ := 20 * 1024
def voiceMinimumChunkSize : ℕ := 8 * 1024
def voiceStartTimeout : ℕ := 2000
def idleTimeout : ℕ := 16000

def log (r : Record) (w : World) : World :=
  { w with trace := w.trace ++ [(w.impl.generation, r)] }

def emit (c : Callback) (w : World) : World := w.log (.callback c)

def emitError (message : String) (w : World) : World := w.emit (.error message)

def emitAvailability (available : Bool) (w : World) : World :=
  w.emit (.availabilityChanged available)

def emitVoiceStopped (w : World) : World := w.emit .voiceStopped

def setState (state : ConnectionState) (w : World) : World :=
  { w with impl.state := state }.emit (.connectionState state)

def start (op : Op) (w : World) : World := { w with ops := w.ops ++ [op] }

/-- Start an operation on `*stream_`. A null pointer there is undefined
behaviour, which the run records. -/
def startOnStream (op : Op) (w : World) : World :=
  match w.impl.stream with
  | some _ => w.start op
  | none => w.log .nullDereference

/-- The outstanding operations stay outstanding: those that had not ended
will be told so by the closed socket, the others have their result already. -/
def closeStream (w : World) : World :=
  { w with
    impl.generation := w.impl.generation + 1
    impl.voiceStarting := false
    impl.voiceSessionId := none
    impl.writeQueue := []
    impl.writeInProgress := false
    impl.readLength := 0
    impl.readShift := 0
    impl.stream := none }

def resetIdleTimer (w : World) : World :=
  { w with idleTimer := (w.idleTimer.expiresAfter idleTimeout).asyncWait w.impl.generation }

def handleConnectionLoss (generation : ℕ) (w : World) : World :=
  if generation ≠ w.impl.generation then w
  else
    let wasConnected := w.impl.state = .connected
    let w := (w.log .lost).closeStream
    let w := if wasConnected then w.emitAvailability false else w
    if w.impl.options.autoReconnect && !w.impl.userDisconnect && !w.impl.shuttingDown then
      let w := w.setState .reconnecting
      let w := { w with
        reconnectTimer := (w.reconnectTimer.expiresAfter w.impl.reconnectDelay).asyncWait () }
      let w := w.log (.reconnectArmed w.impl.reconnectDelay)
      { w with impl.reconnectDelay := min (w.impl.reconnectDelay * 2) 30000 }
    else w.setState .disconnected

def connectionFailed (prefixText error : String) (generation : ℕ) (w : World) : World :=
  if generation ≠ w.impl.generation || w.impl.userDisconnect || w.impl.shuttingDown then w
  else (w.emitError (prefixText ++ ": " ++ error)).handleConnectionLoss generation

def authenticationFailed (error : String) (generation : ℕ) (w : World) : World :=
  if generation ≠ w.impl.generation || w.impl.userDisconnect || w.impl.shuttingDown then w
  else
    let w := w.emitError ("TLS authentication failed; pairing is required: " ++ error)
    let wasConnected := w.impl.state = .connected
    let w := (w.log .refused).closeStream
    let w := w.setState .disconnected
    let w := if wasConnected then w.emitAvailability false else w
    w.emit .authenticationRequired

def beginWrite (w : World) : World :=
  match w.impl.stream, w.impl.writeQueue with
  | some _, front :: _ =>
    let w := { w with impl.writeInProgress := true }
    (w.log (.write front)).start ⟨w.impl.generation, .write front⟩
  | _, _ => { w with impl.writeInProgress := false }

def queueMessage (payload : Bytes) (w : World) : World :=
  if w.impl.stream.isNone then w
  else
    let w := w.resetIdleTimer
    let w := { w with impl.writeQueue := w.impl.writeQueue ++ [frame payload] }
    let w := w.log (.queued payload)
    if w.impl.writeInProgress then w else w.beginWrite

def onWrite (generation : ℕ) (c : Completion) (w : World) : World :=
  if generation ≠ w.impl.generation then w
  else match c.error with
  | some error =>
    { w with impl.writeInProgress := false }.connectionFailed "write failed" error generation
  | none => { w with impl.writeQueue := w.impl.writeQueue.tail }.beginWrite

/-- An exception leaves what was assigned before it in place. -/
def ensureSslContext (a : IdentityAttempt) (w : World) : World × Except String Unit :=
  match w.impl.sslContext, a.contextError with
  | some _, _ => (w, .ok ())
  | none, some error => (w, .error error)
  | none, none =>
    let context := w.contexts
    let w := { w with contexts := w.contexts + 1, impl.sslContext := some context }
    match loadClientIdentity w.impl.options.certificateFile w.impl.options.privateKeyFile a with
    | .ok () => (w.log (.identity context true), .ok ())
    | .error error => (w.log (.identity context false), .error error)

def openStream (w : World) : World :=
  match w.impl.sslContext with
  | some context => { w with impl.stream := some ⟨context⟩ }.log (.opened context)
  | none => w.log .nullDereference

def beginConnect (reconnecting : Bool) (a : IdentityAttempt) (w : World) : World :=
  if w.impl.shuttingDown || w.impl.userDisconnect then w
  else
    let w := w.closeStream
    let generation := w.impl.generation
    match w.ensureSslContext a with
    | (w, .error error) =>
      (w.emitError ("unable to load TLS certificate/key: " ++ error)).setState .disconnected
    | (w, .ok ()) =>
      let w := w.setState (if reconnecting then .reconnecting else .connecting)
      let w := w.openStream
      w.start ⟨generation, .resolve w.impl.options.host (toString w.impl.options.apiPort)⟩

def readOneLengthByte (generation : ℕ) (w : World) : World :=
  if w.impl.stream.isNone || generation ≠ w.impl.generation then w
  else w.start ⟨generation, .readLength⟩

def beginReadLength (generation : ℕ) (w : World) : World :=
  if w.impl.stream.isNone || generation ≠ w.impl.generation then w
  else { w with impl.readLength := 0, impl.readShift := 0 }.readOneLengthByte generation

def onResolve (generation : ℕ) (c : Completion) (w : World) : World :=
  if generation ≠ w.impl.generation then w
  else match c.error with
  | some error => w.connectionFailed "DNS/host resolution failed" error generation
  | none => w.startOnStream ⟨generation, .connect⟩

def onConnect (generation : ℕ) (c : Completion) (w : World) : World :=
  if generation ≠ w.impl.generation then w
  else match c.error with
  | some error => w.connectionFailed "TCP connection failed" error generation
  | none => w.startOnStream ⟨generation, .handshake⟩

def onHandshake (generation : ℕ) (c : Completion) (w : World) : World :=
  if generation ≠ w.impl.generation then w
  else match c.error with
  | some error => w.authenticationFailed error generation
  | none =>
    let w := w.log .handshake
    let w := { w with impl.reconnectDelay := 100 }
    (w.beginReadLength generation).resetIdleTimer

def handleMessage (message : Bytes) (w : World) : World :=
  let w := w.log (.received message)
  let incoming := parseRemote message
  match incoming.kind with
  | .configure =>
    let w := { w with impl.supportedFeatures := incoming.supportedFeatures }
    let w := { w with impl.activeFeatures := w.impl.activeFeatures &&& w.impl.supportedFeatures }
    let w := { w with impl.voiceEnabled := w.impl.activeFeatures &&& featureVoice != 0 }
    let w := { w with impl.deviceInfo := incoming.deviceInfo }
    let w := w.emit (.deviceInfoChanged incoming.deviceInfo)
    w.queueMessage (remoteConfigureResponse w.impl.activeFeatures)
  | .setActive => w.queueMessage (remoteSetActiveResponse w.impl.activeFeatures)
  | .imeKeyInject =>
    { w with impl.currentApp := incoming.currentApp }.emit (.currentAppChanged incoming.currentApp)
  | .imeBatchEdit =>
    { w with
      impl.imeCounter := incoming.imeCounter
      impl.imeFieldCounter := incoming.fieldCounter }
  | .volume => { w with impl.volumeInfo := incoming.volume }.emit (.volumeChanged incoming.volume)
  | .start =>
    let w := { w with impl.isOn := incoming.started }
    let w := w.setState .connected
    let w := w.emitAvailability true
    w.emit (.powerChanged incoming.started)
  | .ping => w.queueMessage (remotePingResponse incoming.pingValue)
  | .error => w.emitError "Android TV reported a remote protocol error"
  | .voiceBegin =>
    if w.impl.voiceStarting then
      let w := { w with impl.voiceStarting := false, voiceTimer := w.voiceTimer.cancel }
      let w := { w with impl.voiceSessionId := some incoming.voiceSessionId }
      let w := w.queueMessage (remoteVoiceBegin incoming.voiceSessionId)
      w.emit (.voiceStarted incoming.voiceSessionId)
    else w
  | .unknown => w

def onReadLength (generation : ℕ) (c : Completion) (w : World) : World :=
  if generation ≠ w.impl.generation then w
  else match c.error with
  | some error => w.connectionFailed "read failed" error generation
  | none =>
    let w := { w with impl.readLength := w.impl.readLength |||
      ((w.impl.lengthByte &&& 0x7f).toUInt64 <<< UInt64.ofNat w.impl.readShift) }
    if (w.impl.lengthByte &&& 0x80 : UInt8) ≠ 0 then
      let w := { w with impl.readShift := w.impl.readShift + 7 }
      if w.impl.readShift > 63 then
        (w.emitError "invalid protobuf frame length").handleConnectionLoss generation
      else w.readOneLengthByte generation
    else if w.impl.readLength.toNat > maxFrameSize then
      (w.emitError "protobuf frame exceeds 4 MiB safety limit").handleConnectionLoss generation
    else
      let w := { w with impl.readBody := List.replicate w.impl.readLength.toNat 0 }
      if w.impl.readBody.isEmpty then (w.handleMessage []).beginReadLength generation
      else w.startOnStream ⟨generation, .readBody w.impl.readBody.length⟩

def onReadBody (generation : ℕ) (c : Completion) (w : World) : World :=
  if generation ≠ w.impl.generation then w
  else match c.error with
  | some error => w.connectionFailed "read failed" error generation
  | none =>
    let w := w.resetIdleTimer
    (w.handleMessage w.impl.readBody).beginReadLength generation

def fill (op : Op) (c : Completion) (w : World) : World :=
  match op.kind, c.bytes with
  | .readLength, byte :: _ => { w with impl.lengthByte := byte }
  | .readBody size, bytes =>
    { w with impl.readBody := bytes ++ List.replicate (size - bytes.length) 0 }
  | _, _ => w

def handler (op : Op) (c : Completion) (w : World) : World :=
  match op.kind with
  | .resolve _ _ => w.onResolve op.generation c
  | .connect => w.onConnect op.generation c
  | .handshake => w.onHandshake op.generation c
  | .readLength => w.onReadLength op.generation c
  | .readBody _ => w.onReadBody op.generation c
  | .write _ => w.onWrite op.generation c

def complete (op : Op) (c : Completion) (w : World) : World :=
  ({ w with ops := w.ops.erase op }.fill op c).handler op c

def connect (a : IdentityAttempt) (w : World) : World :=
  let w := { w with impl.userDisconnect := false }
  let w := { w with reconnectTimer := w.reconnectTimer.cancel }
  let w := { w with impl.reconnectDelay := 100 }
  w.beginConnect false a

def disconnect (w : World) : World :=
  let w := { w with impl.userDisconnect := true }
  let w := { w with
    reconnectTimer := w.reconnectTimer.cancel
    voiceTimer := w.voiceTimer.cancel
    idleTimer := w.idleTimer.cancel }
  let w := w.closeStream
  let w := w.setState .disconnected
  w.emitAvailability false

/-- The handler `startPairing` posts and waits for. -/
def disconnectAndWait (w : World) : World :=
  let w := { w with impl.userDisconnect := true }
  let w := { w with
    reconnectTimer := w.reconnectTimer.cancel
    idleTimer := w.idleTimer.cancel
    voiceTimer := w.voiceTimer.cancel }
  let w := w.closeStream
  w.setState .disconnected

def sendKey (key : Int32) (direction : Direction) (w : World) : World :=
  w.queueMessage (remoteKey key direction)

def sendText (text : Bytes) (w : World) : World :=
  w.queueMessage (remoteText text w.impl.imeCounter w.impl.imeFieldCounter)

def launchApp (appLink : Bytes) (w : World) : World := w.queueMessage (remoteAppLink appLink)

def startVoice (w : World) : World :=
  if !w.impl.voiceEnabled then
    w.emitError "voice is not enabled or not supported by the Android TV"
  else if w.impl.voiceStarting || w.impl.voiceSessionId.isSome then
    w.emitError "voice session already in progress"
  else if w.impl.state ≠ .connected then
    w.emitError "cannot start voice while disconnected"
  else
    let w := { w with impl.voiceStarting := true }
    let w := w.queueMessage (remoteKey keyCodeSearch .short)
    { w with voiceTimer := (w.voiceTimer.expiresAfter voiceStartTimeout).asyncWait () }

/-- The slice of the samples sent from an offset on, padded if it is short. -/
def voiceChunk (data : Bytes) (offset : ℕ) : Bytes :=
  let length := min voiceChunkSize (data.length - offset)
  let chunk := (data.drop offset).take length
  if chunk.length < voiceMinimumChunkSize then
    chunk ++ List.replicate (voiceMinimumChunkSize - chunk.length) 0
  else chunk

def sendVoiceChunks (sessionId : Int32) (data : Bytes) (offset : ℕ) (w : World) : World :=
  if offset < data.length then
    sendVoiceChunks sessionId data (offset + voiceChunkSize)
      (w.queueMessage (remoteVoicePayload sessionId (voiceChunk data offset)))
  else w
termination_by data.length - offset
decreasing_by
  simp only [voiceChunkSize]
  omega

def sendVoiceData (data : Bytes) (w : World) : World :=
  match w.impl.voiceSessionId with
  | none => w
  | some sessionId => w.sendVoiceChunks sessionId data 0

def stopVoice (w : World) : World :=
  let w := { w with voiceTimer := w.voiceTimer.cancel }
  let w := { w with impl.voiceStarting := false }
  match w.impl.voiceSessionId with
  | none => w
  | some sessionId =>
    let w := w.queueMessage (remoteVoiceEnd sessionId)
    let w := { w with impl.voiceSessionId := none }
    w.emitVoiceStopped

def onReconnectWait (code : Code) (a : IdentityAttempt) (w : World) : World :=
  if code = .success ∧ w.impl.userDisconnect = false then w.beginConnect true a else w

def onIdleWait (generation : ℕ) (code : Code) (w : World) : World :=
  if code = .success ∧ w.impl.userDisconnect = false ∧ generation = w.impl.generation then
    (w.emitError "closing idle Android TV connection after 16 seconds without traffic")
      |>.handleConnectionLoss generation
  else w

def onVoiceWait (code : Code) (w : World) : World :=
  if code = .success ∧ w.impl.voiceStarting = true then
    { w with impl.voiceStarting := false }
      |>.emitError "Android TV did not start a voice session within 2 seconds"
  else w

end AndroidTvRemote.World
