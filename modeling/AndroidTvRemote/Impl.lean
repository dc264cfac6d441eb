import AndroidTvRemote.ProtocolMessages
import AndroidTvRemote.SteadyTimer

namespace AndroidTvRemote

open Wire Protocol SteadyTimer

structure Options where
  certificateFile : String := ""
  privateKeyFile : String := ""
  host : String := ""
  apiPort : UInt16 := 6466
  enableIme : Bool := true
  enableVoice : Bool := false
  autoReconnect : Bool := true
  deriving DecidableEq, Repr

inductive Callback
  | connectionState (state : ConnectionState)
  | powerChanged (on : Bool)
  | currentAppChanged (app : Bytes)
  | volumeChanged (volume : VolumeInfo)
  | deviceInfoChanged (info : DeviceInfo)
  | availabilityChanged (available : Bool)
  | authenticationRequired
  | voiceStarted (sessionId : Int32)
  | voiceStopped
  | error (message : String)
  deriving DecidableEq, Repr

inductive OpKind
  | resolve (host service : String)
  | connect
  | handshake
  | readLength
  | readBody (size : ℕ)
  | write (buffer : Bytes)
  deriving DecidableEq, Repr

namespace OpKind

def isWrite : OpKind → Bool
  | write _ => true
  | _ => false

@[simp] theorem isWrite_write (buffer : Bytes) : (write buffer).isWrite = true := rfl

def isRead : OpKind → Bool
  | readLength | readBody _ => true
  | _ => false

theorem isWrite_of_isRead {kind : OpKind} (h : kind.isRead = true) : kind.isWrite = false := by
  cases kind <;> first | rfl | cases h

def capacity : OpKind → ℕ
  | readLength => 1
  | readBody size => size
  | _ => 0

end OpKind

/-- An operation whose completion handler has not run, with the generation
the handler captured. -/
structure Op where
  generation : ℕ
  kind : OpKind
  deriving DecidableEq, Repr

/-- What an operation ends with: an error, by its message, and the bytes
placed in its buffer. -/
structure Completion where
  error : Option String := none
  bytes : Bytes := []
  deriving DecidableEq, Repr

/-- A read that succeeds has filled its buffer, and none overfills it. -/
def Completion.Fits (c : Completion) (k : OpKind) : Prop :=
  c.bytes.length ≤ k.capacity ∧ (c.error = none → c.bytes.length = k.capacity)

instance (c : Completion) (k : OpKind) : Decidable (c.Fits k) :=
  inferInstanceAs (Decidable (_ ∧ _))

/-- The answers of OpenSSL and of the file system to one call of
`ensureSslContext`. -/
structure IdentityAttempt where
  contextError : Option String := none
  certPem : Option Bytes := some []
  keyPem : Option Bytes := some []
  biosAllocated : Bool := true
  parsed : Bool := true
  installed : Bool := true
  openSslError : Option String := none
  deriving DecidableEq, Repr

def lastOpenSslError (prefixText : String) (error : Option String) : String :=
  match error with
  | none => prefixText
  | some buffer => prefixText ++ ": " ++ buffer

def readFile (path : String) (contents : Option Bytes) : Except String Bytes :=
  match contents with
  | none => .error ("unable to open TLS identity file: " ++ path)
  | some bytes => .ok bytes

/-- `crypto::loadClientIdentity` on a context that exists; an exception is
given by its text. -/
def loadClientIdentity (certificateFile privateKeyFile : String) (a : IdentityAttempt) :
    Except String Unit := do
  let _ ← readFile certificateFile a.certPem
  let _ ← readFile privateKeyFile a.keyPem
  if !a.biosAllocated then
    throw (lastOpenSslError "unable to allocate PEM BIO" a.openSslError)
  if !a.parsed then
    throw (lastOpenSslError "unable to parse TLS certificate/private key" a.openSslError)
  if !a.installed then
    throw (lastOpenSslError "unable to install TLS certificate/private key" a.openSslError)

structure Stream where
  context : ℕ
  deriving DecidableEq, Repr

/-- The members of `AndroidTvRemote::Impl` that its handlers use. The 64-bit
`generation_` counts closed streams and does not wrap in any run a machine
can perform, so it is a natural number. -/
structure Impl where
  options : Options
  deviceInfo : DeviceInfo := {}
  volumeInfo : VolumeInfo := {}
  currentApp : Bytes := []
  isOn : Bool := false
  voiceEnabled : Bool := false
  state : ConnectionState := .disconnected
  shuttingDown : Bool := false
  sslContext : Option ℕ := none
  stream : Option Stream := none
  userDisconnect : Bool := true
  reconnectDelay : ℕ := 100
  activeFeatures : Int32 := 0
  supportedFeatures : Int32 := 0
  imeCounter : Int32 := 0
  imeFieldCounter : Int32 := 0
  voiceStarting : Bool := false
  voiceSessionId : Option Int32 := none
  generation : ℕ := 0
  lengthByte : UInt8 := 0
  readLength : UInt64 := 0
  readShift : ℕ := 0
  readBody : Bytes := []
  writeQueue : List Bytes := []
  writeInProgress : Bool := false
  deriving DecidableEq, Repr

def Options.features (o : Options) : Int32 :=
  let features := featurePing ||| featureKey ||| featurePower ||| featureVolume ||| featureAppLink
  let features := if o.enableIme then features ||| featureIme else features
  if o.enableVoice then features ||| featureVoice else features

def Impl.ofOptions (o : Options) : Impl := { options := o, activeFeatures := o.features }

inductive Record
  | callback (call : Callback)
  | identity (context : ℕ) (loaded : Bool)
  | opened (context : ℕ)
  | handshake
  | queued (payload : Bytes)
  | write (frame : Bytes)
  | received (payload : Bytes)
  | lost
  | refused
  | reconnectArmed (delay : ℕ)
  | nullDereference
  deriving DecidableEq, Repr

/-- The object together with the I/O context it runs on: the outstanding
operations, the number of TLS contexts made so far, the three timers, and the
records of the run, each with the generation it was made in. -/
structure World where
  impl : Impl
  ops : List Op := []
  contexts : ℕ := 0
  reconnectTimer : Timer Unit := {}
  idleTimer : Timer ℕ := {}
  voiceTimer : Timer Unit := {}
  trace : List (ℕ × Record) := []
  deriving DecidableEq, Repr

def World.ofOptions (o : Options) : World := { impl := Impl.ofOptions o }

end AndroidTvRemote
