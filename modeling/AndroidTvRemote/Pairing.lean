import AndroidTvRemote.Certificate
import AndroidTvRemote.SyncTlsConnection

namespace AndroidTvRemote

open Wire

/-- A connected `SyncTlsConnection`: what the TV sends on it and has not been
read yet, the error a read past the end of that meets, and the certificate the
TV presented. -/
structure Connection where
  unread : Bytes := []
  readError : String := "end of file"
  peerCertificate : Option Crypto.Certificate := none
  deriving DecidableEq, Repr

/-- A connection in use. The writes to come take their results from
`writeErrors`; a write that fails delivers nothing. -/
structure Exchange where
  connection : Connection
  writeErrors : List (Option String) := []
  sent : List Bytes := []
  received : List Bytes := []
  deriving DecidableEq, Repr

abbrev ExchangeM := EStateM Exception Exchange

namespace Exchange

def send (payload : Bytes) : ExchangeM Unit := fun x ↦
  match x.writeErrors.headD none with
  | some what => .error (.systemError what) { x with writeErrors := x.writeErrors.tail }
  | none => .ok ()
      { x with writeErrors := x.writeErrors.tail, sent := x.sent ++ [frame payload] }

def receive : ExchangeM Bytes := fun x ↦
  match SyncTlsConnection.receive x.connection.unread with
  | (.ok payload, unread) => .ok payload
      { x with connection := { x.connection with unread }, received := x.received ++ [payload] }
  | (.error (.runtimeError what), unread) => .error (.runtimeError what)
      { x with connection := { x.connection with unread } }
  | (.error (.read _), _) => .error (.systemError x.connection.readError)
      { x with connection := { x.connection with unread := [] } }

def requirePairingStatusOk (message : Bytes) : ExchangeM Unit := do
  if Protocol.pairingStatus message ≠ some 200 then
    throw (.runtimeError "Android TV pairing protocol returned an error status")

/-- The loop of `PairingSession::Impl::start`: whether it ends configured. -/
def configure : ℕ → ExchangeM Bool
  | 0 => return false
  | steps + 1 => do
    let message ← receive
    requirePairingStatusOk message
    if Protocol.hasPairingRequestAck message then
      send Protocol.pairingOptions
      configure steps
    else if Protocol.hasPairingOptions message then
      send Protocol.pairingConfiguration
      configure steps
    else if Protocol.hasConfigurationAck message then
      return true
    else
      configure steps

/-- The loop of `PairingSession::Impl::finish`: whether it ends acknowledged. -/
def awaitSecretAck : ℕ → ExchangeM Bool
  | 0 => return false
  | steps + 1 => do
    let message ← receive
    requirePairingStatusOk message
    if Protocol.hasSecretAck message then return true else awaitSecretAck steps

end Exchange

structure CertificateRead where
  opened : Bool := true
  bioAllocated : Bool := true
  parsed : Option Crypto.Certificate
  deriving DecidableEq, Repr

def loadCertificate (a : CertificateRead) : Except Exception Crypto.Certificate := do
  if !a.opened then
    throw (.runtimeError "unable to open client certificate")
  if !a.bioAllocated then
    throw (.runtimeError "unable to allocate client certificate BIO")
  match a.parsed with
  | none => throw (.runtimeError "unable to read client certificate PEM")
  | some certificate => return certificate

/-- What one call of `start` meets: the answers to the constructor of
`SyncTlsConnection`, to `connect` and to the writes, and the TV behind the
connection. -/
structure StartCall where
  identity : IdentityAttempt := {}
  connectError : Option String := none
  connection : Connection
  writeErrors : List (Option String) := []
  deriving DecidableEq, Repr

structure FinishCall where
  code : Bytes
  certificate : CertificateRead
  writeError : Option String := none
  deriving DecidableEq, Repr

structure CallOutcome (σ : Type) where
  result : Except Exception Unit
  state : σ
  sent : List Bytes := []
  received : List Bytes := []

/-- The members of `PairingSession::Impl` besides the host and the port. -/
structure PairingSession where
  clientName : Bytes
  certificateFile : String
  privateKeyFile : String
  connection : Option Connection := none
  deriving DecidableEq, Repr

namespace PairingSession

open Exchange

def openConnection (session : PairingSession) (call : StartCall) : Except Exception Connection :=
  match call.identity.contextError with
  | some what => .error (.systemError what)
  | none =>
    match loadClientIdentity session.certificateFile session.privateKeyFile call.identity with
    | .error what => .error (.runtimeError what)
    | .ok () => .ok call.connection

def start (call : StartCall) (session : PairingSession) : CallOutcome PairingSession :=
  match session.openConnection call with
  | .error e => { result := .error e, state := session }
  | .ok connection =>
    let session := { session with connection := some connection }
    match call.connectError with
    | some what => { result := .error (.systemError what), state := session }
    | none =>
      let exchange := do
        send (Protocol.pairingRequest session.clientName)
        configure 8
      match exchange.run { connection, writeErrors := call.writeErrors } with
      | .error e x =>
        { result := .error e
          state := { session with connection := some x.connection }
          sent := x.sent, received := x.received }
      | .ok configured x =>
        if configured then
          { result := .ok ()
            state := { session with connection := some x.connection }
            sent := x.sent, received := x.received }
        else
          { result := .error (.runtimeError
              "pairing handshake did not reach configuration acknowledgement")
            state := { session with connection := none }
            sent := x.sent, received := x.received }

section Finish

variable (sha256 : Bytes → Crypto.Digest)

def secretFor (call : FinishCall) (connection : Connection) : Except Exception Crypto.Digest := do
  let clientCert ← loadCertificate call.certificate
  match connection.peerCertificate with
  | none => throw (.runtimeError "Android TV did not present a TLS certificate")
  | some serverCert => Crypto.pairingSecret sha256 clientCert serverCert call.code

def finish (call : FinishCall) (session : PairingSession) : CallOutcome PairingSession :=
  match session.connection with
  | none =>
    { result := .error (.runtimeError "finishPairing called before startPairing")
      state := session }
  | some connection =>
    match secretFor sha256 call connection with
    | .error e => { result := .error e, state := session }
    | .ok secret =>
      let exchange := do
        send (Protocol.pairingSecret secret.toList)
        awaitSecretAck 4
      match exchange.run { connection, writeErrors := [call.writeError] } with
      | .error e x =>
        { result := .error e
          state := { session with connection := some x.connection }
          sent := x.sent, received := x.received }
      | .ok acknowledged x =>
        { result := if acknowledged then .ok () else .error (.runtimeError
            "Android TV did not acknowledge the pairing secret")
          state := { session with connection := none }
          sent := x.sent, received := x.received }

end Finish

end PairingSession

/-- `Impl::startPairing` on `pairing_`; its call of `disconnectAndWait` leaves
`pairing_` alone. -/
def startPairing (clientName : Bytes) (options : Options) (call : StartCall)
    (pairing : Option PairingSession) : CallOutcome (Option PairingSession) :=
  let session : PairingSession :=
    { clientName
      certificateFile := options.certificateFile
      privateKeyFile := options.privateKeyFile }
  let outcome := session.start call
  match outcome.result with
  | .error _ => { outcome with state := pairing }
  | .ok () => { outcome with state := some outcome.state }

def finishPairing (sha256 : Bytes → Crypto.Digest) (call : FinishCall)
    (pairing : Option PairingSession) : CallOutcome (Option PairingSession) :=
  match pairing with
  | none =>
    { result := .error (.runtimeError "finishPairing called before startPairing")
      state := none }
  | some session =>
    let outcome := session.finish sha256 call
    match outcome.result with
    | .error _ => { outcome with state := some outcome.state }
    | .ok () => { outcome with state := none }

end AndroidTvRemote
