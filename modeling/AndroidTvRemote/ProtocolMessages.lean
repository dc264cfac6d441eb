import AndroidTvRemote.Wire

namespace AndroidTvRemote

open Wire

inductive ConnectionState
  | disconnected
  | connecting
  | connected
  | reconnecting
  deriving DecidableEq, Repr

/-- A C++ enumeration with a fixed underlying type: every `int32_t` is one of
its values. -/
structure Direction where
  value : Int32
  deriving DecidableEq, Repr

namespace Direction

def unknown : Direction := ⟨0⟩
def startLong : Direction := ⟨1⟩
def endLong : Direction := ⟨2⟩
def short : Direction := ⟨3⟩

end Direction

/-- `KeyCode::Search`, the key that asks the TV for a voice session. -/
def keyCodeSearch : Int32 := 84

structure DeviceInfo where
  manufacturer : Bytes := []
  model : Bytes := []
  softwareVersion : Bytes := []
  deriving DecidableEq, Repr

structure VolumeInfo where
  level : UInt32 := 0
  maximum : UInt32 := 0
  muted : Bool := false
  deriving DecidableEq, Repr

namespace Protocol

def featurePing : Int32 := (1 : Int32) <<< 0
def featureKey : Int32 := (1 : Int32) <<< 1
def featureIme : Int32 := (1 : Int32) <<< 2
def featureVoice : Int32 := (1 : Int32) <<< 3
def featurePower : Int32 := (1 : Int32) <<< 5
def featureVolume : Int32 := (1 : Int32) <<< 6
def featureAppLink : Int32 := (1 : Int32) <<< 9

/-- `static_cast<std::uint64_t>(static_cast<std::uint32_t>(value))`. -/
def zeroExtend (value : Int32) : UInt64 := value.toUInt32.toUInt64

def signExtend (value : Int32) : UInt64 := value.toInt64.toUInt64

def asI32 (value : Option UInt64) : Int32 :=
  match value with
  | some v => v.toUInt32.toInt32
  | none => 0

def asU32 (value : Option UInt64) : UInt32 :=
  match value with
  | some v => v.toUInt32
  | none => 0

/-- The string literals of the source, as the bytes they stand for. -/
def atvremote : Bytes := [0x61, 0x74, 0x76, 0x72, 0x65, 0x6d, 0x6f, 0x74, 0x65]
def one : Bytes := [0x31]
def versionOne : Bytes := [0x31, 0x2e, 0x30, 0x2e, 0x30]

def pairingOuter (fieldNumber : UInt32) (inner : Writer) : Writer :=
  let outer : Writer := {}
  let outer := outer.varintField 1 2
  let outer := outer.varintField 2 200
  outer.messageField fieldNumber inner

def pairingRequest (clientName : Bytes) : Bytes :=
  let request : Writer := {}
  let request := request.stringField 1 atvremote
  let request := request.stringField 2 clientName
  (pairingOuter 10 request).data

def encoding : Writer :=
  let encoding : Writer := {}
  let encoding := encoding.varintField 1 3
  encoding.varintField 2 6

def pairingOptions : Bytes :=
  let options : Writer := {}
  let options := options.messageField 1 encoding
  let options := options.varintField 3 1
  (pairingOuter 20 options).data

def pairingConfiguration : Bytes :=
  let configuration : Writer := {}
  let configuration := configuration.messageField 1 encoding
  let configuration := configuration.varintField 2 1
  (pairingOuter 30 configuration).data

def pairingSecret (secretBytes : Bytes) : Bytes :=
  let secret : Writer := {}
  let secret := secret.bytesField 1 secretBytes
  (pairingOuter 40 secret).data

def pairingStatus (message : Bytes) : Option UInt64 := findVarint message 2

def hasPairingRequestAck (message : Bytes) : Bool := hasField message 11
def hasPairingOptions (message : Bytes) : Bool := hasField message 20
def hasConfigurationAck (message : Bytes) : Bool := hasField message 31
def hasSecretAck (message : Bytes) : Bool := hasField message 41

def remoteConfigureResponse (activeFeatures : Int32) : Bytes :=
  let device : Writer := {}
  let device := device.varintField 3 1
  let device := device.stringField 4 one
  let device := device.stringField 5 atvremote
  let device := device.stringField 6 versionOne
  let configure : Writer := {}
  let configure := configure.varintField 1 (signExtend activeFeatures)
  let configure := configure.messageField 2 device
  let remote : Writer := {}
  (remote.messageField 1 configure).data

def remoteSetActiveResponse (activeFeatures : Int32) : Bytes :=
  let active : Writer := {}
  let active := active.varintField 1 (signExtend activeFeatures)
  let remote : Writer := {}
  (remote.messageField 2 active).data

def remotePingResponse (value : Int32) : Bytes :=
  let ping : Writer := {}
  let ping := ping.varintField 1 (zeroExtend value)
  let remote : Writer := {}
  (remote.messageField 9 ping).data

def remoteKey (keyCode : Int32) (direction : Direction) : Bytes :=
  let key : Writer := {}
  let key := key.varintField 1 (zeroExtend keyCode)
  let key := key.varintField 2 (signExtend direction.value)
  let remote : Writer := {}
  (remote.messageField 10 key).data

def remoteText (text : Bytes) (imeCounter fieldCounter : Int32) : Bytes :=
  let pos : Int32 := Int32.ofNat text.length - 1
  let imeObject : Writer := {}
  let imeObject := imeObject.varintField 1 (zeroExtend pos)
  let imeObject := imeObject.varintField 2 (zeroExtend pos)
  let imeObject := imeObject.stringField 3 text
  let editInfo : Writer := {}
  let editInfo := editInfo.varintField 1 1
  let editInfo := editInfo.messageField 2 imeObject
  let batch : Writer := {}
  let batch := batch.varintField 1 (zeroExtend imeCounter)
  let batch := batch.varintField 2 (zeroExtend fieldCounter)
  let batch := batch.messageField 3 editInfo
  let remote : Writer := {}
  (remote.messageField 21 batch).data

def remoteAppLink (appLink : Bytes) : Bytes :=
  let launch : Writer := {}
  let launch := launch.stringField 1 appLink
  let remote : Writer := {}
  (remote.messageField 90 launch).data

def remoteVoiceBegin (sessionId : Int32) : Bytes :=
  let begin : Writer := {}
  let begin := begin.varintField 1 (zeroExtend sessionId)
  let remote : Writer := {}
  (remote.messageField 30 begin).data

def remoteVoicePayload (sessionId : Int32) (samples : Bytes) : Bytes :=
  let payload : Writer := {}
  let payload := payload.varintField 1 (zeroExtend sessionId)
  let payload := payload.bytesField 2 samples
  let remote : Writer := {}
  (remote.messageField 31 payload).data

def remoteVoiceEnd (sessionId : Int32) : Bytes :=
  let finish : Writer := {}
  let finish := finish.varintField 1 (zeroExtend sessionId)
  let remote : Writer := {}
  (remote.messageField 32 finish).data

section Injectivity

open Base128

theorem zeroExtend_injective : Function.Injective zeroExtend := by
  have h : Function.LeftInverse (fun v : UInt64 ↦ v.toUInt32.toInt32) zeroExtend := by
    intro v
    simp [zeroExtend]
  exact h.injective

theorem signExtend_injective : Function.Injective signExtend := by
  have h : Function.LeftInverse (fun v : UInt64 ↦ v.toInt64.toInt32) signExtend := by
    intro v
    simp [signExtend]
  exact h.injective

theorem varint_of_messageField {n k : UInt32} {a b : UInt64}
    (h : (Writer.messageField {} n (Writer.varintField {} k a)).data =
      (Writer.messageField {} n (Writer.varintField {} k b)).data) : a = b := by
  have hv := Writer.messageField_inj h
  simp only [Writer.varintField_data, List.nil_append] at hv
  have he := (encode_append_inj hv).2
  obtain ⟨hn, -⟩ := encode_append_inj (congrArg (· ++ []) he)
  exact UInt64.toNat_inj.mp hn

theorem remoteSetActiveResponse_injective : Function.Injective remoteSetActiveResponse :=
  fun _ _ h ↦ signExtend_injective (varint_of_messageField h)

theorem remoteVoiceBegin_injective : Function.Injective remoteVoiceBegin :=
  fun _ _ h ↦ zeroExtend_injective (varint_of_messageField h)

theorem remoteText_inj {text : Bytes} {c d c' d' : Int32}
    (h : remoteText text c d = remoteText text c' d') : c = c' ∧ d = d' := by
  have hv := Writer.messageField_inj h
  simp only [Writer.messageField, Writer.bytesField_data, Writer.varintField_data,
    List.nil_append, List.append_assoc] at hv
  obtain ⟨hc, hrest⟩ := encode_append_inj (encode_append_inj hv).2
  obtain ⟨hd, -⟩ := encode_append_inj (encode_append_inj hrest).2
  exact ⟨zeroExtend_injective (UInt64.toNat_inj.mp hc),
    zeroExtend_injective (UInt64.toNat_inj.mp hd)⟩

end Injectivity

inductive Kind
  | unknown
  | configure
  | setActive
  | imeKeyInject
  | imeBatchEdit
  | volume
  | start
  | ping
  | error
  | voiceBegin
  deriving DecidableEq, Repr

structure RemoteIncoming where
  kind : Kind := .unknown
  supportedFeatures : Int32 := 0
  deviceInfo : DeviceInfo := {}
  currentApp : Bytes := []
  imeCounter : Int32 := 0
  fieldCounter : Int32 := 0
  volume : VolumeInfo := {}
  started : Bool := false
  pingValue : Int32 := 0
  voiceSessionId : Int32 := 0
  deriving DecidableEq, Repr

def parseDeviceInfo (info : Option Bytes) : DeviceInfo :=
  match info with
  | none => {}
  | some info =>
    { model := (findBytes info 1).getD []
      manufacturer := (findBytes info 2).getD []
      softwareVersion := (findBytes info 6).getD [] }

/-- The body of the loop of `parseRemote`: a value where it returns, `none`
where it goes on to the next field. -/
def parseField (field : Field) : Option RemoteIncoming :=
  if field.type ≠ .lengthDelimited then none
  else match field.number with
  | 1 => some {
      kind := .configure
      supportedFeatures := asI32 (findVarint field.bytes 1)
      deviceInfo := parseDeviceInfo (findBytes field.bytes 2) }
  | 2 => some { kind := .setActive }
  | 3 => some { kind := .error }
  | 8 => some { kind := .ping, pingValue := asI32 (findVarint field.bytes 1) }
  | 20 => some {
      kind := .imeKeyInject
      currentApp := match findBytes field.bytes 1 with
        | some appInfo => (findBytes appInfo 12).getD []
        | none => [] }
  | 21 => some {
      kind := .imeBatchEdit
      imeCounter := asI32 (findVarint field.bytes 1)
      fieldCounter := asI32 (findVarint field.bytes 2) }
  | 30 => some { kind := .voiceBegin, voiceSessionId := asI32 (findVarint field.bytes 1) }
  | 40 => some { kind := .start, started := (findVarint field.bytes 1).getD 0 != 0 }
  | 50 => some {
      kind := .volume
      volume := {
        maximum := asU32 (findVarint field.bytes 6)
        level := asU32 (findVarint field.bytes 7)
        muted := (findVarint field.bytes 8).getD 0 != 0 } }
  | _ => none

def parseRemote (message : Bytes) : RemoteIncoming :=
  (Reader.search parseField ⟨message, 0, true⟩).getD {}

example : parseRemote [0xc2, 0x02, 0x02, 0x08, 0x01] = { kind := .start, started := true } := by
  decide +kernel

end Protocol

end AndroidTvRemote
