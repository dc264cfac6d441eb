import AndroidTvRemote.InboundFormat

namespace AndroidTvRemote

open Wire

namespace Wire

/-- The fields of a message that has exactly these, in this order, and nothing
behind them. -/
def exactly (m : Bytes) (keys : List (UInt32 × WireType)) : Option (List Field) :=
  let (fs, r) := Reader.fields ⟨m, 0, true⟩
  if r.ok ∧ r.offset = m.length ∧ fs.map (fun f ↦ (f.number, f.type)) = keys then some fs
  else none

theorem exactly_encoded {items : List Item} (h : (encoded items).length < 2 ^ 64)
    (keys : List (UInt32 × WireType)) :
    exactly (encoded items) keys =
      if (items.map Item.field).map (fun f ↦ (f.number, f.type)) = keys then
        some (items.map Item.field)
      else none := by
  rw [exactly, fields_encoded items h]
  simp only [true_and]

theorem findVarint_encoded {items : List Item} (h : (encoded items).length < 2 ^ 64)
    (n : UInt32) : findVarint (encoded items) n = ((items.map Item.field).find? fun f ↦
      decide (f.number = n ∧ f.type = .varint)).map Field.varint := by
  rw [findVarint_eq, fields_encoded items h]

theorem findBytes_encoded {items : List Item} (h : (encoded items).length < 2 ^ 64)
    (n : UInt32) : findBytes (encoded items) n = ((items.map Item.field).find? fun f ↦
      decide (f.number = n ∧ f.type = .lengthDelimited)).map Field.bytes := by
  rw [findBytes_eq, fields_encoded items h]

theorem Writer.varintField_length_le (w : Writer) (n : UInt32) (v : UInt64) :
    (w.varintField n v).data.length ≤ w.data.length + 20 := by
  have hn := n.toNat_lt
  have hkey := Base128.encode_length_le 9 (n := 8 * n.toNat) (by omega)
  have hvalue := Base128.encode_length_le_ten v
  rw [varintField_data, List.length_append, List.length_append]
  omega

theorem Writer.bytesField_length_le (w : Writer) (n : UInt32) (b : Bytes) :
    (w.bytesField n b).data.length ≤ w.data.length + 20 + b.length := by
  have hn := n.toNat_lt
  have hkey := Base128.encode_length_le 9 (n := 8 * n.toNat + 2) (by omega)
  have hlen := Base128.encode_length_le 9 (n := b.length % 2 ^ 64) (by omega)
  rw [bytesField_data, List.length_append, List.length_append, List.length_append]
  omega

theorem Item.length_le (i : Item) : (i.write {}).data.length ≤ 20 + i.field.bytes.length := by
  have hbytes (n : FieldNumber) (b : Bytes) :
      (Writer.bytesField {} n.1 b).data.length ≤ 20 + b.length := by
    have h := Writer.bytesField_length_le {} n.1 b
    rwa [List.length_nil, Nat.zero_add] at h
  cases i with
  | varint n v =>
    have h := Writer.varintField_length_le {} n.1 v
    rwa [List.length_nil, Nat.zero_add] at h
  | bytes n b => exact hbytes n b
  | string n s => exact hbytes n s
  | message n items => exact hbytes n (encoded items)

theorem encoded_length_le (items : List Item) :
    (encoded items).length ≤ (items.map fun i ↦ 20 + i.field.bytes.length).sum := by
  induction items with
  | nil => rw [encoded_nil]; rfl
  | cons i items ih =>
    rw [encoded_cons, List.length_append, List.map_cons, List.sum_cons]
    exact Nat.add_le_add i.length_le ih

theorem Item.number_length_lt (n k : FieldNumber) (v : UInt64) :
    ((Item.message n [.varint k v]).write {}).data.length < 2 ^ 64 := by
  have hinner : (encoded [.varint k v]).length ≤ 20 := encoded_length_le [.varint k v]
  have houter : _ ≤ 20 + (encoded [.varint k v]).length := (Item.message n [.varint k v]).length_le
  omega

theorem nested_length_lt {n : FieldNumber} {inner items : List Item}
    (h : (encoded items).length < 2 ^ 64) (hmem : Item.message n inner ∈ items) :
    (encoded inner).length < 2 ^ 64 :=
  (Item.bytes_length_le_encoded hmem).trans_lt h

end Wire

namespace Protocol

theorem parseRemote_message {n : FieldNumber} {items : List Item}
    (h : (encoded [.message n items]).length < 2 ^ 64) :
    parseRemote (encoded [.message n items]) =
      (parseField (Item.message n items).field).getD {} := by
  rw [parseRemote, Reader.search_eq_findSome, fields_encoded _ h, List.map_singleton,
    List.findSome?_singleton]

/-- One call of a builder. -/
inductive Outgoing
  | configureResponse (activeFeatures : Int32)
  | setActiveResponse (activeFeatures : Int32)
  | pingResponse (value : Int32)
  | key (keyCode : Int32) (direction : Direction)
  | text (text : Bytes) (imeCounter fieldCounter : Int32)
  | appLink (appLink : Bytes)
  | voiceBegin (sessionId : Int32)
  | voicePayload (sessionId : Int32) (samples : Bytes)
  | voiceEnd (sessionId : Int32)
  | pairingRequest (clientName : Bytes)
  | pairingOptions
  | pairingConfiguration
  | pairingSecret (secretBytes : Bytes)
  deriving DecidableEq

namespace Outgoing

def bytes : Outgoing → Bytes
  | configureResponse f => remoteConfigureResponse f
  | setActiveResponse f => remoteSetActiveResponse f
  | pingResponse v => remotePingResponse v
  | key k d => remoteKey k d
  | text t c f => remoteText t c f
  | appLink l => remoteAppLink l
  | voiceBegin s => remoteVoiceBegin s
  | voicePayload s b => remoteVoicePayload s b
  | voiceEnd s => remoteVoiceEnd s
  | pairingRequest n => Protocol.pairingRequest n
  | pairingOptions => Protocol.pairingOptions
  | pairingConfiguration => Protocol.pairingConfiguration
  | pairingSecret b => Protocol.pairingSecret b

def isPairing : Outgoing → Bool
  | pairingRequest _ | pairingOptions | pairingConfiguration | pairingSecret _ => true
  | _ => false

def number : Outgoing → FieldNumber
  | configureResponse _ => ⟨1, by decide⟩
  | setActiveResponse _ => ⟨2, by decide⟩
  | pingResponse _ => ⟨9, by decide⟩
  | key _ _ => ⟨10, by decide⟩
  | text _ _ _ => ⟨21, by decide⟩
  | appLink _ => ⟨90, by decide⟩
  | voiceBegin _ => ⟨30, by decide⟩
  | voicePayload _ _ => ⟨31, by decide⟩
  | voiceEnd _ => ⟨32, by decide⟩
  | pairingRequest _ => ⟨10, by decide⟩
  | pairingOptions => ⟨20, by decide⟩
  | pairingConfiguration => ⟨30, by decide⟩
  | pairingSecret _ => ⟨40, by decide⟩

def device : List Item :=
  [.varint ⟨3, by decide⟩ 1, .string ⟨4, by decide⟩ one, .string ⟨5, by decide⟩ atvremote,
    .string ⟨6, by decide⟩ versionOne]

def imeObject (text : Bytes) : List Item :=
  [.varint ⟨1, by decide⟩ (zeroExtend (Int32.ofNat text.length - 1)),
    .varint ⟨2, by decide⟩ (zeroExtend (Int32.ofNat text.length - 1)),
    .string ⟨3, by decide⟩ text]

def editInfo (text : Bytes) : List Item :=
  [.varint ⟨1, by decide⟩ 1, .message ⟨2, by decide⟩ (imeObject text)]

def symbols : List Item := [.varint ⟨1, by decide⟩ 3, .varint ⟨2, by decide⟩ 6]

def body : Outgoing → List Item
  | configureResponse f =>
    [.varint ⟨1, by decide⟩ (signExtend f), .message ⟨2, by decide⟩ device]
  | setActiveResponse f => [.varint ⟨1, by decide⟩ (signExtend f)]
  | pingResponse v => [.varint ⟨1, by decide⟩ (zeroExtend v)]
  | key k d =>
    [.varint ⟨1, by decide⟩ (zeroExtend k), .varint ⟨2, by decide⟩ (signExtend d.value)]
  | text t c f =>
    [.varint ⟨1, by decide⟩ (zeroExtend c), .varint ⟨2, by decide⟩ (zeroExtend f),
      .message ⟨3, by decide⟩ (editInfo t)]
  | appLink l => [.string ⟨1, by decide⟩ l]
  | voiceBegin s => [.varint ⟨1, by decide⟩ (zeroExtend s)]
  | voicePayload s b => [.varint ⟨1, by decide⟩ (zeroExtend s), .bytes ⟨2, by decide⟩ b]
  | voiceEnd s => [.varint ⟨1, by decide⟩ (zeroExtend s)]
  | pairingRequest n => [.string ⟨1, by decide⟩ atvremote, .string ⟨2, by decide⟩ n]
  | pairingOptions => [.message ⟨1, by decide⟩ symbols, .varint ⟨3, by decide⟩ 1]
  | pairingConfiguration => [.message ⟨1, by decide⟩ symbols, .varint ⟨2, by decide⟩ 1]
  | pairingSecret b => [.bytes ⟨1, by decide⟩ b]

def layout (o : Outgoing) : List Item :=
  (if o.isPairing then [.varint ⟨1, by decide⟩ 2, .varint ⟨2, by decide⟩ 200] else []) ++
    [.message o.number o.body]

theorem bytes_eq (o : Outgoing) : o.bytes = encoded o.layout := by
  cases o <;> rfl

def ofRemote (number : UInt32) (body : Bytes) : Option Outgoing :=
  match number with
  | 1 => do
    let [features, info] ← exactly body [(1, .varint), (2, .lengthDelimited)] | none
    let [three, four, five, six] ← exactly info.bytes [(3, .varint), (4, .lengthDelimited),
      (5, .lengthDelimited), (6, .lengthDelimited)] | none
    guard (three.varint = 1 ∧ four.bytes = one ∧ five.bytes = atvremote ∧
      six.bytes = versionOne)
    return configureResponse (asI32 (some features.varint))
  | 2 => do
    let [features] ← exactly body [(1, .varint)] | none
    return setActiveResponse (asI32 (some features.varint))
  | 9 => do
    let [value] ← exactly body [(1, .varint)] | none
    return pingResponse (asI32 (some value.varint))
  | 10 => do
    let [keyCode, direction] ← exactly body [(1, .varint), (2, .varint)] | none
    return key (asI32 (some keyCode.varint)) ⟨asI32 (some direction.varint)⟩
  | 21 => do
    let [counter, fieldCounter, edit] ← exactly body [(1, .varint), (2, .varint),
      (3, .lengthDelimited)] | none
    let [insert, object] ← exactly edit.bytes [(1, .varint), (2, .lengthDelimited)] | none
    let [first, last, value] ← exactly object.bytes [(1, .varint), (2, .varint),
      (3, .lengthDelimited)] | none
    guard (insert.varint = 1 ∧ (asI32 (some first.varint)).toInt = value.bytes.length - 1 ∧
      (asI32 (some last.varint)).toInt = value.bytes.length - 1)
    return text value.bytes (asI32 (some counter.varint)) (asI32 (some fieldCounter.varint))
  | 30 => do
    let [session] ← exactly body [(1, .varint)] | none
    return voiceBegin (asI32 (some session.varint))
  | 31 => do
    let [session, samples] ← exactly body [(1, .varint), (2, .lengthDelimited)] | none
    return voicePayload (asI32 (some session.varint)) samples.bytes
  | 32 => do
    let [session] ← exactly body [(1, .varint)] | none
    return voiceEnd (asI32 (some session.varint))
  | 90 => do
    let [link] ← exactly body [(1, .lengthDelimited)] | none
    return appLink link.bytes
  | _ => none

def isSymbols (m : Bytes) : Bool :=
  match exactly m [(1, .varint), (2, .varint)] with
  | some [type, length] => type.varint == 3 && length.varint == 6
  | _ => false

def ofPairing (number : UInt32) (body : Bytes) : Option Outgoing :=
  match number with
  | 10 => do
    let [service, client] ← exactly body [(1, .lengthDelimited), (2, .lengthDelimited)] | none
    guard (service.bytes = atvremote)
    return pairingRequest client.bytes
  | 20 => do
    let [encoding, role] ← exactly body [(1, .lengthDelimited), (3, .varint)] | none
    guard (isSymbols encoding.bytes ∧ role.varint = 1)
    return pairingOptions
  | 30 => do
    let [encoding, role] ← exactly body [(1, .lengthDelimited), (2, .varint)] | none
    guard (isSymbols encoding.bytes ∧ role.varint = 1)
    return pairingConfiguration
  | 40 => do
    let [secret] ← exactly body [(1, .lengthDelimited)] | none
    return pairingSecret secret.bytes
  | _ => none

/-- The call a message was built by, read back with `Reader` level by level: a
message with any other field, or with bytes that are no field, is refused. -/
def decode (m : Bytes) : Option Outgoing :=
  match Reader.fields ⟨m, 0, true⟩ with
  | ([message], ⟨_, _, true⟩) =>
    if message.type = .lengthDelimited then ofRemote message.number message.bytes else none
  | ([version, status, message], ⟨_, _, true⟩) =>
    if version = { number := 1, type := .varint, varint := 2 } ∧
        status = { number := 2, type := .varint, varint := 200 } ∧
        message.type = .lengthDelimited then
      ofPairing message.number message.bytes
    else none
  | _ => none

/-- A text has at least one byte, and at most what its position can count. -/
def Sized : Outgoing → Prop
  | text t _ _ => 1 ≤ t.length ∧ t.length ≤ 2 ^ 31 - 1
  | _ => True

def echo : Outgoing → Option RemoteIncoming
  | configureResponse f => some {
      kind := .configure
      supportedFeatures := f
      deviceInfo := { softwareVersion := versionOne } }
  | text _ c f => some { kind := .imeBatchEdit, imeCounter := c, fieldCounter := f }
  | voiceBegin s => some { kind := .voiceBegin, voiceSessionId := s }
  | _ => none

theorem decode_eq (o : Outgoing) (h : o.bytes.length < 2 ^ 64) :
    decode o.bytes =
      if o.isPairing then ofPairing o.number.1 (encoded o.body)
      else ofRemote o.number.1 (encoded o.body) := by
  rw [bytes_eq] at h ⊢
  rw [decode, fields_encoded _ h, layout]
  cases hp : o.isPairing <;> rfl

theorem body_length_lt (o : Outgoing) (h : o.bytes.length < 2 ^ 64) :
    (encoded o.body).length < 2 ^ 64 := by
  rw [bytes_eq] at h
  have hmem : Item.message o.number o.body ∈ o.layout := by simp [layout]
  exact nested_length_lt h hmem

theorem asI32_zeroExtend (v : Int32) : asI32 (some (zeroExtend v)) = v :=
  Int32Form.asI32 (.inl rfl)

theorem asI32_signExtend (v : Int32) : asI32 (some (signExtend v)) = v :=
  Int32Form.asI32 (.inr rfl)

theorem position_toInt {t : Bytes} (h : 1 ≤ t.length) (hle : t.length ≤ 2 ^ 31 - 1) :
    (Int32.ofNat t.length - 1).toInt = t.length - 1 := by
  have hlen : (Int32.ofNat t.length).toInt = t.length := Int32.toInt_ofNat_of_lt (by omega)
  have hone : Int32.toInt 1 = 1 := rfl
  rw [Int32.toInt_sub, hlen, hone, Int.bmod_eq_of_le (by omega) (by omega)]

theorem ofPairing_body (o : Outgoing) (hb : (encoded o.body).length < 2 ^ 64)
    (hp : o.isPairing = true) : ofPairing o.number.1 (encoded o.body) = some o := by
  have hread := exactly_encoded hb
  cases o with
  | pairingRequest n =>
    simp only [number, ofPairing, hread]
    simp [body, Item.field]
  | pairingSecret b =>
    simp only [number, ofPairing, hread]
    simp [body, Item.field]
  | pairingOptions => decide +kernel
  | pairingConfiguration => decide +kernel
  | _ => cases hp

theorem ofRemote_body (o : Outgoing) (hb : (encoded o.body).length < 2 ^ 64) (hs : o.Sized)
    (hp : o.isPairing = false) : ofRemote o.number.1 (encoded o.body) = some o := by
  have hread := exactly_encoded hb
  cases o with
  | configureResponse f =>
    have hdevice : (encoded device).length < 2 ^ 64 := by decide +kernel
    simp only [number, ofRemote, hread]
    simp only [body, List.map_cons, List.map_nil, Item.field, if_true, Option.bind_eq_bind,
      Option.bind_some, exactly_encoded hdevice]
    simp [device, Item.field, asI32_signExtend]
  | text t c f =>
    have hedit : (encoded (editInfo t)).length < 2 ^ 64 :=
      nested_length_lt (n := ⟨3, by decide⟩) hb (by simp [body])
    have hobject : (encoded (imeObject t)).length < 2 ^ 64 :=
      nested_length_lt (n := ⟨2, by decide⟩) hedit (by simp [editInfo])
    simp only [number, ofRemote, hread]
    simp only [body, List.map_cons, List.map_nil, Item.field, if_true, Option.bind_eq_bind,
      Option.bind_some, exactly_encoded hedit]
    simp only [editInfo, List.map_cons, List.map_nil, Item.field, if_true, Option.bind_some,
      exactly_encoded hobject]
    simp [imeObject, Item.field, asI32_zeroExtend, position_toInt hs.1 hs.2]
  | pairingRequest | pairingOptions | pairingConfiguration | pairingSecret => cases hp
  | _ =>
    simp only [number, ofRemote, hread]
    simp [body, Item.field, asI32_zeroExtend, asI32_signExtend]

theorem decode_bytes (o : Outgoing) (h : o.bytes.length < 2 ^ 64) (hs : o.Sized) :
    decode o.bytes = some o := by
  have hb := o.body_length_lt h
  rw [decode_eq o h]
  split
  next hp => exact o.ofPairing_body hb hp
  next hp => exact o.ofRemote_body hb hs (Bool.eq_false_iff.mpr hp)

theorem pairingStatus_bytes (o : Outgoing) (h : o.bytes.length < 2 ^ 64)
    (hp : o.isPairing = true) : pairingStatus o.bytes = some 200 := by
  rw [bytes_eq] at h ⊢
  rw [pairingStatus, findVarint_encoded h, layout, if_pos hp]
  rfl

theorem parseRemote_eq (o : Outgoing) (h : o.bytes.length < 2 ^ 64)
    (hp : o.isPairing = false) :
    parseRemote o.bytes = (parseField (Item.message o.number o.body).field).getD {} := by
  have hlayout : o.layout = [.message o.number o.body] := by
    rw [layout, hp]
    rfl
  rw [bytes_eq, hlayout] at h ⊢
  exact parseRemote_message h

theorem parseDeviceInfo_device :
    parseDeviceInfo (some (encoded device)) = { softwareVersion := versionOne } := by
  decide +kernel

theorem parseRemote_bytes (o : Outgoing) (h : o.bytes.length < 2 ^ 64) {m : RemoteIncoming}
    (hm : o.echo = some m) : parseRemote o.bytes = m := by
  have hb := o.body_length_lt h
  have hparse := o.parseRemote_eq h
  cases o with
  | configureResponse f =>
    obtain rfl := Option.some.inj hm
    rw [hparse rfl]
    simp only [number, Item.field, parseField, findVarint_encoded hb, findBytes_encoded hb]
    simp [body, Item.field, parseDeviceInfo_device, asI32_signExtend]
  | text t c f =>
    obtain rfl := Option.some.inj hm
    rw [hparse rfl]
    simp only [number, Item.field, parseField, findVarint_encoded hb]
    simp [body, Item.field, asI32_zeroExtend]
  | voiceBegin s =>
    obtain rfl := Option.some.inj hm
    rw [hparse rfl]
    simp only [number, Item.field, parseField, findVarint_encoded hb]
    simp [body, Item.field, asI32_zeroExtend]
  | _ => cases hm

/-- Every message decodes to the call that built it. The message is built in a
`std::vector`, which holds fewer than `2 ^ 64` bytes. -/
theorem outgoing_decodes (o : Outgoing) (h : o.bytes.length < 2 ^ 64) (hs : o.Sized) :
    ReadsAs o.bytes o.layout ∧ decode o.bytes = some o ∧
    (o.isPairing = true → pairingStatus o.bytes = some 200) ∧
    ∀ m, o.echo = some m → parseRemote o.bytes = m := by
  refine ⟨?_, o.decode_bytes h hs, o.pairingStatus_bytes h, fun m ↦ o.parseRemote_bytes h⟩
  have hread := readsAs_encoded o.layout (by rw [← bytes_eq]; exact h)
  rwa [← bytes_eq] at hread

theorem outgoing_decodes_text :
    decode (remoteText [0x08, 0x01] (-1) 7) = some (text [0x08, 0x01] (-1) 7) ∧
      parseRemote (remoteText [0x08, 0x01] (-1) 7) =
        { kind := .imeBatchEdit, imeCounter := -1, fieldCounter := 7 } := by
  have h := outgoing_decodes (text [0x08, 0x01] (-1) 7) (by decide +kernel) ⟨by decide, by decide⟩
  exact ⟨h.2.1, h.2.2.2 _ rfl⟩

end Outgoing

end Protocol

end AndroidTvRemote
