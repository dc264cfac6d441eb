import AndroidTvRemote.ProtocolMessages
import AndroidTvRemote.WireRoundTrip

namespace AndroidTvRemote

open Wire

namespace Wire

def looksFor (keys : List (UInt32 × WireType)) (f : Field) : Bool :=
  keys.contains (f.number, f.type)

/-- The bytes of some calls of `Writer`, with any well-formed fields that are not
looked for before, between and behind them. -/
inductive Woven (keys : List (UInt32 × WireType)) : List Item → Bytes → Prop
  | nil : Woven keys [] []
  | other {p b : Bytes} {f : Field} {items : List Item} (hp : Spells p f)
      (hf : looksFor keys f = false) (h : Woven keys items b) : Woven keys items (p ++ b)
  | item {i : Item} {items : List Item} {b : Bytes} (h : Woven keys items b) :
      Woven keys (i :: items) ((i.write {}).data ++ b)

variable {keys : List (UInt32 × WireType)} {items : List Item} {b : Bytes}

theorem Woven.item_length_le (h : Woven keys items b) {i : Item} (hi : i ∈ items) :
    i.field.bytes.length ≤ b.length := by
  induction h with
  | nil => cases hi
  | other _ _ _ ih =>
    rw [List.length_append]
    exact (ih hi).trans (Nat.le_add_left _ _)
  | @item j items b _ ih =>
    rw [List.length_append]
    rcases List.mem_cons.mp hi with rfl | hi
    · exact i.bytes_length_le.trans (Nat.le_add_right _ _)
    · exact (ih hi).trans (Nat.le_add_left _ _)

theorem Woven.decomposes (h : Woven keys items b) (hlen : b.length < 2 ^ 64) :
    ∃ d, Decomposes b d ∧
      (d.map Prod.snd).filter (looksFor keys) = (items.map Item.field).filter (looksFor keys) := by
  induction h with
  | nil => exact ⟨[], .nil, rfl⟩
  | @other p b f items hp hf _ ih =>
    rw [List.length_append] at hlen
    obtain ⟨d, hd, hfilter⟩ := ih (by omega)
    refine ⟨(p, f) :: d, .cons hp hd, ?_⟩
    rw [List.map_cons, List.filter_cons_of_neg (by simp [hf]), hfilter]
  | @item i items b _ ih =>
    rw [List.length_append] at hlen
    have hle := i.bytes_length_le
    obtain ⟨d, hd, hfilter⟩ := ih (by omega)
    refine ⟨((i.write {}).data, i.field) :: d, .cons (Item.spells (by omega)) hd, ?_⟩
    rw [List.map_cons, List.map_cons, List.filter_cons, List.filter_cons, hfilter]

theorem Woven.find (h : Woven keys items b) (hlen : b.length < 2 ^ 64) {P : Field → Bool}
    (hP : ∀ f, P f = true → looksFor keys f = true) :
    (Reader.fields ⟨b, 0, true⟩).1.find? P = (items.map Item.field).find? P := by
  obtain ⟨d, hd, hfilter⟩ := h.decomposes hlen
  have hsame : ∀ l : List Field, l.find? P = (l.filter (looksFor keys)).find? P := by
    intro l
    rw [List.find?_filter]
    congr 1
    funext f
    cases hf : P f with
    | false => simp
    | true => simp [hP f hf]
  rw [Reader.fields_of_decomposes (r := ⟨b, 0, true⟩) rfl (Nat.zero_le _) hd, hsame, hfilter,
    ← hsame]

theorem Woven.findVarint (h : Woven keys items b) (hlen : b.length < 2 ^ 64) {n : UInt32}
    (hn : (n, .varint) ∈ keys) : findVarint b n = ((items.map Item.field).find? fun f ↦
      decide (f.number = n ∧ f.type = .varint)).map Field.varint := by
  rw [findVarint_eq, h.find hlen]
  intro f hf
  obtain ⟨hnum, htype⟩ := of_decide_eq_true hf
  rw [looksFor, hnum, htype]
  exact List.contains_iff_mem.mpr hn

theorem Woven.findBytes (h : Woven keys items b) (hlen : b.length < 2 ^ 64) {n : UInt32}
    (hn : (n, .lengthDelimited) ∈ keys) : findBytes b n = ((items.map Item.field).find? fun f ↦
      decide (f.number = n ∧ f.type = .lengthDelimited)).map Field.bytes := by
  rw [findBytes_eq, h.find hlen]
  intro f hf
  obtain ⟨hnum, htype⟩ := of_decide_eq_true hf
  rw [looksFor, hnum, htype]
  exact List.contains_iff_mem.mpr hn

namespace Reader

variable {α : Type} {g : Field → Option α} {r r' : Reader} {f : Field}

theorem search_hit {a : α} (h : r.next = (some f, r')) (hf : g f = some a) :
    r.search g = some a := by
  rw [search_eq_findSome, fields_some h, List.findSome?_cons, hf]

theorem search_skip (h : r.next = (some f, r')) (hf : g f = none) : r.search g = r'.search g := by
  rw [search_eq_findSome, search_eq_findSome, fields_some h, List.findSome?_cons, hf]

/-- Fields that a search passes over do not change what it finds behind
them. -/
theorem search_woven {noise t : Bytes} (hw : Woven keys [] noise)
    (hg : ∀ f, looksFor keys f = false → g f = none) (hok : r.ok = true)
    (hr : r.rest = noise ++ t) :
    r.search g = Reader.search g { r with offset := r.offset + noise.length } := by
  generalize hitems : ([] : List Item) = items at hw
  induction hw generalizing r with
  | nil => rfl
  | @other p b f items hp hf _ ih =>
    rw [List.append_assoc] at hr
    have hih := ih (r := { r with offset := r.offset + p.length }) hok (rest_advance hr) hitems
    rw [search_skip (next_spells hok hr hp) (hg f hf), hih]
    simp only [List.length_append, Nat.add_assoc]
  | item => cases hitems

end Reader

end Wire

namespace Protocol

/-- The two varint forms of an `int32_t`. -/
def Int32Form (value : Int32) (v : UInt64) : Prop := v = zeroExtend value ∨ v = signExtend value

theorem Int32Form.asI32 {value : Int32} {v : UInt64} (h : Int32Form value v) :
    asI32 (some v) = value := by
  rcases h with rfl | rfl
  · simp [Protocol.asI32, zeroExtend]
  · have hcut : ∀ x : Int64, x.toUInt64.toUInt32.toInt32 = x.toInt32 := by
      intro x
      apply Int32.toBitVec_inj.mp
      simp [BitVec.signExtend_eq_setWidth_of_le]
    exact (hcut _).trans (Int32.toInt32_toInt64 value)

theorem Int32Form.asU32 {value : Int32} {v : UInt64} (h : Int32Form value v) :
    asU32 (some v) = value.toUInt32 := by
  have hi := h.asI32
  rw [← hi]
  simp [Protocol.asU32, Protocol.asI32]

def remoteKeys : List (UInt32 × WireType) :=
  [1, 2, 3, 8, 20, 21, 30, 40, 50].map fun n ↦ (n, .lengthDelimited)

inductive Body : RemoteIncoming → FieldNumber → Bytes → Prop
  | configure {features : Int32} {v : UInt64} {model vendor version info body : Bytes}
      (hv : Int32Form features v)
      (hinfo : Woven [(1, .lengthDelimited), (2, .lengthDelimited), (6, .lengthDelimited)]
        [.string ⟨1, by decide⟩ model, .string ⟨2, by decide⟩ vendor,
          .string ⟨6, by decide⟩ version] info)
      (hbody : Woven [(1, .varint), (2, .lengthDelimited)]
        [.varint ⟨1, by decide⟩ v, .bytes ⟨2, by decide⟩ info] body) :
      Body
        { kind := .configure
          supportedFeatures := features
          deviceInfo := { manufacturer := vendor, model, softwareVersion := version } }
        ⟨1, by decide⟩ body
  | setActive {body : Bytes} (hbody : Woven [] [] body) :
      Body { kind := .setActive } ⟨2, by decide⟩ body
  | error {body : Bytes} (hbody : Woven [] [] body) : Body { kind := .error } ⟨3, by decide⟩ body
  | ping {value : Int32} {v : UInt64} {body : Bytes} (hv : Int32Form value v)
      (hbody : Woven [(1, .varint)] [.varint ⟨1, by decide⟩ v] body) :
      Body { kind := .ping, pingValue := value } ⟨8, by decide⟩ body
  | imeKeyInject {app info body : Bytes}
      (hinfo : Woven [(12, .lengthDelimited)] [.string ⟨12, by decide⟩ app] info)
      (hbody : Woven [(1, .lengthDelimited)] [.bytes ⟨1, by decide⟩ info] body) :
      Body { kind := .imeKeyInject, currentApp := app } ⟨20, by decide⟩ body
  | imeBatchEdit {counter fieldCounter : Int32} {v u : UInt64} {body : Bytes}
      (hv : Int32Form counter v) (hu : Int32Form fieldCounter u)
      (hbody : Woven [(1, .varint), (2, .varint)]
        [.varint ⟨1, by decide⟩ v, .varint ⟨2, by decide⟩ u] body) :
      Body { kind := .imeBatchEdit, imeCounter := counter, fieldCounter } ⟨21, by decide⟩ body
  | voiceBegin {session : Int32} {v : UInt64} {body : Bytes} (hv : Int32Form session v)
      (hbody : Woven [(1, .varint)] [.varint ⟨1, by decide⟩ v] body) :
      Body { kind := .voiceBegin, voiceSessionId := session } ⟨30, by decide⟩ body
  | start {v : UInt64} {body : Bytes}
      (hbody : Woven [(1, .varint)] [.varint ⟨1, by decide⟩ v] body) :
      Body { kind := .start, started := v != 0 } ⟨40, by decide⟩ body
  | volume {maximum level : Int32} {v u m : UInt64} {body : Bytes} (hv : Int32Form maximum v)
      (hu : Int32Form level u)
      (hbody : Woven [(6, .varint), (7, .varint), (8, .varint)]
        [.varint ⟨6, by decide⟩ v, .varint ⟨7, by decide⟩ u, .varint ⟨8, by decide⟩ m] body) :
      Body
        { kind := .volume
          volume := { level := level.toUInt32, maximum := maximum.toUInt32, muted := m != 0 } }
        ⟨50, by decide⟩ body

theorem Body.parseField {message : RemoteIncoming} {n : FieldNumber} {body : Bytes}
    (h : Body message n body) (hlen : body.length < 2 ^ 64) :
    parseField { number := n.1, type := .lengthDelimited, bytes := body } = some message := by
  cases h with
  | @configure features v model vendor version info body hv hinfo hbody =>
    have hle : info.length < 2 ^ 64 := (hbody.item_length_le
      (i := .bytes ⟨2, by decide⟩ info) (by simp)).trans_lt hlen
    simp [Protocol.parseField, parseDeviceInfo, hbody.findVarint hlen, hbody.findBytes hlen,
      hinfo.findBytes hle, Item.field, hv.asI32]
  | setActive => rfl
  | error => rfl
  | ping hv hbody => simp [Protocol.parseField, hbody.findVarint hlen, Item.field, hv.asI32]
  | @imeKeyInject app info body hinfo hbody =>
    have hle : info.length < 2 ^ 64 := (hbody.item_length_le
      (i := .bytes ⟨1, by decide⟩ info) (by simp)).trans_lt hlen
    simp [Protocol.parseField, hbody.findBytes hlen, hinfo.findBytes hle, Item.field]
  | imeBatchEdit hv hu hbody =>
    simp [Protocol.parseField, hbody.findVarint hlen, Item.field, hv.asI32, hu.asI32]
  | voiceBegin hv hbody => simp [Protocol.parseField, hbody.findVarint hlen, Item.field, hv.asI32]
  | start hbody => simp [Protocol.parseField, hbody.findVarint hlen, Item.field]
  | volume hv hu hbody =>
    simp [Protocol.parseField, hbody.findVarint hlen, Item.field, hv.asU32, hu.asU32]

theorem parseField_of_not_looksFor (f : Field) (h : looksFor remoteKeys f = false) :
    parseField f = none := by
  by_cases ht : f.type = .lengthDelimited
  · have hn : f.number ∉ [1, 2, 3, 8, 20, 21, 30, 40, 50] := by
      intro hn
      have hmem : (f.number, WireType.lengthDelimited) ∈ remoteKeys := List.mem_map_of_mem hn
      rw [looksFor, ht, List.contains_iff_mem.mpr hmem] at h
      cases h
    simp only [List.mem_cons, List.not_mem_nil, or_false, not_or] at hn
    obtain ⟨h1, h2, h3, h8, h20, h21, h30, h40, h50⟩ := hn
    simp only [parseField, ht, ne_eq, not_true_eq_false, if_false]
  · exact if_pos ht

/-- An inbound message is read back whatever unknown fields stand in it and
whatever bytes follow it. The message is held in a buffer of less than
`2 ^ 64` bytes. -/
theorem parseRemote_inverts_format {message : RemoteIncoming} {n : FieldNumber}
    {noise body tail : Bytes} (hbody : Body message n body) (hnoise : Woven remoteKeys [] noise)
    (hlen : (noise ++ (Writer.bytesField {} n.1 body).data ++ tail).length < 2 ^ 64) :
    parseRemote (noise ++ (Writer.bytesField {} n.1 body).data ++ tail) = message := by
  have hle := Item.bytes_length_le (.bytes n body)
  have hb : body.length < 2 ^ 64 := by
    simp only [Item.field, Item.write] at hle
    rw [List.length_append, List.length_append] at hlen
    omega
  have hskip := Reader.search_woven (g := parseField) hnoise parseField_of_not_looksFor
    (r := ⟨noise ++ (Writer.bytesField {} n.1 body).data ++ tail, 0, true⟩) rfl
    (List.append_assoc _ _ _)
  have hnext := Reader.next_spells
    (r := ⟨noise ++ (Writer.bytesField {} n.1 body).data ++ tail, 0 + noise.length, true⟩) rfl
    (Reader.rest_advance (r := ⟨noise ++ (Writer.bytesField {} n.1 body).data ++ tail, 0, true⟩)
      (List.append_assoc _ _ _)) (spells_bytesField n.2 hb)
  rw [parseRemote, hskip, Reader.search_hit hnext (hbody.parseField hb)]
  rfl

theorem parseRemote_inverts_format_ping :
    parseRemote ([0x08, 0x07] ++ (Writer.bytesField {} 8
      (Writer.varintField {} 1 (signExtend (-2))).data).data ++ [0xff]) =
        { kind := .ping, pingValue := -2 } := by
  have hping : Woven [(1, .varint)] [.varint ⟨1, by decide⟩ (signExtend (-2))]
      ((Writer.varintField {} 1 (signExtend (-2))).data ++ []) := .item .nil
  rw [List.append_nil] at hping
  have hseven : Spells ([0x08] ++ [0x07]) { number := 1, type := .varint, varint := 7 } :=
    .mk (n := 1) (t := .varint)
      ⟨⟨.last (by decide), by decide⟩, by decide, by decide, by decide⟩
      (.varint ⟨.last (by decide), by decide⟩)
  have hnoise : Woven remoteKeys [] ([0x08, 0x07] ++ []) := .other hseven (by decide) .nil
  rw [List.append_nil] at hnoise
  exact parseRemote_inverts_format (n := ⟨8, by decide⟩) (.ping (.inr rfl) hping) hnoise
    (by decide +kernel)

end Protocol

end AndroidTvRemote
