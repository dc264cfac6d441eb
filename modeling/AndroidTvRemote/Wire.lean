import AndroidTvRemote.Base128

namespace AndroidTvRemote.Wire

open Base128

abbrev Bytes := List UInt8

inductive WireType
  | varint
  | fixed64
  | lengthDelimited
  | fixed32
  deriving DecidableEq, Repr

namespace WireType

def code : WireType → UInt64
  | varint => 0
  | fixed64 => 1
  | lengthDelimited => 2
  | fixed32 => 5

/-- The wire type in the low bits of a key; the other four codes are what the
reader's `switch` leaves to its default branch. -/
def ofCode (c : UInt64) : Option WireType :=
  if c = 0 then some varint
  else if c = 1 then some fixed64
  else if c = 2 then some lengthDelimited
  else if c = 5 then some fixed32
  else none

theorem ofCode_code (t : WireType) : ofCode t.code = some t := by cases t <;> rfl

end WireType

structure Field where
  number : UInt32 := 0
  type : WireType := .varint
  varint : UInt64 := 0
  bytes : Bytes := []
  deriving DecidableEq, Repr

structure Writer where
  data : Bytes := []
  deriving DecidableEq, Repr

namespace Writer

def varint (w : Writer) (value : UInt64) : Writer :=
  if value < 0x80 then ⟨w.data ++ [value.toUInt8]⟩
  else varint ⟨w.data ++ [((value &&& 0x7f) ||| 0x80).toUInt8]⟩ (value >>> 7)
termination_by value.toNat
decreasing_by
  rename_i h
  have hv : ¬ value.toNat < 128 := by simpa [UInt64.lt_iff_toNat_lt] using h
  rw [shiftRight_seven]
  omega

def key (w : Writer) (fieldNumber : UInt32) (type : WireType) : Writer :=
  w.varint ((fieldNumber.toUInt64 <<< 3) ||| type.code)

def varintField (w : Writer) (fieldNumber : UInt32) (value : UInt64) : Writer :=
  (w.key fieldNumber .varint).varint value

def bytesField (w : Writer) (fieldNumber : UInt32) (value : Bytes) : Writer :=
  ⟨((w.key fieldNumber .lengthDelimited).varint (UInt64.ofNat value.length)).data ++ value⟩

def stringField (w : Writer) (fieldNumber : UInt32) (value : Bytes) : Writer :=
  w.bytesField fieldNumber value

def messageField (w : Writer) (fieldNumber : UInt32) (nested : Writer) : Writer :=
  w.bytesField fieldNumber nested.data

theorem varint_data (w : Writer) (v : UInt64) : (w.varint v).data = w.data ++ encode v.toNat := by
  induction w, v using varint.induct with
  | case1 w v h =>
    rw [varint, if_pos h, last_group h]
  | case2 w v h ih =>
    have hv : ¬ v.toNat < 128 := by simpa [UInt64.lt_iff_toNat_lt] using h
    rw [varint, if_neg h, ih, shiftRight_seven, encode_large hv, next_group, List.append_assoc]
    rfl

theorem key_toNat (n : UInt32) (t : WireType) :
    ((n.toUInt64 <<< 3) ||| t.code).toNat = 8 * n.toNat + t.code.toNat := by
  have hn := n.toNat_lt
  have ht : t.code.toNat < 2 ^ 3 := by cases t <;> decide
  have hor := Nat.two_pow_add_eq_or_of_lt ht n.toNat
  rw [UInt64.toNat_or, UInt64.toNat_shiftLeft, UInt32.toNat_toUInt64, Nat.shiftLeft_eq]
  change (n.toNat * 2 ^ 3 % 2 ^ 64 ||| _) = _
  rw [Nat.mod_eq_of_lt (by omega), Nat.mul_comm, ← hor]

theorem key_data (w : Writer) (n : UInt32) (t : WireType) :
    (w.key n t).data = w.data ++ encode (8 * n.toNat + t.code.toNat) := by
  rw [key, varint_data, key_toNat]

theorem varintField_data (w : Writer) (n : UInt32) (v : UInt64) :
    (w.varintField n v).data = w.data ++ (encode (8 * n.toNat) ++ encode v.toNat) := by
  rw [varintField, varint_data, key_data, List.append_assoc]
  rfl

theorem bytesField_data (w : Writer) (n : UInt32) (b : Bytes) :
    (w.bytesField n b).data =
      w.data ++ (encode (8 * n.toNat + 2) ++ encode (b.length % 2 ^ 64) ++ b) := by
  simp only [bytesField, varint_data, key_data, UInt64.toNat_ofNat', List.append_assoc]
  rfl

theorem messageField_inj {n : UInt32} {a b : Writer}
    (h : (Writer.messageField {} n a).data = (Writer.messageField {} n b).data) :
    a.data = b.data := by
  simp only [messageField, bytesField_data, List.nil_append, List.append_assoc] at h
  exact (encode_append_inj (encode_append_inj h).2).2

end Writer

structure Reader where
  bytes : Bytes
  offset : ℕ := 0
  ok : Bool := true
  deriving DecidableEq, Repr

namespace Reader

def rest (r : Reader) : Bytes := r.bytes.drop r.offset

/-- The loop of `readVarint`, entered with the value and the shift so far. -/
def readVarintLoop (value : UInt64) (shift : ℕ) (r : Reader) : Option UInt64 × Reader :=
  if h : r.offset < r.bytes.length ∧ shift ≤ 63 then
    let byte := r.bytes.get ⟨r.offset, h.1⟩
    let r' := { r with offset := r.offset + 1 }
    let value' := value ||| ((byte &&& 0x7f).toUInt64 <<< UInt64.ofNat shift)
    if byte &&& 0x80 = 0 then (some value', r') else readVarintLoop value' (shift + 7) r'
  else (none, { r with ok := false })
termination_by r.bytes.length - r.offset
decreasing_by omega

def readVarint (r : Reader) : Option UInt64 × Reader := r.readVarintLoop 0 0

def readFixed (number : UInt32) (type : WireType) (size : ℕ) (r : Reader) :
    Option Field × Reader :=
  if r.bytes.length - r.offset < size then (none, { r with ok := false })
  else (some { number, type, bytes := r.rest.take size }, { r with offset := r.offset + size })

/-- The `switch` of `next` on the wire type; `none` is its default branch. -/
def readValue (number : UInt32) (type : Option WireType) (r : Reader) : Option Field × Reader :=
  match type with
  | some .varint =>
    match r.readVarint with
    | (none, r) => (none, r)
    | (some value, r) => (some { number, type := .varint, varint := value }, r)
  | some .fixed64 => r.readFixed number .fixed64 8
  | some .lengthDelimited =>
    match r.readVarint with
    | (none, r) => (none, { r with ok := false })
    | (some size, r) =>
      if r.bytes.length - r.offset < size.toNat then (none, { r with ok := false })
      else (some { number, type := .lengthDelimited, bytes := r.rest.take size.toNat },
        { r with offset := r.offset + size.toNat })
  | some .fixed32 => r.readFixed number .fixed32 4
  | none => (none, { r with ok := false })

def next (r : Reader) : Option Field × Reader :=
  if !r.ok || r.bytes.length ≤ r.offset then (none, r)
  else match r.readVarint with
  | (none, r) => (none, r)
  | (some keyValue, r) =>
    let number := (keyValue >>> 3).toUInt32
    if number = 0 then (none, { r with ok := false })
    else r.readValue number (WireType.ofCode (keyValue &&& 0x07))

theorem rest_cons {r : Reader} {b : UInt8} {t : Bytes} (h : r.rest = b :: t) :
    ∃ hl : r.offset < r.bytes.length, r.bytes.get ⟨r.offset, hl⟩ = b ∧
      ({ r with offset := r.offset + 1 } : Reader).rest = t := by
  have hl : r.offset < r.bytes.length := by
    by_contra hn
    rw [rest, List.drop_eq_nil_of_le (by omega)] at h
    cases h
  rw [rest, List.drop_eq_getElem_cons hl] at h
  exact ⟨hl, (List.cons.inj h).1, (List.cons.inj h).2⟩

theorem rest_nil {r : Reader} (h : r.rest = []) : r.bytes.length ≤ r.offset := by
  simpa [rest] using h

theorem rest_advance {r : Reader} {p t : Bytes} (h : r.rest = p ++ t) :
    ({ r with offset := r.offset + p.length } : Reader).rest = t := by
  change r.bytes.drop (r.offset + p.length) = t
  rw [← List.drop_drop, show r.bytes.drop r.offset = p ++ t from h, List.drop_left]

theorem rest_length (r : Reader) : r.rest.length = r.bytes.length - r.offset := by
  simp [rest]

/-- The outcome of a varint read: the value of the group string cut off the
unread bytes, or a failure with the whole attempt consumed. -/
def varintOutcome (k : ℕ) (seen : Bytes) (r : Reader) : Option UInt64 × Reader :=
  match scan k r.rest with
  | some (p, _) =>
    (some (UInt64.ofNat (denote (seen ++ p))), { r with offset := r.offset + p.length })
  | none => (none, { r with offset := r.offset + min k r.rest.length, ok := false })

theorem accumulate (seen : Bytes) (b : UInt8) (h : seen.length ≤ 9) :
    UInt64.ofNat (denote seen) ||| ((b &&& 0x7f).toUInt64 <<< UInt64.ofNat (7 * seen.length)) =
      UInt64.ofNat (denote (seen ++ [b])) := by
  have hpow : (128 : ℕ) ^ seen.length = 2 ^ (7 * seen.length) := by
    rw [pow_mul]
    rfl
  have hlt : denote seen < 2 ^ (7 * seen.length) := hpow ▸ denote_lt seen
  have hbound : (2 : ℕ) ^ (7 * seen.length) ≤ 2 ^ 63 :=
    Nat.pow_le_pow_right (by decide) (by omega)
  have hval : (UInt64.ofNat (denote seen)).toNat = denote seen := by
    rw [UInt64.toNat_ofNat']
    exact Nat.mod_eq_of_lt (by omega)
  rw [or_shift b (by omega) (by rwa [hval]), hval, denote_append, hpow]
  simp only [denote, Nat.mul_zero, Nat.add_zero]

theorem readVarintLoop_eq (k : ℕ) (seen : Bytes) (r : Reader) (hk : seen.length + k = 10) :
    r.readVarintLoop (UInt64.ofNat (denote seen)) (7 * seen.length) = varintOutcome k seen r := by
  induction k generalizing seen r with
  | zero =>
    rw [readVarintLoop, dif_neg (by omega)]
    simp [varintOutcome, scan]
  | succ k ih =>
    cases hr : r.rest with
    | nil =>
      have hl := rest_nil hr
      rw [readVarintLoop, dif_neg (by omega)]
      simp [varintOutcome, hr, scan]
    | cons b t =>
      obtain ⟨hl, hb, ht⟩ := rest_cons hr
      have hacc := accumulate seen b (by omega)
      rw [readVarintLoop, dif_pos ⟨hl, by omega⟩]
      simp only [hb, hacc, continues_iff]
      by_cases hc : b.toNat < 128
      · simp [varintOutcome, hr, scan, hc]
      · have hih := ih (seen ++ [b]) { r with offset := r.offset + 1 } (by simp; omega)
        rw [List.length_append, List.length_singleton, Nat.mul_add] at hih
        rw [if_neg hc, hih]
        simp only [varintOutcome, ht, hr, scan, hc, if_false]
        cases hs : scan k t with
        | none => simp [Nat.succ_min_succ]; omega
        | some p => simp [Nat.add_comm, Nat.add_left_comm]

theorem readVarint_eq (r : Reader) : r.readVarint = varintOutcome 10 [] r :=
  readVarintLoop_eq 10 [] r rfl

theorem readVarint_some {r r' : Reader} {v : UInt64} (h : r.readVarint = (some v, r')) :
    r'.bytes = r.bytes ∧ r'.ok = r.ok ∧ r.offset < r'.offset ∧ r'.offset ≤ r.bytes.length := by
  rw [readVarint_eq, varintOutcome] at h
  split at h
  next p t hs =>
    obtain ⟨-, rfl⟩ := Prod.mk.inj h
    obtain ⟨hr, hp, -⟩ := scan_eq_some_iff.mp hs
    have hl := congrArg List.length hr
    have hp' := List.length_pos_iff.mpr hp.ne_nil
    rw [rest_length, List.length_append] at hl
    refine ⟨rfl, rfl, ?_, ?_⟩ <;> simp only <;> omega
  next => cases (Prod.mk.inj h).1

theorem readFixed_some {number : UInt32} {type : WireType} {size : ℕ} {r r' : Reader}
    {f : Field} (h : r.readFixed number type size = (some f, r')) :
    r'.bytes = r.bytes ∧ r'.offset = r.offset + size ∧ r'.offset ≤ max r.bytes.length r.offset := by
  rw [readFixed] at h
  split at h
  · cases (Prod.mk.inj h).1
  · obtain ⟨-, rfl⟩ := Prod.mk.inj h
    refine ⟨rfl, rfl, ?_⟩
    simp only
    omega

theorem readValue_some {number : UInt32} {type : Option WireType} {r r' : Reader} {f : Field}
    (h : r.readValue number type = (some f, r')) :
    r'.bytes = r.bytes ∧ r.offset < r'.offset ∧ r'.offset ≤ max r.bytes.length r.offset := by
  unfold readValue at h
  split at h
  · split at h
    · cases (Prod.mk.inj h).1
    next v r₁ hv =>
      obtain ⟨-, rfl⟩ := Prod.mk.inj h
      obtain ⟨hb, -, hlt, hle⟩ := readVarint_some hv
      exact ⟨hb, hlt, hle.trans (Nat.le_max_left _ _)⟩
  · obtain ⟨hb, ho, hm⟩ := readFixed_some h
    exact ⟨hb, by omega, hm⟩
  · split at h
    · cases (Prod.mk.inj h).1
    next size r₁ hv =>
      obtain ⟨hb, -, hlt, hle⟩ := readVarint_some hv
      split at h
      · cases (Prod.mk.inj h).1
      next hsize =>
        obtain ⟨-, rfl⟩ := Prod.mk.inj h
        rw [hb] at hsize
        refine ⟨hb, ?_, ?_⟩ <;> simp only <;> omega
  · obtain ⟨hb, ho, hm⟩ := readFixed_some h
    exact ⟨hb, by omega, hm⟩
  · cases (Prod.mk.inj h).1

theorem next_some {r r' : Reader} {f : Field} (h : r.next = (some f, r')) :
    r'.bytes = r.bytes ∧ r.offset < r'.offset ∧ r'.offset ≤ r.bytes.length := by
  rw [next] at h
  split at h
  · cases (Prod.mk.inj h).1
  split at h
  · cases (Prod.mk.inj h).1
  next k r₁ hk =>
    obtain ⟨hb, -, hlt, hle⟩ := readVarint_some hk
    simp only at h
    split at h
    · cases (Prod.mk.inj h).1
    · obtain ⟨hb', hlt', hm⟩ := readValue_some h
      rw [hb] at hb' hm
      exact ⟨hb', by omega, by omega⟩

/-- `while (reader.next(field))` around a body that returns on the fields
where `f` has a value. -/
def search {α : Type} (f : Field → Option α) (r : Reader) : Option α :=
  match _h : r.next with
  | (none, _) => none
  | (some field, r') =>
    match f field with
    | some a => some a
    | none => r'.search f
termination_by r.bytes.length - r.offset
decreasing_by
  obtain ⟨hb, hlt, hle⟩ := next_some _h
  rw [hb]
  omega

def fields (r : Reader) : List Field × Reader :=
  match _h : r.next with
  | (none, r') => ([], r')
  | (some field, r') => (field :: r'.fields.1, r'.fields.2)
termination_by r.bytes.length - r.offset
decreasing_by
  all_goals
    obtain ⟨hb, hlt, hle⟩ := next_some _h
    rw [hb]
    omega

theorem fields_none {r r' : Reader} (h : r.next = (none, r')) : r.fields = ([], r') := by
  rw [fields]
  split
  next r₁ h₁ => rw [h] at h₁; rw [(Prod.mk.inj h₁).2]
  next h₁ => rw [h] at h₁; cases (Prod.mk.inj h₁).1

theorem fields_some {r r' : Reader} {f : Field} (h : r.next = (some f, r')) :
    r.fields = (f :: r'.fields.1, r'.fields.2) := by
  rw [fields]
  split
  next h₁ => rw [h] at h₁; cases (Prod.mk.inj h₁).1
  next f₁ r₁ h₁ =>
    rw [h] at h₁
    obtain ⟨h₂, rfl⟩ := Prod.mk.inj h₁
    rw [Option.some.inj h₂]

theorem search_eq_findSome {α : Type} (f : Field → Option α) (r : Reader) :
    r.search f = r.fields.1.findSome? f := by
  induction r using fields.induct with
  | case1 r r' h =>
    rw [fields_none h, search]
    split
    · rfl
    next h₁ => rw [h] at h₁; cases (Prod.mk.inj h₁).1
  | case2 r field r' h ih =>
    rw [fields_some h, search, List.findSome?_cons]
    split
    next h₁ => rw [h] at h₁; cases (Prod.mk.inj h₁).1
    next f₁ r₁ h₁ =>
      rw [h] at h₁
      obtain ⟨h₂, rfl⟩ := Prod.mk.inj h₁
      obtain rfl := Option.some.inj h₂
      split <;> simp_all

end Reader

def findVarint (message : Bytes) (fieldNumber : UInt32) : Option UInt64 :=
  Reader.search (fun field ↦
    if field.number = fieldNumber ∧ field.type = .varint then some field.varint else none)
    ⟨message, 0, true⟩

def findBytes (message : Bytes) (fieldNumber : UInt32) : Option Bytes :=
  Reader.search (fun field ↦
    if field.number = fieldNumber ∧ field.type = .lengthDelimited then some field.bytes else none)
    ⟨message, 0, true⟩

def hasField (message : Bytes) (fieldNumber : UInt32) : Bool :=
  (Reader.search (fun field ↦ if field.number = fieldNumber then some () else none)
    ⟨message, 0, true⟩).isSome

def frameLength (result : Bytes) (value : UInt64) : Bytes :=
  if value < 0x80 then result ++ [value.toUInt8]
  else frameLength (result ++ [((value &&& 0x7f) ||| 0x80).toUInt8]) (value >>> 7)
termination_by value.toNat
decreasing_by
  rename_i h
  have hv : ¬ value.toNat < 128 := by simpa [UInt64.lt_iff_toNat_lt] using h
  rw [shiftRight_seven]
  omega

def frame (payload : Bytes) : Bytes :=
  frameLength [] (UInt64.ofNat payload.length) ++ payload

def decodeVarintPrefixLoop (value : UInt64) (prefixLength shift : ℕ) :
    Bytes → Bool × UInt64 × ℕ
  | [] => (false, value, 0)
  | byte :: data =>
    if shift > 63 then (false, value, prefixLength)
    else
      let value := value ||| ((byte &&& 0x7f).toUInt64 <<< UInt64.ofNat shift)
      if byte &&& 0x80 = 0 then (true, value, prefixLength + 1)
      else decodeVarintPrefixLoop value (prefixLength + 1) (shift + 7) data

def decodeVarintPrefix (data : Bytes) : Bool × UInt64 × ℕ := decodeVarintPrefixLoop 0 0 0 data

theorem decodeVarintPrefixLoop_eq (k : ℕ) {seen : Bytes} (hk : seen.length + k = 10)
    (bs : Bytes) :
    (∀ p t, scan k bs = some (p, t) →
      decodeVarintPrefixLoop (UInt64.ofNat (denote seen)) seen.length (7 * seen.length) bs =
        (true, UInt64.ofNat (denote (seen ++ p)), seen.length + p.length)) ∧
    (scan k bs = none →
      (decodeVarintPrefixLoop (UInt64.ofNat (denote seen)) seen.length (7 * seen.length) bs).1 =
        false) := by
  induction k generalizing seen bs with
  | zero =>
    refine ⟨fun p t h ↦ by simp [scan] at h, fun _ ↦ ?_⟩
    cases bs with
    | nil => rfl
    | cons b bs => rw [decodeVarintPrefixLoop, if_pos (by omega)]
  | succ k ih =>
    cases bs with
    | nil => exact ⟨fun p t h ↦ by simp [scan] at h, fun _ ↦ rfl⟩
    | cons b bs =>
      have hacc := Reader.accumulate seen b (by omega)
      simp only [decodeVarintPrefixLoop, hacc, continues_iff]
      rw [if_neg (by omega), scan]
      by_cases hb : b.toNat < 128
      · rw [if_pos hb, if_pos hb]
        refine ⟨?_, fun h ↦ by cases h⟩
        intro p t h
        obtain ⟨rfl, rfl⟩ := Prod.mk.inj (Option.some.inj h)
        rfl
      · have hk' : (seen ++ [b]).length + k = 10 := by
          rw [List.length_append, List.length_singleton]
          omega
        have hih := ih hk' bs
        rw [List.length_append, List.length_singleton, Nat.mul_add] at hih
        rw [if_neg hb, if_neg hb]
        refine ⟨?_, fun h ↦ hih.2 (Option.map_eq_none_iff.mp h)⟩
        intro p t h
        obtain ⟨⟨p', t'⟩, hs, he⟩ := Option.map_eq_some_iff.mp h
        obtain ⟨rfl, rfl⟩ := Prod.mk.inj he
        rw [hih.1 p' t' hs, List.append_assoc, List.length_cons, Nat.add_assoc,
          Nat.add_comm 1]
        rfl

theorem decodeVarintPrefix_some {bs p t : Bytes} (h : scan 10 bs = some (p, t)) :
    decodeVarintPrefix bs = (true, UInt64.ofNat (denote p), p.length) := by
  have hd := (decodeVarintPrefixLoop_eq 10 (rfl : ([] : Bytes).length + 10 = 10) bs).1 p t h
  rw [List.nil_append, List.length_nil, Nat.zero_add] at hd
  exact hd

theorem decodeVarintPrefix_none {bs : Bytes} (h : scan 10 bs = none) :
    (decodeVarintPrefix bs).1 = false :=
  (decodeVarintPrefixLoop_eq 10 (rfl : ([] : Bytes).length + 10 = 10) bs).2 h

theorem frameLength_eq (result : Bytes) (v : UInt64) :
    frameLength result v = result ++ encode v.toNat := by
  induction result, v using frameLength.induct with
  | case1 result v h => rw [frameLength, if_pos h, last_group h]
  | case2 result v h ih =>
    have hv : ¬ v.toNat < 128 := by simpa [UInt64.lt_iff_toNat_lt] using h
    rw [frameLength, if_neg h, ih, shiftRight_seven, encode_large hv, next_group,
      List.append_assoc]
    rfl

theorem frame_eq (payload : Bytes) :
    frame payload = encode (payload.length % 2 ^ 64) ++ payload := by
  rw [frame, frameLength_eq, UInt64.toNat_ofNat', List.nil_append]

theorem frame_injective : Function.Injective frame := by
  intro p q h
  rw [frame_eq, frame_eq] at h
  exact (encode_append_inj h).2

end AndroidTvRemote.Wire
