import AndroidTvRemote.ReaderGrammar

namespace AndroidTvRemote.Wire

open Base128

theorem key_encode {n : UInt32} (hn : n ≠ 0) (t : WireType) :
    Key (encode (8 * n.toNat + t.code.toNat)) n t := by
  have hlt := n.toNat_lt
  have ht : t.code.toNat < 8 := by cases t <;> decide
  refine ⟨⟨groups_encode _, encode_length_le 9 (by omega)⟩, ?_, hn, ?_⟩
  · rw [denote_encode]
    omega
  · rw [denote_encode]
    omega

theorem spells_varintField {n : UInt32} (hn : n ≠ 0) (v : UInt64) :
    Spells (Writer.varintField {} n v).data { number := n, type := .varint, varint := v } := by
  have hv : UInt64.ofNat (denote (encode v.toNat)) = v := by
    rw [denote_encode, UInt64.ofNat_toNat]
  have hval := Value.varint (n := n) ⟨groups_encode v.toNat, encode_length_le_ten v⟩
  rw [hv] at hval
  rw [Writer.varintField_data, List.nil_append]
  exact .mk (key_encode hn .varint) hval

theorem spells_bytesField {n : UInt32} (hn : n ≠ 0) {b : Bytes} (hb : b.length < 2 ^ 64) :
    Spells (Writer.bytesField {} n b).data
      { number := n, type := .lengthDelimited, bytes := b } := by
  have hlen : Varint (encode b.length) := ⟨groups_encode _, encode_length_le 9 (by omega)⟩
  rw [Writer.bytesField_data, List.nil_append, Nat.mod_eq_of_lt hb, List.append_assoc]
  refine .mk (key_encode hn .lengthDelimited) (.lengthDelimited hlen ?_)
  rw [denote_encode, Nat.mod_eq_of_lt hb]

abbrev FieldNumber := { n : UInt32 // n ≠ 0 }

/-- One call of a field function of `Writer`; a nested message is given by
the calls that build it. -/
inductive Item
  | varint (number : FieldNumber) (value : UInt64)
  | bytes (number : FieldNumber) (value : Bytes)
  | string (number : FieldNumber) (value : Bytes)
  | message (number : FieldNumber) (nested : List Item)

mutual

def Item.write (w : Writer) : Item → Writer
  | .varint n v => w.varintField n.1 v
  | .bytes n b => w.bytesField n.1 b
  | .string n s => w.stringField n.1 s
  | .message n items => w.messageField n.1 (writeAll {} items)

def writeAll (w : Writer) : List Item → Writer
  | [] => w
  | item :: items => writeAll (item.write w) items

end

def encoded (items : List Item) : Bytes := (writeAll {} items).data

/-- The field a reader has to return for a call of the writer. -/
def Item.field : Item → Field
  | .varint n v => { number := n.1, type := .varint, varint := v }
  | .bytes n b => { number := n.1, type := .lengthDelimited, bytes := b }
  | .string n s => { number := n.1, type := .lengthDelimited, bytes := s }
  | .message n items => { number := n.1, type := .lengthDelimited, bytes := encoded items }

theorem Item.write_data (w : Writer) (i : Item) :
    (i.write w).data = w.data ++ (i.write {}).data := by
  cases i <;> simp [Item.write, Writer.stringField, Writer.messageField,
    Writer.varintField_data, Writer.bytesField_data]

theorem writeAll_data (w : Writer) (items : List Item) :
    (writeAll w items).data = w.data ++ encoded items := by
  induction items generalizing w with
  | nil => simp [writeAll, encoded]
  | cons i items ih =>
    rw [encoded, writeAll, writeAll, ih, ih (i.write {}), Item.write_data, List.append_assoc]

theorem encoded_nil : encoded [] = [] := by simp [encoded, writeAll]

theorem encoded_cons (i : Item) (items : List Item) :
    encoded (i :: items) = (i.write {}).data ++ encoded items := by
  rw [encoded, writeAll, writeAll_data]

theorem Item.bytes_length_le (i : Item) : i.field.bytes.length ≤ (i.write {}).data.length := by
  cases i <;> simp only [Item.write, Item.field, Writer.stringField, Writer.messageField,
    Writer.bytesField_data, encoded, List.length_append, List.length_nil] <;> omega

theorem Item.bytes_length_le_encoded {i : Item} {items : List Item} (h : i ∈ items) :
    i.field.bytes.length ≤ (encoded items).length := by
  induction items with
  | nil => cases h
  | cons j items ih =>
    rw [encoded_cons, List.length_append]
    rcases List.mem_cons.mp h with rfl | h
    · exact i.bytes_length_le.trans (Nat.le_add_right _ _)
    · exact (ih h).trans (Nat.le_add_left _ _)

theorem Item.spells {i : Item} (h : i.field.bytes.length < 2 ^ 64) :
    Spells (i.write {}).data i.field := by
  cases i with
  | varint n v => exact spells_varintField n.2 v
  | bytes n b => exact spells_bytesField n.2 h
  | string n s => exact spells_bytesField n.2 h
  | message n items => exact spells_bytesField n.2 h

theorem decomposes_encoded (items : List Item) (h : (encoded items).length < 2 ^ 64) :
    Decomposes (encoded items) (items.map fun i ↦ ((i.write {}).data, i.field)) := by
  induction items with
  | nil =>
    rw [encoded_nil]
    exact .nil
  | cons i items ih =>
    have hb := i.bytes_length_le
    rw [encoded_cons, List.length_append] at h
    rw [encoded_cons]
    exact .cons (Item.spells (by omega)) (ih (by omega))

theorem fields_encoded (items : List Item) (h : (encoded items).length < 2 ^ 64) :
    Reader.fields ⟨encoded items, 0, true⟩ =
      (items.map Item.field, ⟨encoded items, (encoded items).length, true⟩) := by
  have hread := Reader.fields_of_decomposes (r := ⟨encoded items, 0, true⟩) rfl (Nat.zero_le _)
    (decomposes_encoded items h)
  rw [hread, List.map_map]
  rfl

/-- A byte string reads as a list of writer calls: the reader returns the
fields of the list, is still ok and has consumed everything, and the body of
every nested message reads as the calls that built it. -/
inductive ReadsAs : Bytes → List Item → Prop
  | mk {m : Bytes} {items : List Item}
      (top : Reader.fields ⟨m, 0, true⟩ = (items.map Item.field, ⟨m, m.length, true⟩))
      (nested : ∀ n inner, Item.message n inner ∈ items → ReadsAs (encoded inner) inner) :
      ReadsAs m items

theorem readsAs_encoded (items : List Item) (h : (encoded items).length < 2 ^ 64) :
    ReadsAs (encoded items) items := by
  refine .mk (fields_encoded items h) ?_
  intro n inner hmem
  have hle := Item.bytes_length_le_encoded hmem
  exact readsAs_encoded inner (Nat.lt_of_le_of_lt hle h)
termination_by sizeOf items
decreasing_by
  have hlt := List.sizeOf_lt_of_mem hmem
  simp only [Item.message.sizeOf_spec] at hlt
  omega

theorem findSome_first {α : Type} (p : Field → Prop) [DecidablePred p] (g : Field → α)
    (fs : List Field) :
    fs.findSome? (fun f ↦ if p f then some (g f) else none) =
      (fs.find? fun f ↦ decide (p f)).map g := by
  induction fs with
  | nil => rfl
  | cons f fs ih =>
    by_cases h : p f <;> simp [h, ih]

theorem findVarint_eq (m : Bytes) (n : UInt32) :
    findVarint m n = ((Reader.fields ⟨m, 0, true⟩).1.find? fun f ↦
      decide (f.number = n ∧ f.type = .varint)).map Field.varint := by
  rw [findVarint, Reader.search_eq_findSome, findSome_first]

theorem findBytes_eq (m : Bytes) (n : UInt32) :
    findBytes m n = ((Reader.fields ⟨m, 0, true⟩).1.find? fun f ↦
      decide (f.number = n ∧ f.type = .lengthDelimited)).map Field.bytes := by
  rw [findBytes, Reader.search_eq_findSome, findSome_first]

theorem hasField_eq (m : Bytes) (n : UInt32) :
    hasField m n = (Reader.fields ⟨m, 0, true⟩).1.any fun f ↦ decide (f.number = n) := by
  rw [hasField, Reader.search_eq_findSome, findSome_first, Option.isSome_map,
    List.isSome_find?]

/-- What a writer wrote is what a reader reads, to any depth, and the three
searches return the first matching field written. A `std::vector` holds fewer
than `2 ^ 64` bytes. -/
theorem write_read_round_trip (items : List Item) (h : (encoded items).length < 2 ^ 64) :
    ReadsAs (encoded items) items ∧
    (∀ n, findVarint (encoded items) n =
      ((items.map Item.field).find? fun f ↦
        decide (f.number = n ∧ f.type = .varint)).map Field.varint) ∧
    (∀ n, findBytes (encoded items) n =
      ((items.map Item.field).find? fun f ↦
        decide (f.number = n ∧ f.type = .lengthDelimited)).map Field.bytes) ∧
    (∀ n, hasField (encoded items) n =
      (items.map Item.field).any fun f ↦ decide (f.number = n)) := by
  have hread := readsAs_encoded items h
  have htop : Reader.fields ⟨encoded items, 0, true⟩ =
      (items.map Item.field, ⟨encoded items, (encoded items).length, true⟩) := by
    cases hread with
    | mk top _ => exact top
  refine ⟨hread, ?_, ?_, ?_⟩
  · intro n
    rw [findVarint_eq, htop]
  · intro n
    rw [findBytes_eq, htop]
  · intro n
    rw [hasField_eq, htop]

theorem write_read_round_trip_nested :
    ReadsAs (encoded [.varint ⟨1, by decide⟩ 300, .message ⟨2, by decide⟩
      [.string ⟨1, by decide⟩ [104, 105]]])
      [.varint ⟨1, by decide⟩ 300, .message ⟨2, by decide⟩ [.string ⟨1, by decide⟩ [104, 105]]] :=
  (write_read_round_trip _ (by decide +kernel)).1

end AndroidTvRemote.Wire
