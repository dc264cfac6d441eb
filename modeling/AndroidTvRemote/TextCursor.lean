import AndroidTvRemote.Receivers
import AndroidTvRemote.VoiceChunks

namespace AndroidTvRemote

open Wire Runs Protocol

namespace Protocol

def utf8 (text : List Char) : Bytes := text.flatMap String.utf8EncodeChar

/-- The two offsets of the IME object inside a text message. -/
def textCursor (message : Bytes) : Option (Int32 × Int32) := do
  let batch ← findBytes message 21
  let editInfo ← findBytes batch 3
  let imeObject ← findBytes editInfo 2
  let start ← findVarint imeObject 1
  let stop ← findVarint imeObject 2
  return (asI32 (some start), asI32 (some stop))

/-- The offsets of a message are defined and are the index of the last
character. The difference of two `int` values is undefined if it overflows. -/
def CursorAtLast (text : List Char) (message : Bytes) : Prop :=
  Int32.ofNat (utf8 text).length ≠ Int32.minValue ∧ ∃ start stop,
    textCursor message = some (start, stop) ∧
      start.toInt = text.length - 1 ∧ stop.toInt = text.length - 1

theorem utf8_cons (c : Char) (text : List Char) :
    (utf8 (c :: text)).length = c.utf8Size + (utf8 text).length := by
  rw [utf8, List.flatMap_cons, List.length_append, String.length_utf8EncodeChar]
  rfl

theorem length_le_utf8 (text : List Char) : text.length ≤ (utf8 text).length := by
  induction text with
  | nil => exact Nat.zero_le _
  | cons c text ih =>
    have hc := c.utf8Size_pos
    rw [utf8_cons, List.length_cons]
    omega

theorem utf8_length_eq_iff (text : List Char) :
    (utf8 text).length = text.length ↔ ∀ c ∈ text, c.val ≤ 127 := by
  induction text with
  | nil => simp [utf8]
  | cons c text ih =>
    have hc := c.utf8Size_pos
    have hle := length_le_utf8 text
    rw [List.forall_mem_cons, ← ih, ← Char.utf8Size_eq_one_iff, utf8_cons, List.length_cons]
    omega

theorem remoteText_eq (text : Bytes) (c d : Int32) :
    remoteText text c d = encoded [.message ⟨21, by decide⟩ (Outgoing.text text c d).body] :=
  (Outgoing.text text c d).bytes_eq

/-- The size of a text fits into a pointer difference, so the size of its
message fits into a length. -/
theorem remoteText_length_lt {text : Bytes} (h : text.length < 2 ^ 63) (c d : Int32) :
    (remoteText text c d).length < 2 ^ 64 := by
  have hime : (encoded (Outgoing.imeObject text)).length ≤
      20 + 0 + (20 + 0 + (20 + text.length + 0)) := encoded_length_le _
  have hedit : (encoded (Outgoing.editInfo text)).length ≤
      20 + 0 + (20 + (encoded (Outgoing.imeObject text)).length + 0) := encoded_length_le _
  have hbatch : (encoded (Outgoing.text text c d).body).length ≤
      20 + 0 + (20 + 0 + (20 + (encoded (Outgoing.editInfo text)).length + 0)) :=
    encoded_length_le _
  have hall : (remoteText text c d).length ≤
      20 + (encoded (Outgoing.text text c d).body).length + 0 :=
    encoded_length_le [.message ⟨21, by decide⟩ (Outgoing.text text c d).body]
  omega

theorem textCursor_remoteText {text : Bytes} {c d : Int32}
    (h : (remoteText text c d).length < 2 ^ 64) :
    textCursor (remoteText text c d) =
      some (Int32.ofNat text.length - 1, Int32.ofNat text.length - 1) := by
  rw [remoteText_eq] at h ⊢
  have hbatch : (encoded (Outgoing.text text c d).body).length < 2 ^ 64 :=
    nested_length_lt h (List.mem_singleton.mpr rfl)
  have hedit : (encoded (Outgoing.editInfo text)).length < 2 ^ 64 :=
    nested_length_lt hbatch (n := ⟨3, by decide⟩) (by simp [Outgoing.body])
  have hime : (encoded (Outgoing.imeObject text)).length < 2 ^ 64 :=
    nested_length_lt hedit (n := ⟨2, by decide⟩) (by simp [Outgoing.editInfo])
  have h1 : findBytes (encoded [.message ⟨21, by decide⟩ (Outgoing.text text c d).body]) 21 =
      some (encoded (Outgoing.text text c d).body) := findBytes_encoded h 21
  have h2 : findBytes (encoded (Outgoing.text text c d).body) 3 =
      some (encoded (Outgoing.editInfo text)) := findBytes_encoded hbatch 3
  have h3 : findBytes (encoded (Outgoing.editInfo text)) 2 =
      some (encoded (Outgoing.imeObject text)) := findBytes_encoded hedit 2
  have h4 : findVarint (encoded (Outgoing.imeObject text)) 1 =
      some (zeroExtend (Int32.ofNat text.length - 1)) := findVarint_encoded hime 1
  have h5 : findVarint (encoded (Outgoing.imeObject text)) 2 =
      some (zeroExtend (Int32.ofNat text.length - 1)) := findVarint_encoded hime 2
  simp only [textCursor, h1, h2, h3, h4, h5, Option.bind_eq_bind, Option.bind_some,
    Outgoing.asI32_zeroExtend]
  rfl

theorem position_eq_last_iff {chars bytes : ℕ} (hpos : 0 < chars) (hle : chars ≤ bytes) :
    (Int32.ofNat bytes ≠ Int32.minValue ∧ (Int32.ofNat bytes - 1).toInt = chars - 1) ↔
      chars < 2 ^ 31 ∧ 2 ^ 32 ∣ bytes - chars := by
  have hmin : Int32.minValue.toInt = -2 ^ 31 := by decide
  have hone : (1 : Int32).toInt = 1 := by decide
  rw [ne_eq, ← Int32.toInt_inj, hmin, Int32.toInt_sub, Int32.toInt_ofNat', hone]
  simp only [Int.bmod_def, Int32.size]
  push_cast
  split_ifs <;> omega

theorem cursorAtLast_iff {text : List Char} (hne : text ≠ []) (hsize : (utf8 text).length < 2 ^ 63)
    (c d : Int32) : CursorAtLast text (remoteText (utf8 text) c d) ↔
      text.length < 2 ^ 31 ∧ 2 ^ 32 ∣ (utf8 text).length - text.length := by
  rw [← position_eq_last_iff (List.length_pos_iff.mpr hne) (length_le_utf8 text), CursorAtLast,
    textCursor_remoteText (remoteText_length_lt hsize c d)]
  refine and_congr_right fun _ ↦ ?_
  constructor
  · intro h'
    obtain ⟨start, stop, h, hstart, -⟩ := h'
    obtain ⟨rfl, rfl⟩ := Prod.mk.inj (Option.some.inj h)
    exact hstart
  · intro h
    exact ⟨_, _, rfl, h, h⟩

theorem dvd_utf8_iff {text : List Char} (h : (utf8 text).length < 2 ^ 32) :
    2 ^ 32 ∣ (utf8 text).length - text.length ↔ ∀ c ∈ text, c.val ≤ 127 := by
  have hle := length_le_utf8 text
  rw [← utf8_length_eq_iff]
  omega

end Protocol

namespace World

/-- The message of `sendText` counts bytes where the text field counts
characters, so its cursor is right for ASCII and for no other text of less
than 4 GiB. A `std::string` holds fewer than 2 ^ 63 bytes. -/
theorem text_cursor_last_iff {w : World} (hs : w.impl.stream.isSome = true) {text : List Char}
    (hne : text ≠ []) (hsize : (utf8 text).length < 2 ^ 63) :
    ∃ w' m, w.step (.sendText (utf8 text)) = some w' ∧
      w'.tagged Record.message = w.tagged Record.message ++ [(w.impl.generation, m)] ∧
      (CursorAtLast text m ↔
        text.length < 2 ^ 31 ∧ 2 ^ 32 ∣ (utf8 text).length - text.length) ∧
      ((utf8 text).length < 2 ^ 32 →
        (CursorAtLast text m ↔ text.length < 2 ^ 31 ∧ ∀ c ∈ text, c.val ≤ 127)) := by
  have hbytes : utf8 text ≠ [] := by
    have hle := length_le_utf8 text
    have hpos := List.length_pos_iff.mpr hne
    rw [← List.length_pos_iff]
    omega
  have hiff := cursorAtLast_iff hne hsize w.impl.imeCounter w.impl.imeFieldCounter
  refine ⟨w.sendText (utf8 text), _, if_neg hbytes, (queueMessage_queues _ hs).2, hiff, ?_⟩
  intro hsmall
  rw [hiff, dvd_utf8_iff hsmall]

theorem text_cursor_last_iff_ascii :
    let w := greetedWorld
    w.impl.stream.isSome = true ∧
      ∃ w' m, w.step (.sendText (utf8 ['h', 'i'])) = some w' ∧
        w'.tagged Record.message = w.tagged Record.message ++ [(w.impl.generation, m)] ∧
        CursorAtLast ['h', 'i'] m := by
  refine ⟨greeted_atBoundary.live, ?_⟩
  obtain ⟨w', m, hstep, ht, hiff, -⟩ := text_cursor_last_iff greeted_atBoundary.live
    (show ['h', 'i'] ≠ [] by decide) (by decide +kernel)
  exact ⟨w', m, hstep, ht, hiff.mpr (by decide +kernel)⟩

/-- One character of two bytes: the cursor stands behind the text. -/
theorem text_cursor_past_end :
    let w := greetedWorld
    ∃ w' m, w.step (.sendText (utf8 ['é'])) = some w' ∧
      w'.tagged Record.message = w.tagged Record.message ++ [(w.impl.generation, m)] ∧
      textCursor m = some (1, 1) ∧ ['é'].length = 1 ∧ ¬ CursorAtLast ['é'] m := by
  have hcursor : textCursor (remoteText (utf8 ['é']) 0 0) = some (1, 1) := by decide +kernel
  refine ⟨_, remoteText (utf8 ['é']) 0 0, rfl, by decide +kernel, hcursor, rfl, ?_⟩
  intro h'
  obtain ⟨-, start, stop, h, hstart, -⟩ := h'
  rw [hcursor] at h
  obtain ⟨rfl, rfl⟩ := Prod.mk.inj (Option.some.inj h)
  revert hstart
  decide

end World

end AndroidTvRemote
