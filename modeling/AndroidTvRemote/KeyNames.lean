import AndroidTvRemote.PairingCodes

namespace AndroidTvRemote

open Wire Crypto

def ascii (literal : String) : Bytes := literal.toList.map fun c ↦ UInt8.ofNat c.toNat

inductive KeyCode
  | unknown
  | home
  | back
  | digit0
  | digit1
  | digit2
  | digit3
  | digit4
  | digit5
  | digit6
  | digit7
  | digit8
  | digit9
  | dpadUp
  | dpadDown
  | dpadLeft
  | dpadRight
  | dpadCenter
  | volumeUp
  | volumeDown
  | power
  | enter
  | delete
  | search
  | mediaPlayPause
  | pageUp
  | pageDown
  | volumeMute
  | channelUp
  | channelDown
  deriving DecidableEq, Repr

def KeyCode.value : KeyCode → Int32
  | unknown => 0
  | home => 3
  | back => 4
  | digit0 => 7
  | digit1 => 8
  | digit2 => 9
  | digit3 => 10
  | digit4 => 11
  | digit5 => 12
  | digit6 => 13
  | digit7 => 14
  | digit8 => 15
  | digit9 => 16
  | dpadUp => 19
  | dpadDown => 20
  | dpadLeft => 21
  | dpadRight => 22
  | dpadCenter => 23
  | volumeUp => 24
  | volumeDown => 25
  | power => 26
  | enter => 66
  | delete => 67
  | search => 84
  | mediaPlayPause => 85
  | pageUp => 92
  | pageDown => 93
  | volumeMute => 164
  | channelUp => 166
  | channelDown => 167

namespace KeyCode

def keys : List KeyCode := [home, back, digit0, digit1, digit2, digit3, digit4, digit5, digit6,
  digit7, digit8, digit9, dpadUp, dpadDown, dpadLeft, dpadRight, dpadCenter, volumeUp,
  volumeDown, power, enter, delete, search, mediaPlayPause, pageUp, pageDown, volumeMute,
  channelUp, channelDown]

theorem mem_keys {k : KeyCode} : k ∈ keys ↔ k ≠ unknown := by
  cases k <;> decide

end KeyCode

/-- `std::toupper` in the "C" locale. -/
def toUpper (c : UInt8) : UInt8 := if 0x61 ≤ c ∧ c ≤ 0x7a then c - 0x20 else c

def keyPrefix : Bytes := ascii "KEYCODE_"

def upperKeyName (input : Bytes) : Bytes :=
  let value := input.map toUpper
  if keyPrefix <+: value then value.drop 8 else value

def codes : List (Bytes × Int32) := [
  (ascii "HOME", 3),
  (ascii "BACK", 4),
  (ascii "0", 7),
  (ascii "1", 8),
  (ascii "2", 9),
  (ascii "3", 10),
  (ascii "4", 11),
  (ascii "5", 12),
  (ascii "6", 13),
  (ascii "7", 14),
  (ascii "8", 15),
  (ascii "9", 16),
  (ascii "DPAD_UP", 19),
  (ascii "DPAD_DOWN", 20),
  (ascii "DPAD_LEFT", 21),
  (ascii "DPAD_RIGHT", 22),
  (ascii "DPAD_CENTER", 23),
  (ascii "VOLUME_UP", 24),
  (ascii "VOLUME_DOWN", 25),
  (ascii "POWER", 26),
  (ascii "ENTER", 66),
  (ascii "DEL", 67),
  (ascii "SEARCH", 84),
  (ascii "MEDIA_PLAY_PAUSE", 85),
  (ascii "PAGE_UP", 92),
  (ascii "PAGE_DOWN", 93),
  (ascii "MUTE", 91),
  (ascii "VOLUME_MUTE", 164),
  (ascii "CHANNEL_UP", 166),
  (ascii "CHANNEL_DOWN", 167)]

def keyCodeFromName (name : Bytes) : Option Int32 := codes.lookup (upperKeyName name)

theorem toUpper_toLower (c : UInt8) : toUpper (toLower c) = toUpper c := by
  revert c
  apply forall_byte
  decide +kernel

theorem toLower_toUpper (c : UInt8) : toLower (toUpper c) = toLower c := by
  revert c
  apply forall_byte
  decide +kernel

theorem map_toUpper_eq_iff {name name' : Bytes} :
    name.map toUpper = name'.map toUpper ↔ SameButCase name name' := by
  have hlower : ∀ l : Bytes, (l.map toUpper).map toLower = l.map toLower := by
    intro l
    rw [List.map_map]
    exact List.map_congr_left fun c _ ↦ toLower_toUpper c
  have hupper : ∀ l : Bytes, (l.map toLower).map toUpper = l.map toUpper := by
    intro l
    rw [List.map_map]
    exact List.map_congr_left fun c _ ↦ toUpper_toLower c
  constructor
  · intro h
    rw [SameButCase, ← hlower, h, hlower]
  · intro h
    rw [← hupper, h, hupper]

/-- No two entries of the table have a name or a code in common; the names are
in capitals and without the prefix. -/
theorem codes_wellFormed : ∀ e ∈ codes, codes.lookup e.1 = some e.2 ∧
    (∀ e' ∈ codes, e'.2 = e.2 → e' = e) ∧ e.1.map toUpper = e.1 ∧ ¬ keyPrefix <+: e.1 := by
  decide +kernel

theorem lookup_codes {key : Bytes} {code : Int32} :
    codes.lookup key = some code ↔ (key, code) ∈ codes := by
  constructor
  · intro h
    obtain ⟨front, back, hcodes, -⟩ := List.lookup_eq_some_iff.mp h
    rw [hcodes]
    simp
  · exact fun h ↦ (codes_wellFormed _ h).1

theorem keyCodeFromName_eq_some_iff {name : Bytes} {code : Int32} :
    keyCodeFromName name = some code ↔ ∃ key, (key, code) ∈ codes ∧
      (SameButCase name key ∨ SameButCase name (keyPrefix ++ key)) := by
  have hprefix : keyPrefix.map toUpper = keyPrefix := by decide +kernel
  rw [keyCodeFromName, lookup_codes, upperKeyName]
  constructor
  · intro h
    split_ifs at h with hp
    · obtain ⟨key, hkey⟩ := hp
      rw [← hkey, show 8 = keyPrefix.length from rfl, List.drop_left] at h
      refine ⟨key, h, .inr (map_toUpper_eq_iff.mp ?_)⟩
      rw [List.map_append, hprefix, (codes_wellFormed _ h).2.2.1, hkey]
    · exact ⟨_, h, .inl (map_toUpper_eq_iff.mp (codes_wellFormed _ h).2.2.1.symm)⟩
  · rintro ⟨key, hmem, hname | hname⟩
    · obtain ⟨-, -, hupper, hno⟩ := codes_wellFormed _ hmem
      have hkey : name.map toUpper = key := (map_toUpper_eq_iff.mpr hname).trans hupper
      simp only [hkey, if_neg hno]
      exact hmem
    · obtain ⟨-, -, hupper, -⟩ := codes_wellFormed _ hmem
      have hkey : name.map toUpper = keyPrefix ++ key := by
        rw [map_toUpper_eq_iff.mpr hname, List.map_append, hprefix, hupper]
      simp only [hkey, List.prefix_append, if_true]
      rw [show 8 = keyPrefix.length from rfl, List.drop_left]
      exact hmem

theorem names_of_code {name name' : Bytes} {code : Int32} (h : keyCodeFromName name = some code)
    (h' : keyCodeFromName name' = some code) : ∃ key, (key, code) ∈ codes ∧
      (SameButCase name key ∨ SameButCase name (keyPrefix ++ key)) ∧
      (SameButCase name' key ∨ SameButCase name' (keyPrefix ++ key)) := by
  obtain ⟨key, hmem, hname⟩ := keyCodeFromName_eq_some_iff.mp h
  obtain ⟨key', hmem', hname'⟩ := keyCodeFromName_eq_some_iff.mp h'
  obtain ⟨-, hunique, -⟩ := codes_wellFormed _ hmem
  obtain rfl : key' = key := congrArg Prod.fst (hunique _ hmem' rfl)
  exact ⟨key', hmem, hname, hname'⟩

theorem named_codes (code : Int32) : (∃ name, keyCodeFromName name = some code) ↔
    code = 91 ∨ ∃ k : KeyCode, k ≠ .unknown ∧ k.value = code := by
  have htable : ∀ e ∈ codes, e.2 = 91 ∨ ∃ k ∈ KeyCode.keys, k.value = e.2 := by decide +kernel
  have hkeys : ∀ k ∈ KeyCode.keys, ∃ e ∈ codes, e.2 = k.value := by decide +kernel
  simp only [← KeyCode.mem_keys]
  constructor
  · rintro ⟨name, h⟩
    obtain ⟨key, hmem, -⟩ := keyCodeFromName_eq_some_iff.mp h
    exact htable _ hmem
  · rintro (rfl | ⟨k, hk, rfl⟩)
    · exact ⟨ascii "MUTE", by decide +kernel⟩
    · obtain ⟨e, he, hcode⟩ := hkeys k hk
      exact ⟨e.1, keyCodeFromName_eq_some_iff.mpr ⟨e.1, hcode ▸ he, .inl rfl⟩⟩

/-- A name of a key may be written in capitals or not, and behind `KEYCODE_` or
not, and in no other way; names that are no variants of one another mean
different keys; and the keys that can be named are those of `KeyCode`, and
`MUTE`, which is none of them. -/
theorem key_names :
    (∀ name code, keyCodeFromName name = some code ↔ ∃ key, (key, code) ∈ codes ∧
      (SameButCase name key ∨ SameButCase name (keyPrefix ++ key))) ∧
    (∀ name name' code, keyCodeFromName name = some code → keyCodeFromName name' = some code →
      ∃ key, (key, code) ∈ codes ∧
        (SameButCase name key ∨ SameButCase name (keyPrefix ++ key)) ∧
        (SameButCase name' key ∨ SameButCase name' (keyPrefix ++ key))) ∧
    (∀ code, (∃ name, keyCodeFromName name = some code) ↔
      code = 91 ∨ ∃ k : KeyCode, k ≠ .unknown ∧ k.value = code) ∧
    ∀ k : KeyCode, k.value ≠ 91 := by
  refine ⟨fun _ _ ↦ keyCodeFromName_eq_some_iff, fun _ _ _ ↦ names_of_code, named_codes, ?_⟩
  intro k
  cases k <;> decide

example : keyCodeFromName (ascii "keycode_Home") = some 3 ∧
    keyCodeFromName (ascii "KEYCODE_KEYCODE_HOME") = none := by decide +kernel

end AndroidTvRemote
