import AndroidTvRemote.Certificate
import AndroidTvRemote.Separators

namespace AndroidTvRemote

open Wire Separators

structure DeviceIdentity where
  name : Bytes := []
  macAddress : Bytes := []
  deriving DecidableEq, Repr

namespace Crypto

/-- The accesses that C++ leaves undefined or answers with `std::out_of_range`. -/
inductive OutOfRange
  | substr
  | back
  | element
  deriving DecidableEq, Repr

/-- What OpenSSL finds for an identifier in a name: no entry, one that it cannot
give, one that has no UTF-8 form, or a text. -/
inductive NameEntry
  | absent
  | missing
  | notUtf8
  | utf8 (text : Bytes)
  deriving DecidableEq, Repr

inductive Nid
  | commonName
  | dnQualifier

abbrev SubjectName := Nid → NameEntry

def nameEntry (name : SubjectName) (nid : Nid) : Bytes :=
  match name nid with
  | .absent | .missing | .notUtf8 => []
  | .utf8 text => text

def slash : UInt8 := 0x2f

/-- `std::string::find`; `none` is `npos`. -/
def find (value : Bytes) (c : UInt8) (begin : ℕ) : Option ℕ :=
  ((value.drop begin).idxOf? c).map (begin + ·)

/-- `std::string::substr`; no count is all of the rest. -/
def substr (value : Bytes) (pos : ℕ) (count : Option ℕ := none) : Except OutOfRange Bytes :=
  if pos ≤ value.length then .ok ((value.drop pos).take (count.getD value.length))
  else .error .substr

theorem find_eq_none_iff {value : Bytes} {c : UInt8} {begin : ℕ} :
    find value c begin = none ↔ c ∉ value.drop begin := by
  rw [find, Option.map_eq_none_iff, List.idxOf?_eq_none_iff]

theorem find_eq_some {value : Bytes} {c : UInt8} {begin pos : ℕ}
    (h : find value c begin = some pos) :
    ∃ part, value.drop begin = part ++ c :: value.drop (pos + 1) ∧ c ∉ part ∧
      pos = begin + part.length := by
  obtain ⟨i, hi, rfl⟩ := Option.map_eq_some_iff.mp h
  have hmem : c ∈ value.drop begin := List.isSome_idxOf?.mp (by rw [hi]; rfl)
  obtain ⟨part, rest, hdrop, hfree⟩ := List.eq_append_cons_of_mem hmem
  rw [hdrop, idxOf_cut hfree rest] at hi
  obtain rfl := Option.some.inj hi
  have hrest : value.drop (begin + part.length + 1) = rest := by
    rw [Nat.add_assoc, ← List.drop_drop, hdrop]
    simp
  exact ⟨part, by rw [hrest, hdrop], hfree, rfl⟩

theorem find_lt {value : Bytes} {c : UInt8} {begin pos : ℕ} (h : find value c begin = some pos) :
    begin ≤ pos ∧ pos < value.length := by
  obtain ⟨part, hdrop, -, rfl⟩ := find_eq_some h
  have hlen := congrArg List.length hdrop
  rw [List.length_drop, List.length_append, List.length_cons] at hlen
  omega

def splitSlashLoop (value : Bytes) (begin : ℕ) (parts : List Bytes) :
    Except OutOfRange (List Bytes) :=
  match _ : find value slash begin with
  | none => do
    let part ← substr value begin
    return parts ++ [part]
  | some pos => do
    let part ← substr value begin (some (pos - begin))
    splitSlashLoop value (pos + 1) (parts ++ [part])
termination_by value.length - begin
decreasing_by
  have hpos := find_lt ‹_›
  omega

def splitSlash (value : Bytes) : Except OutOfRange (List Bytes) := splitSlashLoop value 0 []

def back (parts : List Bytes) : Except OutOfRange Bytes :=
  match parts.getLast? with
  | some part => .ok part
  | none => .error .back

/-- `std::vector::operator[]`. A `std::size_t` below zero wraps around to an
index far behind the end. -/
def element (parts : List Bytes) (i : ℤ) : Except OutOfRange Bytes :=
  match i with
  | .ofNat i =>
    match parts[i]? with
    | some part => .ok part
    | none => .error .element
  | .negSucc _ => .error .element

def deviceName (commonName qualifier : Bytes) (commonParts qualifierParts : List Bytes) :
    Except OutOfRange Bytes :=
  if !qualifier.isEmpty && !qualifierParts.isEmpty then back qualifierParts
  else if commonParts.length > 1 then element commonParts (commonParts.length - 2)
  else .ok commonName

def deviceMacAddress (commonParts : List Bytes) : Except OutOfRange Bytes :=
  if !commonParts.isEmpty then back commonParts else .ok []

def parseDeviceIdentity (certificate : Option SubjectName) : Except OutOfRange DeviceIdentity :=
  match certificate with
  | none => .ok {}
  | some subject => do
    let commonName := nameEntry subject .commonName
    let qualifier := nameEntry subject .dnQualifier
    let commonParts ← splitSlash commonName
    let qualifierParts ← splitSlash qualifier
    let name ← deviceName commonName qualifier commonParts qualifierParts
    let macAddress ← deviceMacAddress commonParts
    return { name, macAddress }

theorem substr_eq {value : Bytes} {begin : ℕ} (h : begin ≤ value.length) :
    substr value begin = .ok (value.drop begin) := by
  rw [substr, if_pos h, Option.getD_none, List.take_of_length_le]
  rw [List.length_drop]
  exact Nat.sub_le _ _

theorem substr_part {value part rest : Bytes} {begin : ℕ} (h : begin ≤ value.length)
    (hdrop : value.drop begin = part ++ rest) :
    substr value begin (some part.length) = .ok part := by
  rw [substr, if_pos h, Option.getD_some, hdrop, List.take_left]

theorem splitSlashLoop_eq {value : Bytes} {begin : ℕ} (parts : List Bytes)
    (h : begin ≤ value.length) :
    splitSlashLoop value begin parts = .ok (parts ++ (value.drop begin).splitOn slash) := by
  fun_induction splitSlashLoop value begin parts with
  | case1 begin parts hfind =>
    rw [substr_eq h, List.splitOn_eq_singleton (find_eq_none_iff.mp hfind)]
    rfl
  | case2 begin parts pos hfind ih =>
    obtain ⟨hle, hlt⟩ := find_lt hfind
    obtain ⟨part, hdrop, hfree, rfl⟩ := find_eq_some hfind
    rw [Nat.add_sub_cancel_left, substr_part h hdrop]
    refine (ih part hlt).trans ?_
    rw [hdrop, List.splitOn_append_cons_self_of_not_mem hfree, List.append_assoc,
      List.singleton_append]

theorem splitSlash_eq (value : Bytes) : splitSlash value = .ok (value.splitOn slash) :=
  splitSlashLoop_eq [] (Nat.zero_le value.length)

theorem back_append (front : List Bytes) (last : Bytes) : back (front ++ [last]) = .ok last := by
  rw [back, List.getLast?_concat]

theorem element_append (front : List Bytes) (part last : Bytes) :
    element (front ++ [part] ++ [last]) ((front ++ [part] ++ [last]).length - 2) = .ok part := by
  have hlen : (((front ++ [part] ++ [last]).length : ℕ) : ℤ) - 2 = Int.ofNat front.length := by
    simp only [List.length_append, List.length_singleton, Int.ofNat_eq_natCast]
    omega
  rw [hlen]
  simp [element]

structure Describes (commonName qualifier : Bytes) (identity : DeviceIdentity) : Prop where
  macAddress : LastPart slash commonName identity.macAddress
  qualified : qualifier ≠ [] → LastPart slash qualifier identity.name
  component : qualifier = [] → ∀ front last, commonName = front ++ slash :: last →
    slash ∉ last → LastPart slash front identity.name
  whole : qualifier = [] → slash ∉ commonName → identity.name = commonName

theorem Describes.unique {commonName qualifier : Bytes} {identity other : DeviceIdentity}
    (h : Describes commonName qualifier identity) (h' : Describes commonName qualifier other) :
    other = identity := by
  obtain ⟨name, macAddress⟩ := identity
  obtain ⟨name', macAddress'⟩ := other
  obtain rfl : macAddress' = macAddress := h'.macAddress.unique h.macAddress
  suffices hname : name' = name by rw [hname]
  by_cases hq : qualifier = []
  · by_cases hmem : slash ∈ commonName
    · obtain ⟨front, last, hcut, hfree⟩ := cut_last hmem
      exact (h'.component hq front last hcut hfree).unique (h.component hq front last hcut hfree)
    · exact (h'.whole hq hmem).trans (h.whole hq hmem).symm
  · exact (h'.qualified hq).unique (h.qualified hq)

theorem deviceMacAddress_eq (commonName : Bytes) :
    ∃ macAddress, deviceMacAddress (commonName.splitOn slash) = .ok macAddress ∧
      LastPart slash commonName macAddress := by
  obtain ⟨front, last, hsplit, hlast⟩ := splitOn_last slash commonName
  refine ⟨last, ?_, hlast⟩
  rw [deviceMacAddress, hsplit, back_append, if_pos (by simp)]

theorem deviceName_qualified {commonName qualifier : Bytes} (hq : qualifier ≠ []) :
    ∃ name, deviceName commonName qualifier (commonName.splitOn slash)
      (qualifier.splitOn slash) = .ok name ∧ LastPart slash qualifier name := by
  obtain ⟨front, last, hsplit, hlast⟩ := splitOn_last slash qualifier
  refine ⟨last, ?_, hlast⟩
  rw [deviceName, hsplit, back_append, if_pos (by simpa using hq)]

theorem deviceName_component (front : Bytes) {last : Bytes} (h : slash ∉ last) :
    ∃ name, deviceName (front ++ slash :: last) [] ((front ++ slash :: last).splitOn slash)
      (([] : Bytes).splitOn slash) = .ok name ∧ LastPart slash front name := by
  obtain ⟨before, part, hsplit, hpart⟩ := splitOn_last slash front
  refine ⟨part, ?_, hpart⟩
  rw [splitOn_append_last front h, hsplit, deviceName, if_neg (by simp), element_append,
    if_pos (by simp)]

theorem deviceName_whole {commonName : Bytes} (h : slash ∉ commonName) :
    deviceName commonName [] (commonName.splitOn slash) (([] : Bytes).splitOn slash) =
      .ok commonName := by
  rw [List.splitOn_eq_singleton h, deviceName, if_neg (by simp), if_neg (by simp)]

theorem deviceName_describes (commonName qualifier : Bytes) : ∃ name,
    deviceName commonName qualifier (commonName.splitOn slash) (qualifier.splitOn slash) =
      .ok name ∧
    ∀ macAddress, LastPart slash commonName macAddress →
      Describes commonName qualifier { name, macAddress } := by
  by_cases hq : qualifier = []
  · subst hq
    by_cases hmem : slash ∈ commonName
    · obtain ⟨front, last, rfl, hfree⟩ := cut_last hmem
      obtain ⟨name, hname, hpart⟩ := deviceName_component front hfree
      refine ⟨name, hname, fun macAddress hmac ↦ ⟨hmac, by simp, ?_, ?_⟩⟩
      · intro _ front' last' hcut hfree'
        obtain ⟨name', hname', hpart'⟩ := deviceName_component front' hfree'
        rw [← hcut, hname] at hname'
        rwa [Except.ok.inj hname']
      · intro _ hnone
        exact absurd hmem hnone
    · refine ⟨commonName, deviceName_whole hmem, fun macAddress hmac ↦ ⟨hmac, by simp, ?_, ?_⟩⟩
      · intro _ front last hcut _
        rw [hcut] at hmem
        simp at hmem
      · exact fun _ _ ↦ rfl
  · obtain ⟨name, hname, hlast⟩ := deviceName_qualified hq
    refine ⟨name, hname, fun macAddress hmac ↦ ⟨hmac, fun _ ↦ hlast, ?_, ?_⟩⟩
    · exact fun h ↦ absurd h hq
    · exact fun h ↦ absurd h hq

theorem parseDeviceIdentity_some (subject : SubjectName) :
    ∃ identity, parseDeviceIdentity (some subject) = .ok identity ∧
      Describes (nameEntry subject .commonName) (nameEntry subject .dnQualifier) identity := by
  obtain ⟨name, hname, hdescribes⟩ :=
    deviceName_describes (nameEntry subject .commonName) (nameEntry subject .dnQualifier)
  obtain ⟨macAddress, hmac, hlast⟩ := deviceMacAddress_eq (nameEntry subject .commonName)
  refine ⟨{ name, macAddress }, ?_, hdescribes macAddress hlast⟩
  simp only [parseDeviceIdentity, splitSlash_eq]
  rw [ok_bind, ok_bind, hname, ok_bind, hmac, ok_bind]
  rfl

/-- A string is cut at every slash, and the parts of the common name and of the
qualifier say who a device is. No access is out of range. -/
theorem device_identity_split :
    (∀ value, ∃ parts, splitSlash value = .ok parts ∧ parts.length = value.count slash + 1 ∧
      (∀ part ∈ parts, slash ∉ part) ∧ [slash].intercalate parts = value) ∧
    parseDeviceIdentity none = .ok {} ∧
    ∀ subject, ∃ identity, parseDeviceIdentity (some subject) = .ok identity ∧
      ∀ other, Describes (nameEntry subject .commonName) (nameEntry subject .dnQualifier) other ↔
        other = identity := by
  refine ⟨?_, rfl, ?_⟩
  · intro value
    refine ⟨value.splitOn slash, splitSlash_eq value, splitOn_length slash value, ?_, ?_⟩
    · intro part hpart
      exact not_mem_of_mem_splitOn hpart
    · exact List.intercalate_splitOn slash
  · intro subject
    obtain ⟨identity, hparse, hdescribes⟩ := parseDeviceIdentity_some subject
    refine ⟨identity, hparse, ?_⟩
    intro other
    constructor
    · exact hdescribes.unique
    · intro h
      rwa [h]

example : parseDeviceIdentity (some fun
    | .commonName => .utf8 [0x54, 0x56, 0x2f, 0x2f, 0x41]
    | .dnQualifier => .absent) = .ok { name := [], macAddress := [0x41] } := by decide +kernel

end Crypto

end AndroidTvRemote
