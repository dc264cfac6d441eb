import AndroidTvRemote.ReaderGrammar
import Mathlib.Data.Nat.Size

namespace AndroidTvRemote.Base128

theorem size_div (n : ℕ) : (n / 128).size = n.size - 7 := by
  apply eq_of_forall_ge_iff
  intro k
  rw [Nat.size_le, Nat.sub_le_iff_le_add, Nat.size_le, Nat.div_lt_iff_lt_mul (by decide), pow_add]
  rfl

theorem encode_length (n : ℕ) : (encode n).length = max 1 ((n.size + 6) / 7) := by
  induction n using encode.induct with
  | case1 n h =>
    have hs : n.size ≤ 7 := Nat.size_le.mpr h
    rw [encode_small h, List.length_singleton]
    omega
  | case2 n h ih =>
    have hs : 7 < n.size := Nat.lt_size.mpr (Nat.le_of_not_lt h)
    rw [encode_large h, List.length_cons, ih, size_div]
    omega

theorem Groups.split {p : List UInt8} (h : Groups p) : ∃ front last, p = front ++ [last] ∧
    (∀ b ∈ front, ¬ b.toNat < 128) ∧ last.toNat < 128 := by
  induction h with
  | @last b h => exact ⟨[], b, rfl, by simp, h⟩
  | @more b p h hp ih =>
    obtain ⟨front, last, rfl, hfront, hlast⟩ := ih
    exact ⟨b :: front, last, rfl, List.forall_mem_cons.mpr ⟨h, hfront⟩, hlast⟩

/-- A group string ends with its last group, so no shorter string is one. -/
theorem Groups.scan_proper {p q : List UInt8} (hp : Groups p) (hq : q <+: p) (hne : q ≠ p)
    (k : ℕ) : scan k q = none := by
  rw [Option.eq_none_iff_forall_ne_some]
  rintro ⟨s, t⟩ hs
  obtain ⟨rfl, hgs, -⟩ := scan_eq_some_iff.mp hs
  obtain ⟨u, rfl⟩ := hq
  have hall : scan (s ++ t ++ u).length (s ++ t ++ u) = some (s ++ t ++ u, []) := by
    have h := scan_groups [] hp le_rfl
    rwa [List.append_nil] at h
  have hcut : scan (s ++ t ++ u).length (s ++ t ++ u) = some (s, t ++ u) := by
    rw [List.append_assoc]
    exact scan_groups (t ++ u) hgs (by simp)
  rw [hall] at hcut
  have hnil := (Prod.mk.inj (Option.some.inj hcut)).2
  rw [eq_comm, List.append_eq_nil_iff] at hnil
  obtain ⟨rfl, rfl⟩ := hnil
  simp at hne

end AndroidTvRemote.Base128

namespace AndroidTvRemote.Wire

open Base128

namespace Checked

/-- The loop of `decodeVarintPrefix` with its shift guarded. -/
def decodeVarintPrefixLoop (value : UInt64) (prefixLength shift : ℕ) :
    Bytes → Except Fault (Bool × UInt64 × ℕ)
  | [] => return (false, value, 0)
  | byte :: data =>
    if shift > 63 then return (false, value, prefixLength)
    else do
      let group ← shiftLeft (byte &&& 0x7f).toUInt64 shift
      if byte &&& 0x80 = 0 then return (true, value ||| group, prefixLength + 1)
      else decodeVarintPrefixLoop (value ||| group) (prefixLength + 1) (shift + 7) data

def decodeVarintPrefix (data : Bytes) : Except Fault (Bool × UInt64 × ℕ) :=
  decodeVarintPrefixLoop 0 0 0 data

theorem decodeVarintPrefixLoop_eq (value : UInt64) (prefixLength shift : ℕ) (bs : Bytes) :
    decodeVarintPrefixLoop value prefixLength shift bs =
      .ok (Wire.decodeVarintPrefixLoop value prefixLength shift bs) := by
  induction bs generalizing value prefixLength shift with
  | nil => rfl
  | cons byte bs ih =>
    rw [decodeVarintPrefixLoop, Wire.decodeVarintPrefixLoop]
    by_cases hs : shift > 63
    · rw [if_pos hs, if_pos hs]
      rfl
    · rw [if_neg hs, if_neg hs, shiftLeft, if_pos (by omega)]
      simp only [bind, Except.bind]
      split
      · rfl
      · exact ih _ _ _

theorem decodeVarintPrefix_ok (bs : Bytes) :
    decodeVarintPrefix bs = .ok (Wire.decodeVarintPrefix bs) :=
  decodeVarintPrefixLoop_eq 0 0 0 bs

end Checked

theorem readVarint_of_scan {r : Reader} {p t : Bytes} (h : scan 10 r.rest = some (p, t)) :
    r.readVarint =
      (some (UInt64.ofNat (denote p)), { r with offset := r.offset + p.length }) := by
  rw [Reader.readVarint_eq, Reader.varintOutcome, h]
  rfl

theorem readVarint_of_scan_none {r : Reader} (h : scan 10 r.rest = none) :
    r.readVarint.1 = none := by
  rw [Reader.readVarint_eq, Reader.varintOutcome, h]

theorem decoders_agree (r : Reader) :
    (r.readVarint.1 = none ∧ (decodeVarintPrefix r.rest).1 = false) ∨
    ∃ v n, r.readVarint = (some v, { r with offset := r.offset + n }) ∧
      decodeVarintPrefix r.rest = (true, v, n) := by
  cases hs : scan 10 r.rest with
  | none => exact .inl ⟨readVarint_of_scan_none hs, decodeVarintPrefix_none hs⟩
  | some p => exact .inr ⟨_, _, readVarint_of_scan hs, decodeVarintPrefix_some hs⟩

theorem encode_bits (n : ℕ) : ∃ front last, encode n = front ++ [last] ∧
    (∀ b ∈ front, b &&& 0x80 ≠ 0) ∧ last &&& 0x80 = 0 := by
  obtain ⟨front, last, he, hfront, hlast⟩ := (groups_encode n).split
  refine ⟨front, last, he, ?_, (continues_iff last).mpr hlast⟩
  intro b hb h
  exact hfront b hb ((continues_iff b).mp h)

/-- Both encoders write one string for a number, the shortest one, both
decoders read it back from in front of anything, and they agree on every byte
string. No shift of theirs reaches the width of the register. -/
theorem varint_canonical_form :
    (∀ v : UInt64, ∃ e : Bytes,
      (∀ w : Writer, (w.varint v).data = w.data ++ e) ∧
      frameLength [] v = e ∧
      (∀ payload : Bytes, payload.length = v.toNat → frame payload = e ++ payload) ∧
      e.length = max 1 ((v.toNat.size + 6) / 7) ∧ e.length ≤ 10 ∧
      (∃ front last, e = front ++ [last] ∧ (∀ b ∈ front, b &&& 0x80 ≠ 0) ∧ last &&& 0x80 = 0) ∧
      (∀ (r : Reader) (t : Bytes), r.rest = e ++ t →
        r.readVarint = (some v, { r with offset := r.offset + e.length })) ∧
      (∀ t : Bytes, decodeVarintPrefix (e ++ t) = (true, v, e.length)) ∧
      (∀ q : Bytes, q <+: e → q ≠ e →
        (∀ r : Reader, r.rest = q → r.readVarint.1 = none) ∧ (decodeVarintPrefix q).1 = false)) ∧
    (∀ r : Reader, (r.readVarint.1 = none ∧ (decodeVarintPrefix r.rest).1 = false) ∨
      ∃ v n, r.readVarint = (some v, { r with offset := r.offset + n }) ∧
        decodeVarintPrefix r.rest = (true, v, n)) ∧
    (∀ r : Reader, Checked.readVarint r = .ok r.readVarint) ∧
    (∀ bs : Bytes, Checked.decodeVarintPrefix bs = .ok (decodeVarintPrefix bs)) := by
  refine ⟨fun v ↦ ?_, decoders_agree, Checked.readVarint_ok, Checked.decodeVarintPrefix_ok⟩
  have hv : UInt64.ofNat (denote (encode v.toNat)) = v := by
    rw [denote_encode, UInt64.ofNat_toNat]
  have hten := encode_length_le_ten v
  refine ⟨encode v.toNat, fun w ↦ w.varint_data v, by rw [frameLength_eq, List.nil_append], ?_,
    encode_length _, hten, encode_bits _, ?_, ?_, ?_⟩
  · intro payload hp
    rw [frame_eq, hp, Nat.mod_eq_of_lt v.toNat_lt]
  · intro r t hr
    have hs := scan_encode t hten
    rw [← hr] at hs
    rw [readVarint_of_scan hs, hv]
  · intro t
    rw [decodeVarintPrefix_some (scan_encode t hten), hv]
  · intro q hq hne
    have hs := (groups_encode v.toNat).scan_proper hq hne 10
    refine ⟨?_, decodeVarintPrefix_none hs⟩
    rintro r rfl
    exact readVarint_of_scan_none hs

end AndroidTvRemote.Wire
