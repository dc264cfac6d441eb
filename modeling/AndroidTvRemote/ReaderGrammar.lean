import AndroidTvRemote.Wire

namespace AndroidTvRemote.Wire

open Base128

/-- A varint of the format, minimal or not. -/
structure Varint (p : Bytes) : Prop where
  groups : Groups p
  length_le : p.length ≤ 10

/-- The key of a field. Bits above the 64th are lost, and so are those of the
number above the 32nd. -/
structure Key (p : Bytes) (number : UInt32) (type : WireType) : Prop where
  varint : Varint p
  number_eq : denote p % 2 ^ 64 / 8 % 2 ^ 32 = number.toNat
  number_ne : number ≠ 0
  type_eq : denote p % 2 ^ 64 % 8 = type.code.toNat

/-- What stands behind the key of a field, for each wire type. -/
inductive Value (n : UInt32) : WireType → Bytes → Field → Prop
  | varint {p : Bytes} (h : Varint p) :
      Value n .varint p { number := n, type := .varint, varint := UInt64.ofNat (denote p) }
  | fixed64 {b : Bytes} (h : b.length = 8) :
      Value n .fixed64 b { number := n, type := .fixed64, bytes := b }
  | lengthDelimited {p b : Bytes} (h : Varint p) (hb : b.length = denote p % 2 ^ 64) :
      Value n .lengthDelimited (p ++ b) { number := n, type := .lengthDelimited, bytes := b }
  | fixed32 {b : Bytes} (h : b.length = 4) :
      Value n .fixed32 b { number := n, type := .fixed32, bytes := b }

inductive Spells : Bytes → Field → Prop
  | mk {k v : Bytes} {n : UInt32} {t : WireType} {f : Field} (key : Key k n t)
      (value : Value n t v f) : Spells (k ++ v) f

/-- A byte string cut into the pieces of its fields. -/
structure Decomposes (m : Bytes) (pieces : List (Bytes × Field)) : Prop where
  spells : ∀ p ∈ pieces, Spells p.1 p.2
  join : m = (pieces.map Prod.fst).flatten

theorem Varint.length_pos {p : Bytes} (h : Varint p) : 0 < p.length :=
  List.length_pos_iff.mpr h.groups.ne_nil

theorem Value.length_pos {n : UInt32} {t : WireType} {v : Bytes} {f : Field}
    (h : Value n t v f) : 0 < v.length := by
  cases h with
  | varint h => exact h.length_pos
  | fixed64 h => omega
  | lengthDelimited h hb =>
    have hp := h.length_pos
    rw [List.length_append]
    omega
  | fixed32 h => omega

theorem Spells.two_le_length {p : Bytes} {f : Field} (h : Spells p f) : 2 ≤ p.length := by
  cases h with
  | mk key value =>
    have hk := key.varint.length_pos
    have hv := value.length_pos
    rw [List.length_append]
    omega

namespace WireType

theorem ofCode_eq_some {c : UInt64} {t : WireType} : ofCode c = some t ↔ c = t.code := by
  constructor
  · intro h
    unfold ofCode at h
    repeat' split at h
    all_goals first | (cases h; assumption) | cases h
  · rintro rfl
    exact ofCode_code t

end WireType

namespace Reader

variable {r r' : Reader} {f : Field}

theorem readVarint_eq_some_iff {v : UInt64} :
    r.readVarint = (some v, r') ↔ ∃ p t, r.rest = p ++ t ∧ Varint p ∧
      v = UInt64.ofNat (denote p) ∧ r' = { r with offset := r.offset + p.length } := by
  rw [readVarint_eq, varintOutcome]
  constructor
  · intro h
    split at h
    next p t hs =>
      obtain ⟨hr, hg, hl⟩ := scan_eq_some_iff.mp hs
      obtain ⟨hv, hr'⟩ := Prod.mk.inj h
      exact ⟨p, t, hr, ⟨hg, hl⟩, (Option.some.inj hv).symm, hr'.symm⟩
    next => cases (Prod.mk.inj h).1
  · intro h'
    obtain ⟨p, t, hr, ⟨hg, hl⟩, rfl, rfl⟩ := h'
    rw [scan_eq_some_iff.mpr ⟨hr, hg, hl⟩]
    rfl

theorem readVarint_none (h : r.readVarint = (none, r')) :
    r'.bytes = r.bytes ∧ r'.ok = false ∧ r.offset ≤ r'.offset ∧
      r'.offset ≤ max r.offset r.bytes.length := by
  rw [readVarint_eq, varintOutcome] at h
  split at h
  · cases (Prod.mk.inj h).1
  · obtain ⟨-, rfl⟩ := Prod.mk.inj h
    have hl := r.rest_length
    refine ⟨rfl, rfl, Nat.le_add_right _ _, ?_⟩
    simp only
    omega

theorem readFixed_eq_some_iff {n : UInt32} {t : WireType} {size : ℕ} :
    r.readFixed n t size = (some f, r') ↔ ∃ b s, r.rest = b ++ s ∧ b.length = size ∧
      f = { number := n, type := t, bytes := b } ∧
      r' = { r with offset := r.offset + b.length } := by
  have hl := r.rest_length
  rw [readFixed]
  constructor
  · intro h
    split at h
    · cases (Prod.mk.inj h).1
    next hs =>
      obtain ⟨hf, rfl⟩ := Prod.mk.inj h
      have hb : (r.rest.take size).length = size := by
        rw [List.length_take]
        omega
      exact ⟨r.rest.take size, r.rest.drop size, (List.take_append_drop _ _).symm, hb,
        (Option.some.inj hf).symm, by rw [hb]⟩
  · intro h'
    obtain ⟨b, s, hr, rfl, rfl, rfl⟩ := h'
    rw [hr, List.length_append] at hl
    rw [if_neg (by omega), hr, List.take_left]

theorem readBytes_eq_some_iff {n : UInt32} {p t : Bytes} (hr : r.rest = p ++ t)
    (hp : Varint p) :
    r.readValue n (some .lengthDelimited) = (some f, r') ↔ ∃ b s, t = b ++ s ∧
      b.length = denote p % 2 ^ 64 ∧
      f = { number := n, type := .lengthDelimited, bytes := b } ∧
      r' = { r with offset := r.offset + (p ++ b).length } := by
  have hread := readVarint_eq_some_iff.mpr ⟨p, t, hr, hp, rfl, rfl⟩
  have hrest := rest_advance hr
  have hl := congrArg List.length hrest
  rw [rest_length] at hl
  simp only [readValue, hread, UInt64.toNat_ofNat'] at hl ⊢
  rw [hrest]
  constructor
  · intro h
    split at h
    · cases (Prod.mk.inj h).1
    next hs =>
      obtain ⟨hf, rfl⟩ := Prod.mk.inj h
      have hb : (t.take (denote p % 2 ^ 64)).length = denote p % 2 ^ 64 := by
        rw [List.length_take]
        omega
      exact ⟨t.take (denote p % 2 ^ 64), t.drop (denote p % 2 ^ 64),
        (List.take_append_drop _ _).symm, hb, (Option.some.inj hf).symm,
        by rw [List.length_append, hb, Nat.add_assoc]⟩
  · intro h'
    obtain ⟨b, s, rfl, hb, rfl, rfl⟩ := h'
    rw [List.length_append] at hl
    rw [if_neg (by omega), ← hb, List.take_left, List.length_append, Nat.add_assoc]

theorem readValue_eq_some_iff {n : UInt32} {t : WireType} :
    r.readValue n (some t) = (some f, r') ↔ ∃ v s, r.rest = v ++ s ∧ Value n t v f ∧
      r' = { r with offset := r.offset + v.length } := by
  constructor
  · intro h
    cases t with
    | varint =>
      simp only [readValue] at h
      split at h
      · cases (Prod.mk.inj h).1
      next hv =>
        obtain ⟨hf, rfl⟩ := Prod.mk.inj h
        obtain rfl := Option.some.inj hf
        obtain ⟨p, s, hr, hp, rfl, rfl⟩ := readVarint_eq_some_iff.mp hv
        exact ⟨p, s, hr, .varint hp, rfl⟩
    | fixed64 =>
      obtain ⟨b, s, hr, hb, rfl, rfl⟩ := readFixed_eq_some_iff.mp h
      exact ⟨b, s, hr, .fixed64 hb, rfl⟩
    | lengthDelimited =>
      have hv : ∃ v r₁, r.readVarint = (some v, r₁) := by
        simp only [readValue] at h
        split at h
        · cases (Prod.mk.inj h).1
        next v r₁ hv => exact ⟨v, r₁, hv⟩
      obtain ⟨v, r₁, hv⟩ := hv
      obtain ⟨p, s, hr, hp, -, -⟩ := readVarint_eq_some_iff.mp hv
      obtain ⟨b, s, rfl, hb, rfl, rfl⟩ := (readBytes_eq_some_iff hr hp).mp h
      exact ⟨p ++ b, s, by rw [hr, List.append_assoc], .lengthDelimited hp hb, rfl⟩
    | fixed32 =>
      obtain ⟨b, s, hr, hb, rfl, rfl⟩ := readFixed_eq_some_iff.mp h
      exact ⟨b, s, hr, .fixed32 hb, rfl⟩
  · intro h'
    obtain ⟨v, s, hr, hv, rfl⟩ := h'
    cases hv with
    | varint hp =>
      simp only [readValue, readVarint_eq_some_iff.mpr ⟨v, s, hr, hp, rfl, rfl⟩]
    | fixed64 hb => exact readFixed_eq_some_iff.mpr ⟨v, s, hr, hb, rfl, rfl⟩
    | lengthDelimited hp hb =>
      rw [List.append_assoc] at hr
      exact (readBytes_eq_some_iff hr hp).mpr ⟨_, s, rfl, hb, rfl, rfl⟩
    | fixed32 hb => exact readFixed_eq_some_iff.mpr ⟨v, s, hr, hb, rfl, rfl⟩

theorem readValue_none {n : UInt32} {t : Option WireType}
    (h : r.readValue n t = (none, r')) : r'.bytes = r.bytes ∧ r'.ok = false ∧
      r'.offset ≤ max r.offset r.bytes.length := by
  have hfixed {size : ℕ} {t : WireType} (h : r.readFixed n t size = (none, r')) :
      r'.bytes = r.bytes ∧ r'.ok = false ∧ r'.offset ≤ max r.offset r.bytes.length := by
    rw [readFixed] at h
    split at h
    · obtain ⟨-, rfl⟩ := Prod.mk.inj h
      exact ⟨rfl, rfl, Nat.le_max_left _ _⟩
    · cases (Prod.mk.inj h).1
  unfold readValue at h
  split at h
  · split at h
    next hv =>
      obtain ⟨-, rfl⟩ := Prod.mk.inj h
      obtain ⟨hb, hok, -, hle⟩ := readVarint_none hv
      exact ⟨hb, hok, hle⟩
    · cases (Prod.mk.inj h).1
  · exact hfixed h
  · split at h
    next hv =>
      obtain ⟨-, rfl⟩ := Prod.mk.inj h
      obtain ⟨hb, -, -, hle⟩ := readVarint_none hv
      exact ⟨hb, rfl, hle⟩
    next hv =>
      split at h
      · obtain ⟨-, rfl⟩ := Prod.mk.inj h
        obtain ⟨hb, -, -, hle⟩ := readVarint_some hv
        exact ⟨hb, rfl, hle.trans (Nat.le_max_right _ _)⟩
      · cases (Prod.mk.inj h).1
  · exact hfixed h
  · obtain ⟨-, rfl⟩ := Prod.mk.inj h
    exact ⟨rfl, rfl, Nat.le_max_left _ _⟩

theorem key_parts {p : Bytes} {n : UInt32} {t : WireType} :
    ((UInt64.ofNat (denote p) >>> 3).toUInt32 = n ∧
      UInt64.ofNat (denote p) &&& 0x07 = t.code) ↔
    denote p % 2 ^ 64 / 8 % 2 ^ 32 = n.toNat ∧ denote p % 2 ^ 64 % 8 = t.code.toNat := by
  have hn : (UInt64.ofNat (denote p) >>> 3).toUInt32.toNat =
      denote p % 2 ^ 64 / 8 % 2 ^ 32 := by
    rw [UInt64.toNat_toUInt32, UInt64.toNat_shiftRight, UInt64.toNat_ofNat',
      Nat.shiftRight_eq_div_pow]
    rfl
  have ht : (UInt64.ofNat (denote p) &&& 0x07).toNat = denote p % 2 ^ 64 % 8 := by
    rw [UInt64.toNat_and, UInt64.toNat_ofNat']
    exact Nat.and_two_pow_sub_one_eq_mod _ 3
  rw [← UInt32.toNat_inj, ← UInt64.toNat_inj, hn, ht]

theorem next_eq_some_iff : r.next = (some f, r') ↔ r.ok = true ∧ ∃ p t, r.rest = p ++ t ∧
    Spells p f ∧ r' = { r with offset := r.offset + p.length } := by
  constructor
  · intro h
    rw [next] at h
    split at h
    · cases (Prod.mk.inj h).1
    next hgo =>
      have hok : r.ok = true ∧ r.offset < r.bytes.length := by simpa using hgo
      split at h
      · cases (Prod.mk.inj h).1
      next hk =>
        obtain ⟨k, s, hr, hv, rfl, rfl⟩ := readVarint_eq_some_iff.mp hk
        simp only at h
        split at h
        · cases (Prod.mk.inj h).1
        next hn =>
          cases ht : WireType.ofCode (UInt64.ofNat (denote k) &&& 0x07) with
          | none =>
            rw [ht] at h
            cases (Prod.mk.inj h).1
          | some t =>
            rw [ht] at h
            obtain ⟨v, u, hr', hval, rfl⟩ := readValue_eq_some_iff.mp h
            obtain ⟨hnum, htype⟩ := key_parts.mp ⟨rfl, WireType.ofCode_eq_some.mp ht⟩
            rw [rest_advance hr] at hr'
            refine ⟨hok.1, k ++ v, u, by rw [hr, hr', List.append_assoc],
              .mk ⟨hv, hnum, hn, htype⟩ hval, ?_⟩
            rw [List.length_append, Nat.add_assoc]
  · intro h'
    obtain ⟨hok, p, t, hr, ⟨hkey, hval⟩, rfl⟩ := h'
    next k v n c =>
    rw [List.append_assoc] at hr
    have hpos := hkey.varint.length_pos
    have hl := congrArg List.length hr
    rw [rest_length, List.length_append] at hl
    obtain ⟨hnum, htype⟩ := key_parts.mpr ⟨hkey.number_eq, hkey.type_eq⟩
    have hk := readVarint_eq_some_iff.mpr ⟨k, _, hr, hkey.varint, rfl, rfl⟩
    have hgo : ¬ (!r.ok || decide (r.bytes.length ≤ r.offset)) = true := by
      simp only [hok, Bool.not_true, Bool.false_or, decide_eq_true_eq]
      omega
    rw [next, if_neg hgo, hk]
    simp only [hnum, htype, if_neg hkey.number_ne, WireType.ofCode_code]
    exact readValue_eq_some_iff.mpr ⟨v, t, rest_advance hr, hval,
      by rw [List.length_append, Nat.add_assoc]⟩

theorem next_none (h : r.next = (none, r')) :
    r'.bytes = r.bytes ∧ r'.offset ≤ max r.offset r.bytes.length ∧
      (r' = r ∧ (r.ok = false ∨ r.bytes.length ≤ r.offset) ∨ r'.ok = false) := by
  rw [next] at h
  split at h
  next hgo =>
    obtain ⟨-, rfl⟩ := Prod.mk.inj h
    exact ⟨rfl, Nat.le_max_left _ _, .inl ⟨rfl, by simpa using hgo⟩⟩
  · split at h
    next hk =>
      obtain ⟨-, rfl⟩ := Prod.mk.inj h
      obtain ⟨hb, hok, -, hle⟩ := readVarint_none hk
      exact ⟨hb, hle, .inr hok⟩
    next hk =>
      obtain ⟨hb, -, -, hle⟩ := readVarint_some hk
      simp only at h
      split at h
      · obtain ⟨-, rfl⟩ := Prod.mk.inj h
        exact ⟨hb, hle.trans (Nat.le_max_right _ _), .inr rfl⟩
      · obtain ⟨hb', hok, hle'⟩ := readValue_none h
        rw [hb] at hb' hle'
        exact ⟨hb', hle'.trans (max_le (hle.trans (Nat.le_max_right _ _)) (Nat.le_max_right _ _)),
          .inr hok⟩

theorem next_inside (h : r.offset ≤ r.bytes.length) :
    r.next.2.bytes = r.bytes ∧ r.next.2.offset ≤ r.bytes.length := by
  obtain ⟨o, r', hn⟩ : ∃ o r', r.next = (o, r') := ⟨_, _, rfl⟩
  rw [hn]
  cases o with
  | none =>
    obtain ⟨hb, hle, -⟩ := next_none hn
    exact ⟨hb, hle.trans (max_le h le_rfl)⟩
  | some f =>
    obtain ⟨hb, -, hle⟩ := next_some hn
    exact ⟨hb, hle⟩

theorem next_stuck (h : r.next = (none, r')) : r'.next = (none, r') := by
  obtain ⟨-, -, ⟨rfl, -⟩ | hok⟩ := next_none h
  · exact h
  · rw [next, if_pos (by simp [hok])]

theorem next_spells {p t : Bytes} (hok : r.ok = true) (hr : r.rest = p ++ t)
    (hs : Spells p f) : r.next = (some f, { r with offset := r.offset + p.length }) :=
  next_eq_some_iff.mpr ⟨hok, p, t, hr, hs, rfl⟩

end Reader

theorem Spells.unique {p q s t : Bytes} {f g : Field} (hp : Spells p f) (hq : Spells q g)
    (h : p ++ s = q ++ t) : p = q ∧ s = t ∧ f = g := by
  have hf := Reader.next_spells (r := ⟨p ++ s, 0, true⟩) rfl rfl hp
  have hg := Reader.next_spells (r := ⟨p ++ s, 0, true⟩) rfl h hq
  rw [hf] at hg
  obtain ⟨hfg, hr⟩ := Prod.mk.inj hg
  have hl : p.length = q.length := by simpa using congrArg Reader.offset hr
  obtain ⟨hpq, hst⟩ := List.append_inj h hl
  exact ⟨hpq, hst, Option.some.inj hfg⟩

theorem Decomposes.nil : Decomposes [] [] := ⟨by simp, rfl⟩

theorem Decomposes.cons {p t : Bytes} {f : Field} {d : List (Bytes × Field)} (hp : Spells p f)
    (hd : Decomposes t d) : Decomposes (p ++ t) ((p, f) :: d) := by
  refine ⟨?_, by rw [hd.join]; rfl⟩
  intro q hq
  rcases List.mem_cons.mp hq with rfl | hq
  · exact hp
  · exact hd.spells q hq

theorem Decomposes.of_cons {m p : Bytes} {f : Field} {d : List (Bytes × Field)}
    (h : Decomposes m ((p, f) :: d)) : ∃ t, m = p ++ t ∧ Spells p f ∧ Decomposes t d :=
  ⟨_, h.join, h.spells _ List.mem_cons_self,
    fun q hq ↦ h.spells q (List.mem_cons_of_mem _ hq), rfl⟩

theorem Decomposes.of_nil {m : Bytes} (h : Decomposes m []) : m = [] := h.join

theorem Decomposes.eq_nil {d : List (Bytes × Field)} (h : Decomposes [] d) : d = [] := by
  cases d with
  | nil => rfl
  | cons q d =>
    obtain ⟨t, ht, hs, -⟩ := h.of_cons
    have h2 := hs.two_le_length
    rw [(List.append_eq_nil_iff.mp ht.symm).1] at h2
    simp at h2

theorem Decomposes.unique {m : Bytes} {d e : List (Bytes × Field)} (hd : Decomposes m d)
    (he : Decomposes m e) : d = e := by
  induction d generalizing m e with
  | nil =>
    obtain rfl := hd.of_nil
    exact he.eq_nil.symm
  | cons q d ih =>
    obtain ⟨t, rfl, hs, ht⟩ := hd.of_cons
    cases e with
    | nil => exact absurd (he.of_nil ▸ hd).eq_nil (by simp)
    | cons q' e =>
      obtain ⟨t', heq, hs', ht'⟩ := he.of_cons
      obtain ⟨hp, rfl, hf⟩ := hs.unique hs' heq
      rw [ih ht ht', Prod.ext hp hf]

namespace Reader

variable {r r' : Reader} {f : Field}

theorem fields_of_decomposes {d : List (Bytes × Field)} (hok : r.ok = true)
    (hoff : r.offset ≤ r.bytes.length) (hd : Decomposes r.rest d) :
    r.fields = (d.map Prod.snd, { r with offset := r.bytes.length }) := by
  induction d generalizing r with
  | nil =>
    have hl := rest_nil hd.of_nil
    have hn : r.next = (none, r) := by rw [next, if_pos (by simp [hl])]
    rw [fields_none hn, List.map_nil, Nat.le_antisymm hl hoff]
  | cons q d ih =>
    obtain ⟨t, hr, hs, ht⟩ := hd.of_cons
    have hn := next_spells hok hr hs
    have hih := ih (r := { r with offset := r.offset + q.1.length }) hok (next_some hn).2.2
      (rest_advance hr ▸ ht)
    rw [fields_some hn, hih, List.map_cons]

theorem decomposes_of_fields (hok : r.fields.2.ok = true) : ∃ d, Decomposes r.rest d := by
  induction r using fields.induct with
  | case1 r r' h =>
    rw [fields_none h] at hok
    obtain ⟨-, -, ⟨rfl, hr⟩ | hr⟩ := next_none h
    · have hl : r'.bytes.length ≤ r'.offset := hr.resolve_left (by simpa using hok)
      rw [rest, List.drop_eq_nil_of_le hl]
      exact ⟨[], .nil⟩
    · rw [hr] at hok
      cases hok
  | case2 r field r' h ih =>
    rw [fields_some h] at hok
    obtain ⟨d, hd⟩ := ih hok
    obtain ⟨-, p, t, hr, hs, rfl⟩ := next_eq_some_iff.mp h
    rw [rest_advance hr] at hd
    rw [hr]
    exact ⟨(p, field) :: d, .cons hs hd⟩

theorem iterate_stuck (h : r.next = (none, r')) (n : ℕ) :
    (fun r : Reader ↦ r.next.2)^[n + 1] r = r' := by
  induction n with
  | zero => rw [Function.iterate_one, h]
  | succ n ih => rw [Function.iterate_succ_apply', ih, next_stuck h]

theorem next_iterate (r : Reader) (n : ℕ) :
    ((fun r : Reader ↦ r.next.2)^[n] r).next.1 = r.fields.1[n]? := by
  induction r using fields.induct generalizing n with
  | case1 r r' h =>
    rw [fields_none h]
    cases n with
    | zero => rw [Function.iterate_zero_apply, h, List.getElem?_nil]
    | succ n => rw [iterate_stuck h, next_stuck h, List.getElem?_nil]
  | case2 r field r' h ih =>
    rw [fields_some h]
    cases n with
    | zero => rw [Function.iterate_zero_apply, h, List.getElem?_cons_zero]
    | succ n => rw [Function.iterate_succ_apply, h, ih n, List.getElem?_cons_succ]

theorem iterate_end (r : Reader) {n : ℕ} (hn : r.fields.1.length < n) :
    (fun r : Reader ↦ r.next.2)^[n] r = r.fields.2 := by
  induction r using fields.induct generalizing n with
  | case1 r r' h =>
    obtain ⟨n, rfl⟩ := Nat.exists_eq_add_one_of_ne_zero (Nat.ne_zero_of_lt hn)
    rw [iterate_stuck h, fields_none h]
  | case2 r field r' h ih =>
    obtain ⟨n, rfl⟩ := Nat.exists_eq_add_one_of_ne_zero (Nat.ne_zero_of_lt hn)
    rw [fields_some h, List.length_cons] at hn
    rw [fields_some h, Function.iterate_succ_apply, h]
    exact ih (Nat.lt_of_succ_lt_succ hn)

/-- The reader on `m` after `n` calls of `next`. -/
def after (m : Bytes) (n : ℕ) : Reader := (fun r ↦ r.next.2)^[n] ⟨m, 0, true⟩

theorem after_inside (m : Bytes) (n : ℕ) :
    (after m n).bytes = m ∧ (after m n).offset ≤ m.length := by
  induction n with
  | zero => exact ⟨rfl, Nat.zero_le _⟩
  | succ n ih =>
    obtain ⟨hb, ho⟩ := ih
    have hn := next_inside (r := after m n) (by rw [hb]; exact ho)
    rw [hb] at hn
    rw [after, Function.iterate_succ_apply']
    exact hn

end Reader

/-- The operations of the reader that C++ leaves undefined or wraps. -/
inductive Fault
  | shift
  | underflow
  | outside
  deriving DecidableEq, Repr

namespace Checked

def shiftLeft (value : UInt64) (shift : ℕ) : Except Fault UInt64 :=
  if shift < 64 then .ok (value <<< UInt64.ofNat shift) else .error .shift

def byteAt (r : Reader) : Except Fault UInt8 :=
  match r.bytes[r.offset]? with
  | some byte => .ok byte
  | none => .error .outside

def remaining (r : Reader) : Except Fault ℕ :=
  if r.offset ≤ r.bytes.length then .ok (r.bytes.length - r.offset) else .error .underflow

def subspan (r : Reader) (size : ℕ) : Except Fault Bytes :=
  if r.offset + size ≤ r.bytes.length then .ok (r.rest.take size) else .error .outside

def readVarintLoop (value : UInt64) (shift : ℕ) (r : Reader) :
    Except Fault (Option UInt64 × Reader) :=
  if r.offset < r.bytes.length ∧ shift ≤ 63 then do
    let byte ← byteAt r
    let group ← shiftLeft (byte &&& 0x7f).toUInt64 shift
    let r' := { r with offset := r.offset + 1 }
    if byte &&& 0x80 = 0 then return (some (value ||| group), r')
    else readVarintLoop (value ||| group) (shift + 7) r'
  else return (none, { r with ok := false })
termination_by r.bytes.length - r.offset
decreasing_by
  omega

def readVarint (r : Reader) : Except Fault (Option UInt64 × Reader) := readVarintLoop 0 0 r

def readBody (number : UInt32) (type : WireType) (size : ℕ) (r : Reader) :
    Except Fault (Option Field × Reader) := do
  if (← remaining r) < size then return (none, { r with ok := false })
  let bytes ← subspan r size
  return (some { number, type, bytes }, { r with offset := r.offset + size })

def readValue (number : UInt32) (type : Option WireType) (r : Reader) :
    Except Fault (Option Field × Reader) :=
  match type with
  | some .varint => do
    match ← readVarint r with
    | (none, r) => return (none, r)
    | (some value, r) => return (some { number, type := .varint, varint := value }, r)
  | some .fixed64 => readBody number .fixed64 8 r
  | some .lengthDelimited => do
    match ← readVarint r with
    | (none, r) => return (none, { r with ok := false })
    | (some size, r) => readBody number .lengthDelimited size.toNat r
  | some .fixed32 => readBody number .fixed32 4 r
  | none => return (none, { r with ok := false })

def next (r : Reader) : Except Fault (Option Field × Reader) :=
  if !r.ok || r.bytes.length ≤ r.offset then return (none, r)
  else do
    match ← readVarint r with
    | (none, r) => return (none, r)
    | (some keyValue, r) =>
      let number := (keyValue >>> 3).toUInt32
      if number = 0 then return (none, { r with ok := false })
      else readValue number (WireType.ofCode (keyValue &&& 0x07)) r

theorem readVarintLoop_eq (value : UInt64) (shift : ℕ) (r : Reader) :
    readVarintLoop value shift r = .ok (r.readVarintLoop value shift) := by
  induction value, shift, r using Reader.readVarintLoop.induct with
  | case1 value shift r h byte hb =>
    have hbyte : byteAt r = .ok byte := by rw [byteAt, List.getElem?_eq_getElem h.1]; rfl
    rw [readVarintLoop, if_pos h, hbyte, Reader.readVarintLoop, dif_pos h]
    simp only [bind, Except.bind, pure, Except.pure]
    rw [shiftLeft, if_pos (by omega)]
    simp only [hb, if_true]
    exact congrArg _ (if_pos hb).symm
  | case2 value shift r h byte r' value' hb ih =>
    have hbyte : byteAt r = .ok byte := by rw [byteAt, List.getElem?_eq_getElem h.1]; rfl
    rw [readVarintLoop, if_pos h, hbyte, Reader.readVarintLoop, dif_pos h]
    simp only [bind, Except.bind]
    rw [shiftLeft, if_pos (by omega)]
    simp only [hb, if_false]
    exact ih.trans (congrArg _ (if_neg hb).symm)
  | case3 value shift r h =>
    rw [readVarintLoop, if_neg h, Reader.readVarintLoop, dif_neg h]
    rfl

theorem readVarint_ok (r : Reader) : readVarint r = .ok r.readVarint := readVarintLoop_eq 0 0 r

theorem readBody_eq (number : UInt32) (type : WireType) (size : ℕ) {r : Reader}
    (h : r.offset ≤ r.bytes.length) :
    readBody number type size r = .ok (r.readFixed number type size) := by
  rw [readBody, remaining, if_pos h, Reader.readFixed]
  simp only [bind, Except.bind, pure, Except.pure]
  split
  · rfl
  · rw [subspan, if_pos (by omega)]

theorem readValue_eq (number : UInt32) (type : Option WireType) {r : Reader}
    (h : r.offset ≤ r.bytes.length) :
    readValue number type r = .ok (r.readValue number type) := by
  unfold readValue Reader.readValue
  split
  · rw [readVarint_ok]
    obtain ⟨o, r', hv⟩ : ∃ o r', r.readVarint = (o, r') := ⟨_, _, rfl⟩
    rw [hv]
    cases o <;> rfl
  · exact readBody_eq number .fixed64 8 h
  · rw [readVarint_ok]
    obtain ⟨o, r', hv⟩ : ∃ o r', r.readVarint = (o, r') := ⟨_, _, rfl⟩
    rw [hv]
    cases o with
    | none => rfl
    | some size =>
      obtain ⟨hb, -, -, hle⟩ := Reader.readVarint_some hv
      exact readBody_eq number .lengthDelimited size.toNat (by rw [hb]; exact hle)
  · exact readBody_eq number .fixed32 4 h
  · rfl

theorem next_eq (r : Reader) : next r = .ok r.next := by
  rw [next, Reader.next]
  split
  · rfl
  · rw [readVarint_ok]
    obtain ⟨o, r', hv⟩ : ∃ o r', r.readVarint = (o, r') := ⟨_, _, rfl⟩
    rw [hv]
    cases o with
    | none => rfl
    | some k =>
      obtain ⟨hb, -, -, hle⟩ := Reader.readVarint_some hv
      simp only [bind, Except.bind]
      split
      · rfl
      · exact readValue_eq _ _ (by rw [hb]; exact hle)

end Checked

theorem Value.bytes_suffix {n : UInt32} {t : WireType} {v : Bytes} {f : Field}
    (h : Value n t v f) : ∃ u, u ++ f.bytes <+: v := by
  cases h with
  | varint => exact ⟨[], List.nil_prefix⟩
  | fixed64 => exact ⟨[], List.prefix_rfl⟩
  | lengthDelimited => exact ⟨_, List.prefix_rfl⟩
  | fixed32 => exact ⟨[], List.prefix_rfl⟩

theorem Spells.bytes_span {p : Bytes} {f : Field} (h : Spells p f) :
    ∃ i, i + f.bytes.length ≤ p.length ∧ (p.drop i).take f.bytes.length = f.bytes := by
  cases h with
  | mk key value =>
    next k v n t =>
    obtain ⟨u, w, rfl⟩ := value.bytes_suffix
    refine ⟨(k ++ u).length, by simp only [List.length_append]; omega, ?_⟩
    rw [List.append_assoc, ← List.append_assoc k, List.drop_left, List.take_left]

theorem Reader.next_span {r r' : Reader} {f : Field} (h : r.next = (some f, r')) :
    r.offset + 2 ≤ r'.offset ∧ ∃ i, r.offset ≤ i ∧ i + f.bytes.length ≤ r'.offset ∧
      f.bytes = (r.bytes.drop i).take f.bytes.length := by
  obtain ⟨-, p, t, hr, hs, rfl⟩ := Reader.next_eq_some_iff.mp h
  have h2 := hs.two_le_length
  obtain ⟨i, hi, hspan⟩ := hs.bytes_span
  refine ⟨by simp only; omega, r.offset + i, Nat.le_add_right _ _, by simp only; omega, ?_⟩
  have hsplit : r.bytes.drop (r.offset + i) = p.drop i ++ t := by
    rw [← List.drop_drop, show r.bytes.drop r.offset = p ++ t from hr,
      List.drop_append_of_le_length (by omega)]
  rw [hsplit, List.take_append_of_le_length (by rw [List.length_drop]; omega), hspan]

/-- `next` called over and over on any bytes stays inside them, returns
finitely many fields and then false for ever. It ends in a good state on the
byte strings of the format and on no others, and there it has returned the
fields of the only decomposition. -/
theorem reader_accepts_exactly_its_grammar (m : Bytes) :
    (∀ n, (Reader.after m n).offset ≤ m.length ∧
      Checked.next (Reader.after m n) = .ok (Reader.after m n).next ∧
      (∀ f, (Reader.after m n).next.1 = some f →
        (Reader.after m n).offset + 2 ≤ (Reader.after m (n + 1)).offset ∧
        ∃ i, (Reader.after m n).offset ≤ i ∧
          i + f.bytes.length ≤ (Reader.after m (n + 1)).offset ∧
          f.bytes = (m.drop i).take f.bytes.length) ∧
      ((Reader.after m n).next.1 = none → ∀ k ≥ n, (Reader.after m k).next.1 = none)) ∧
    ∃ fs : List Field, (∀ n, (Reader.after m n).next.1 = fs[n]?) ∧
      (∀ n > fs.length, (Reader.after m n).ok = true ↔ ∃ d, Decomposes m d) ∧
      (∀ d, Decomposes m d → fs = d.map Prod.snd) ∧
      (∀ d e, Decomposes m d → Decomposes m e → d = e) := by
  refine ⟨fun n ↦ ?_, (Reader.fields ⟨m, 0, true⟩).1, Reader.next_iterate ⟨m, 0, true⟩, ?_, ?_,
    fun d e hd he ↦ hd.unique he⟩
  · obtain ⟨hb, ho⟩ := Reader.after_inside m n
    have hsucc : Reader.after m (n + 1) = (Reader.after m n).next.2 :=
      Function.iterate_succ_apply' _ _ _
    refine ⟨ho, Checked.next_eq _, ?_, ?_⟩
    · intro f hf
      have hnext : (Reader.after m n).next = (some f, (Reader.after m n).next.2) :=
        Prod.ext hf rfl
      have hspan := Reader.next_span hnext
      rwa [hb, ← hsucc] at hspan
    · intro hnone k hk
      have hn := Reader.next_iterate ⟨m, 0, true⟩ n
      have hlen := List.getElem?_eq_none_iff.mp (hn.symm.trans hnone)
      exact (Reader.next_iterate ⟨m, 0, true⟩ k).trans
        (List.getElem?_eq_none_iff.mpr (hlen.trans hk))
  · intro n hn
    rw [Reader.after, Reader.iterate_end _ hn]
    refine ⟨fun hok ↦ Reader.decomposes_of_fields hok, ?_⟩
    intro h
    obtain ⟨d, hd⟩ := h
    rw [Reader.fields_of_decomposes (r := ⟨m, 0, true⟩) rfl (Nat.zero_le _) hd]
  · intro d hd
    rw [Reader.fields_of_decomposes (r := ⟨m, 0, true⟩) rfl (Nat.zero_le _) hd]

end AndroidTvRemote.Wire
