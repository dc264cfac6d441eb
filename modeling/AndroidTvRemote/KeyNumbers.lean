import AndroidTvRemote.ProtocolMessages
import AndroidTvRemote.ReaderGrammar

namespace AndroidTvRemote.Wire

open Base128 Protocol

def Reader.key (r : Reader) : Bytes := r.rest.take (r.readVarint.2.offset - r.offset)

/-- A field that `next` returns has the number and the wire type its key
denotes. -/
def Reader.Exact (r : Reader) : Prop :=
  ∀ f, r.next.1 = some f → f.number.toNat * 8 + f.type.code.toNat = denote r.key

def Reader.RefusesWide (r : Reader) : Prop :=
  2 ^ 35 ≤ denote r.key → r.next.1 = none ∧ r.next.2.ok = false

/-- The bytes start with a well-formed field whose key has a number of more
than 32 bits. -/
def StartsWide (bs : Bytes) : Prop :=
  ∃ k v s n t f, bs = k ++ (v ++ s) ∧ Key k n t ∧ Value n t v f ∧ 2 ^ 35 ≤ denote k

/-- No field of a message has such a key, as far as the message can be cut
into fields. -/
def NarrowKeys (m : Bytes) : Prop :=
  ∀ (pieces : List (Bytes × Field)) (rest : Bytes), (∀ q ∈ pieces, Spells q.1 q.2) →
    m = (pieces.map Prod.fst).flatten ++ rest → ¬ StartsWide rest

def Denotes (m : Bytes) (n : ℕ) (f : Field) (number : UInt32) : Prop :=
  (Reader.after m n).next.1 = some f ∧
    denote (Reader.after m n).key = number.toNat * 8 + f.type.code.toNat

structure SearchesExact (m : Bytes) : Prop where
  findVarint : ∀ number v, findVarint m number = some v →
    ∃ n f, Denotes m n f number ∧ f.type = .varint ∧ f.varint = v
  findBytes : ∀ number b, findBytes m number = some b →
    ∃ n f, Denotes m n f number ∧ f.type = .lengthDelimited ∧ f.bytes = b
  hasField : ∀ number, hasField m number = true → ∃ n f, Denotes m n f number
  parseRemote : (parseRemote m).kind ≠ .unknown →
    ∃ n f, Denotes m n f f.number ∧ parseField f = some (parseRemote m)

theorem Value.number_type {n : UInt32} {t : WireType} {v : Bytes} {f : Field}
    (h : Value n t v f) : f.number = n ∧ f.type = t := by
  cases h <;> exact ⟨rfl, rfl⟩

theorem Key.exact_iff {k : Bytes} {n : UInt32} {t : WireType} (h : Key k n t) :
    n.toNat * 8 + t.code.toNat = denote k ↔ denote k < 2 ^ 35 := by
  have hn := n.toNat_lt
  have ht : t.code.toNat < 8 := by cases t <;> decide
  have hnum := h.number_eq
  have htype := h.type_eq
  omega

namespace Reader

variable {r r' : Reader} {f : Field} {m : Bytes}

theorem key_eq {k s : Bytes} (hr : r.rest = k ++ s) (hk : Varint k) : r.key = k := by
  have h := readVarint_eq_some_iff.mpr ⟨k, s, hr, hk, rfl, rfl⟩
  rw [key, h]
  simp only [Nat.add_sub_cancel_left]
  rw [hr, List.take_left]

theorem key_of_end (h : r.bytes.length ≤ r.offset) : denote r.key = 0 := by
  rw [key, rest, List.drop_eq_nil_of_le h, List.take_nil, denote]

theorem exact_of_next (h : r.next = (some f, r')) :
    (f.number.toNat * 8 + f.type.code.toNat = denote r.key ↔ denote r.key < 2 ^ 35) ∧
      (StartsWide r.rest ↔ 2 ^ 35 ≤ denote r.key) := by
  obtain ⟨-, p, s, hr, ⟨hkey, hval⟩, -⟩ := next_eq_some_iff.mp h
  next k v n t =>
  rw [List.append_assoc] at hr
  obtain ⟨hn, ht⟩ := hval.number_type
  rw [key_eq hr hkey.varint, hn, ht]
  refine ⟨hkey.exact_iff, ?_, fun hw ↦ ⟨k, v, s, n, t, f, hr, hkey, hval, hw⟩⟩
  intro h'
  obtain ⟨k', v', s', n', t', f', hr', hkey', -, hw⟩ := h'
  rwa [← key_eq hr hkey.varint, key_eq hr' hkey'.varint]

theorem next_of_startsWide (hok : r.ok = true) (h : StartsWide r.rest) :
    ∃ f r', r.next = (some f, r') := by
  obtain ⟨k, v, s, n, t, f, hr, hkey, hval, -⟩ := h
  rw [← List.append_assoc] at hr
  exact ⟨f, _, next_spells hok hr (.mk hkey hval)⟩

theorem exact_iff (r : Reader) :
    r.Exact ∧ r.RefusesWide ↔ ¬ (r.ok = true ∧ StartsWide r.rest) := by
  constructor
  · rintro ⟨hexact, -⟩ ⟨hok, hw⟩
    obtain ⟨f, r', hn⟩ := next_of_startsWide hok hw
    obtain ⟨hiff, hwide⟩ := exact_of_next hn
    have hlt := hiff.mp (hexact f (by rw [hn]))
    have hge := hwide.mp hw
    omega
  · intro hnot
    obtain ⟨o, r', hn⟩ : ∃ o r', r.next = (o, r') := ⟨_, _, rfl⟩
    rw [Exact, RefusesWide, hn]
    cases o with
    | none =>
      refine ⟨?_, fun hw ↦ ⟨rfl, ?_⟩⟩
      · intro f hf
        cases hf
      obtain ⟨-, -, ⟨rfl, hok | hend⟩ | hok⟩ := next_none hn
      · exact hok
      · rw [key_of_end hend] at hw
        omega
      · exact hok
    | some f =>
      obtain ⟨hiff, hwide⟩ := exact_of_next hn
      have hok := (next_eq_some_iff.mp hn).1
      have hlt : denote r.key < 2 ^ 35 := by
        by_contra hge
        exact hnot ⟨hok, hwide.mpr (Nat.le_of_not_lt hge)⟩
      refine ⟨?_, fun hw ↦ by omega⟩
      intro g hg
      obtain rfl := Option.some.inj hg
      exact hiff.mpr hlt

theorem after_succ (m : Bytes) (n : ℕ) : after m (n + 1) = (after m n).next.2 :=
  Function.iterate_succ_apply' _ _ _

theorem after_pieces {n : ℕ} (hok : (after m n).ok = true) :
    ∃ pieces : List (Bytes × Field), (∀ q ∈ pieces, Spells q.1 q.2) ∧
      m = (pieces.map Prod.fst).flatten ++ (after m n).rest := by
  induction n with
  | zero => exact ⟨[], by simp, rfl⟩
  | succ n ih =>
    rw [after_succ] at hok ⊢
    obtain ⟨o, r', hn⟩ : ∃ o r', (after m n).next = (o, r') := ⟨_, _, rfl⟩
    rw [hn] at hok ⊢
    cases o with
    | none =>
      obtain ⟨-, -, ⟨rfl, -⟩ | hbad⟩ := next_none hn
      · exact ih hok
      · rw [hbad] at hok
        cases hok
    | some f =>
      obtain ⟨hok', p, s, hr, hs, rfl⟩ := next_eq_some_iff.mp hn
      obtain ⟨pieces, hspells, hm⟩ := ih hok'
      refine ⟨pieces ++ [(p, f)], ?_, ?_⟩
      · intro q hq
        rcases List.mem_append.mp hq with hq | hq
        · exact hspells q hq
        · rw [List.mem_singleton.mp hq]
          exact hs
      · rw [rest_advance hr]
        rw [hr] at hm
        simpa using hm

theorem iterate_pieces {pieces : List (Bytes × Field)} {rest : Bytes} (hok : r.ok = true)
    (hs : ∀ q ∈ pieces, Spells q.1 q.2)
    (hr : r.rest = (pieces.map Prod.fst).flatten ++ rest) :
    ((fun r : Reader ↦ r.next.2)^[pieces.length] r).ok = true ∧
      ((fun r : Reader ↦ r.next.2)^[pieces.length] r).rest = rest := by
  induction pieces generalizing r with
  | nil => exact ⟨hok, hr⟩
  | cons q pieces ih =>
    obtain ⟨hq, hpieces⟩ := List.forall_mem_cons.mp hs
    rw [List.map_cons, List.flatten_cons, List.append_assoc] at hr
    have hn := next_spells hok hr hq
    rw [List.length_cons, Function.iterate_succ_apply, hn]
    exact ih hok hpieces (rest_advance hr)

/-- The calls of `next` on a message meet a wide key exactly if the message
has one behind fields of the format. -/
theorem narrowKeys_iff (m : Bytes) :
    NarrowKeys m ↔ ∀ n, ¬ ((after m n).ok = true ∧ StartsWide (after m n).rest) := by
  constructor
  · rintro h n ⟨hok, hw⟩
    obtain ⟨pieces, hs, hm⟩ := after_pieces hok
    exact h pieces _ hs hm hw
  · intro h pieces rest hs hm hw
    obtain ⟨hok, hrest⟩ := iterate_pieces (r := ⟨m, 0, true⟩) rfl hs hm
    exact h pieces.length ⟨hok, hrest.symm ▸ hw⟩

theorem search_some {α : Type} {g : Field → Option α} {a : α}
    (h : search g ⟨m, 0, true⟩ = some a) :
    ∃ n f, (after m n).next.1 = some f ∧ g f = some a := by
  rw [search_eq_findSome] at h
  obtain ⟨f, hf, hg⟩ := List.exists_of_findSome?_eq_some h
  obtain ⟨n, hn⟩ := List.mem_iff_getElem?.mp hf
  exact ⟨n, f, (next_iterate ⟨m, 0, true⟩ n).trans hn, hg⟩

theorem search_denotes {α : Type} {p : Field → Prop} [DecidablePred p] {g : Field → α} {a : α}
    (hexact : ∀ n, (after m n).Exact)
    (h : search (fun f ↦ if p f then some (g f) else none) ⟨m, 0, true⟩ = some a) :
    ∃ n f, Denotes m n f f.number ∧ p f ∧ g f = a := by
  obtain ⟨n, f, hf, hg⟩ := search_some h
  have hp : p f ∧ g f = a := by simpa using hg
  exact ⟨n, f, ⟨hf, (hexact n f hf).symm⟩, hp⟩

theorem searchesExact (hexact : ∀ n, (after m n).Exact) : SearchesExact m := by
  refine ⟨?_, ?_, ?_, ?_⟩
  · intro number v h
    obtain ⟨n, f, hd, ⟨rfl, ht⟩, hv⟩ := search_denotes hexact h
    exact ⟨n, f, hd, ht, hv⟩
  · intro number b h
    obtain ⟨n, f, hd, ⟨rfl, ht⟩, hb⟩ := search_denotes hexact h
    exact ⟨n, f, hd, ht, hb⟩
  · intro number h
    obtain ⟨u, hu⟩ := Option.isSome_iff_exists.mp h
    obtain ⟨n, f, hd, rfl, -⟩ := search_denotes hexact hu
    exact ⟨n, f, hd⟩
  · intro h
    cases hs : search parseField ⟨m, 0, true⟩ with
    | none =>
      rw [Protocol.parseRemote, hs] at h
      exact absurd rfl h
    | some res =>
      obtain ⟨n, f, hf, hg⟩ := search_some hs
      refine ⟨n, f, ⟨hf, (hexact n f hf).symm⟩, ?_⟩
      rw [hg, Protocol.parseRemote, hs]
      rfl

end Reader

/-- The reader narrows the number of a key to 32 bits, and the key itself to
64, before it looks at it. A call goes right on every input but a well-formed
field with a wider key, and such a field is what a message needs for its
fields to be taken for others. -/
theorem keys_exact_iff (r : Reader) (m : Bytes) :
    (r.Exact ∧ r.RefusesWide ↔ ¬ (r.ok = true ∧ StartsWide r.rest)) ∧
    (((∀ n, (Reader.after m n).Exact ∧ (Reader.after m n).RefusesWide) ∧
      SearchesExact m) ↔ NarrowKeys m) := by
  refine ⟨r.exact_iff, ?_⟩
  rw [Reader.narrowKeys_iff]
  constructor
  · rintro ⟨h, -⟩ n
    exact (Reader.exact_iff _).mp (h n)
  · intro h
    have hexact : ∀ n, (Reader.after m n).Exact ∧ (Reader.after m n).RefusesWide :=
      fun n ↦ (Reader.exact_iff _).mpr (h n)
    exact ⟨hexact, Reader.searchesExact fun n ↦ (hexact n).1⟩

def wideKey : Bytes := [0xc2, 0x80, 0x80, 0x80, 0x80, 0x01, 0x02, 0x08, 0x01]

theorem wide_key_taken_for_ping :
    (Reader.after wideKey 0).next.1 =
      some { number := 8, type := .lengthDelimited, bytes := [0x08, 0x01] } ∧
    denote (Reader.after wideKey 0).key = (2 ^ 32 + 8) * 8 + 2 ∧
    ¬ (Reader.after wideKey 0).Exact ∧ ¬ (Reader.after wideKey 0).RefusesWide ∧
    parseRemote wideKey = { kind := .ping, pingValue := 1 } := by
  have hnext : (Reader.after wideKey 0).next.1 =
      some { number := 8, type := .lengthDelimited, bytes := [0x08, 0x01] } := by
    decide +kernel
  have hkey : denote (Reader.after wideKey 0).key = (2 ^ 32 + 8) * 8 + 2 := by decide +kernel
  refine ⟨hnext, hkey, ?_, ?_, by decide +kernel⟩
  · intro h
    have hnum := h _ hnext
    rw [hkey] at hnum
    revert hnum
    decide
  · intro h
    have hnone := (h (by rw [hkey]; decide)).1
    rw [hnext] at hnone
    cases hnone

end AndroidTvRemote.Wire
