import Mathlib.Data.Nat.Bitwise
import Mathlib.Data.List.Basic
import Mathlib.Tactic.Ring

namespace AndroidTvRemote.Base128

/-- The number denoted by a little-endian string of seven-bit groups. The top
bit of a byte only says whether the string goes on. -/
def denote : List UInt8 → ℕ
  | [] => 0
  | b :: bs => b.toNat % 128 + 128 * denote bs

def encode (n : ℕ) : List UInt8 :=
  if n < 128 then [UInt8.ofNat n] else UInt8.ofNat (n % 128 + 128) :: encode (n / 128)

/-- The first group string of a byte string and what follows it, looking at
no more than `k` bytes. -/
def scan : ℕ → List UInt8 → Option (List UInt8 × List UInt8)
  | 0, _ => none
  | _ + 1, [] => none
  | k + 1, b :: bs =>
    if b.toNat < 128 then some ([b], bs) else (scan k bs).map fun p ↦ (b :: p.1, p.2)

theorem denote_append (xs ys : List UInt8) :
    denote (xs ++ ys) = denote xs + 128 ^ xs.length * denote ys := by
  induction xs with
  | nil => simp [denote]
  | cons b xs ih =>
    simp only [List.cons_append, denote, ih, List.length_cons, pow_succ]
    ring

theorem denote_lt (bs : List UInt8) : denote bs < 128 ^ bs.length := by
  induction bs with
  | nil => simp [denote]
  | cons b bs ih =>
    have h : b.toNat % 128 < 128 := Nat.mod_lt _ (by decide)
    simp only [denote, List.length_cons, pow_succ]
    omega

theorem encode_small {n : ℕ} (h : n < 128) : encode n = [UInt8.ofNat n] := by
  rw [encode, if_pos h]

theorem encode_large {n : ℕ} (h : ¬ n < 128) :
    encode n = UInt8.ofNat (n % 128 + 128) :: encode (n / 128) := by
  rw [encode, if_neg h]

theorem denote_encode (n : ℕ) : denote (encode n) = n := by
  induction n using encode.induct with
  | case1 n h =>
    rw [encode_small h]
    simp only [denote, UInt8.toNat_ofNat']
    omega
  | case2 n h ih =>
    rw [encode_large h]
    simp only [denote, ih, UInt8.toNat_ofNat']
    omega

theorem encode_length_le (k : ℕ) {n : ℕ} (h : n < 128 ^ (k + 1)) :
    (encode n).length ≤ k + 1 := by
  induction k generalizing n with
  | zero => rw [encode_small (by omega)]; rfl
  | succ k ih =>
    by_cases hn : n < 128
    · rw [encode_small hn]; simp
    · rw [encode_large hn, List.length_cons]
      have hd : n / 128 < 128 ^ (k + 1) := by
        rw [Nat.div_lt_iff_lt_mul (by decide)]
        rwa [pow_succ] at h
      exact Nat.succ_le_succ (ih hd)

/-- The group strings: every byte but the last announces another one. -/
inductive Groups : List UInt8 → Prop
  | last {b : UInt8} (h : b.toNat < 128) : Groups [b]
  | more {b : UInt8} {p : List UInt8} (h : ¬ b.toNat < 128) (hp : Groups p) : Groups (b :: p)

theorem Groups.ne_nil {p : List UInt8} (h : Groups p) : p ≠ [] := by
  cases h <;> simp

theorem scan_groups {k : ℕ} {p : List UInt8} (t : List UInt8) (hp : Groups p)
    (hk : p.length ≤ k) : scan k (p ++ t) = some (p, t) := by
  induction hp generalizing k with
  | last h =>
    cases k with
    | zero => simp at hk
    | succ k => simp [scan, h]
  | more h hp ih =>
    cases k with
    | zero => simp at hk
    | succ k =>
      have hrest := ih (k := k) (by simpa using hk)
      simp [scan, h, hrest]

theorem scan_eq_some_iff {k : ℕ} {bs p t : List UInt8} :
    scan k bs = some (p, t) ↔ bs = p ++ t ∧ Groups p ∧ p.length ≤ k := by
  constructor
  · intro h
    induction k generalizing bs p t with
    | zero => simp [scan] at h
    | succ k ih =>
      cases bs with
      | nil => simp [scan] at h
      | cons b bs =>
        simp only [scan] at h
        split at h
        next hb =>
          obtain ⟨rfl, rfl⟩ := Prod.mk.inj (Option.some.inj h)
          exact ⟨rfl, .last hb, by simp⟩
        next hb =>
          obtain ⟨⟨p', t'⟩, hp, he⟩ := Option.map_eq_some_iff.mp h
          obtain ⟨rfl, rfl⟩ := Prod.mk.inj he
          obtain ⟨rfl, hg, hl⟩ := ih hp
          exact ⟨rfl, .more hb hg, by simpa using hl⟩
  · intro h'
    obtain ⟨rfl, hp, hl⟩ := h'
    exact scan_groups t hp hl

theorem scan_continues {seen : List UInt8} (h : ∀ b ∈ seen, ¬ b.toNat < 128) (k : ℕ)
    (bs : List UInt8) : scan (seen.length + k) (seen ++ bs) =
      (scan k bs).map fun p ↦ (seen ++ p.1, p.2) := by
  induction seen with
  | nil => simp
  | cons b seen ih =>
    obtain ⟨hb, hseen⟩ := List.forall_mem_cons.mp h
    have hk : (b :: seen).length + k = seen.length + k + 1 := by
      rw [List.length_cons]
      omega
    rw [hk, List.cons_append, scan, if_neg hb, ih hseen, Option.map_map]
    rfl

theorem groups_append {seen p : List UInt8} (h : ∀ b ∈ seen, ¬ b.toNat < 128) (hp : Groups p) :
    Groups (seen ++ p) := by
  induction seen with
  | nil => exact hp
  | cons b seen ih =>
    obtain ⟨hb, hseen⟩ := List.forall_mem_cons.mp h
    exact .more hb (ih hseen)

theorem groups_encode (n : ℕ) : Groups (encode n) := by
  induction n using encode.induct with
  | case1 n hn =>
    rw [encode_small hn]
    refine .last ?_
    rw [UInt8.toNat_ofNat']
    omega
  | case2 n hn ih =>
    rw [encode_large hn]
    refine .more ?_ ih
    rw [UInt8.toNat_ofNat']
    omega

theorem scan_encode {k n : ℕ} (t : List UInt8) (h : (encode n).length ≤ k) :
    scan k (encode n ++ t) = some (encode n, t) :=
  scan_groups t (groups_encode n) h

theorem encode_append_inj {m n : ℕ} {s t : List UInt8} (h : encode m ++ s = encode n ++ t) :
    m = n ∧ s = t := by
  let k := max (encode m).length (encode n).length
  have hm := scan_encode (k := k) s (le_max_left _ _)
  have hn := scan_encode (k := k) t (le_max_right _ _)
  rw [h, hn] at hm
  obtain ⟨he, rfl⟩ := Prod.mk.inj (Option.some.inj hm)
  refine ⟨?_, rfl⟩
  rw [← denote_encode m, ← denote_encode n, he]

section Machine

theorem continues_iff (b : UInt8) : b &&& 0x80 = 0 ↔ b.toNat < 128 := by
  have h : ∀ i : Fin 256, UInt8.ofNat i.val &&& 0x80 = 0 ↔ i.val < 128 := by decide +kernel
  have hb := h ⟨b.toNat, b.toNat_lt⟩
  simpa using hb

theorem payload_toNat (b : UInt8) : (b &&& 0x7f).toUInt64.toNat = b.toNat % 128 := by
  rw [UInt8.toNat_toUInt64, UInt8.toNat_and]
  exact Nat.and_two_pow_sub_one_eq_mod b.toNat 7

/-- A group placed above all bits of the accumulator is added to it. The sum
wraps at the width of the register. -/
theorem or_shift {acc : UInt64} {s : ℕ} (b : UInt8) (hs : s ≤ 63) (hacc : acc.toNat < 2 ^ s) :
    acc ||| ((b &&& 0x7f).toUInt64 <<< UInt64.ofNat s) =
      UInt64.ofNat (acc.toNat + 2 ^ s * (b.toNat % 128)) := by
  apply UInt64.toNat_inj.mp
  have hs64 : (UInt64.ofNat s).toNat % 64 = s := by
    rw [UInt64.toNat_ofNat']
    omega
  rw [UInt64.toNat_or, UInt64.toNat_shiftLeft, hs64, payload_toNat, UInt64.toNat_ofNat',
    Nat.shiftLeft_eq]
  have hsplit : (2 : ℕ) ^ 64 = 2 ^ s * 2 ^ (64 - s) := by
    rw [← pow_add]
    congr 1
    omega
  have hmod : b.toNat % 128 * 2 ^ s % 2 ^ 64 = 2 ^ s * (b.toNat % 128 % 2 ^ (64 - s)) := by
    rw [hsplit, Nat.mul_comm _ (2 ^ s), Nat.mul_mod_mul_left]
  have hsum : (acc.toNat + 2 ^ s * (b.toNat % 128)) % 2 ^ 64 =
      2 ^ s * (b.toNat % 128 % 2 ^ (64 - s)) + acc.toNat := by
    rw [hsplit, Nat.add_comm, Nat.mod_mul, Nat.mul_add_mod, Nat.mod_eq_of_lt hacc,
      Nat.mul_add_div (Nat.two_pow_pos s), Nat.div_eq_of_lt hacc, Nat.add_zero, Nat.add_comm]
  rw [hmod, hsum, Nat.or_comm, Nat.two_pow_add_eq_or_of_lt hacc]

theorem last_group {v : UInt64} (h : v < 0x80) : [v.toUInt8] = encode v.toNat := by
  have hv : v.toNat < 128 := by simpa [UInt64.lt_iff_toNat_lt] using h
  rw [encode_small hv]
  congr 1

theorem shiftRight_seven (v : UInt64) : (v >>> 7).toNat = v.toNat / 128 := by
  rw [UInt64.toNat_shiftRight]
  simp [Nat.shiftRight_eq_div_pow]

theorem next_group (v : UInt64) :
    ((v &&& 0x7f) ||| 0x80).toUInt8 = UInt8.ofNat (v.toNat % 128 + 128) := by
  apply UInt8.toNat_inj.mp
  have hand : v.toNat &&& 127 = v.toNat % 128 := Nat.and_two_pow_sub_one_eq_mod v.toNat 7
  have hor : 128 + v.toNat % 128 = 128 ||| v.toNat % 128 :=
    Nat.two_pow_add_eq_or_of_lt (i := 7) (by omega) 1
  rw [UInt64.toNat_toUInt8, UInt64.toNat_or, UInt64.toNat_and, UInt8.toNat_ofNat']
  change ((v.toNat &&& 127) ||| 128) % 2 ^ 8 = _
  rw [hand, Nat.or_comm, ← hor]
  omega

theorem encode_length_le_ten (v : UInt64) : (encode v.toNat).length ≤ 10 := by
  apply encode_length_le 9
  have h := v.toNat_lt
  omega

end Machine

end AndroidTvRemote.Base128
