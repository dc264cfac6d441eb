import Mathlib.Data.List.Basic
import Mathlib.Algebra.Ring.Parity

namespace AndroidTvRemote.Slices

variable {α : Type} {n : ℕ} {l : List α}

def slice (n : ℕ) (l : List α) (i : ℕ) : List α := (l.drop (n * i)).take n

def count (n : ℕ) (l : List α) : ℕ := (l.length + (n - 1)) / n

def slices (n : ℕ) (l : List α) : List (List α) := (List.range (count n l)).map (slice n l)

theorem slice_length (i : ℕ) : (slice n l i).length = min n (l.length - n * i) := by
  rw [slice, List.length_take, List.length_drop]

theorem slices_nil (hn : 0 < n) : slices n ([] : List α) = [] := by
  rw [slices, count, List.length_nil, Nat.zero_add, Nat.div_eq_of_lt (by omega), List.range_zero,
    List.map_nil]

theorem slices_length : (slices n l).length = count n l := by
  rw [slices, List.length_map, List.length_range]

theorem flatten_take (k : ℕ) : ((List.range k).map (slice n l)).flatten = l.take (n * k) := by
  induction k with
  | zero => rw [Nat.mul_zero, List.take_zero]; rfl
  | succ k ih =>
    rw [List.range_succ, List.map_append, List.flatten_append, ih, Nat.mul_succ, List.take_add]
    simp [slice]

theorem length_le_count (hn : 0 < n) : l.length ≤ n * count n l := by
  have h := Nat.div_add_mod (l.length + (n - 1)) n
  have hm := Nat.mod_lt (l.length + (n - 1)) hn
  rw [count]
  omega

theorem count_mul_lt (hn : 0 < n) (hl : l ≠ []) :
    ∃ c, count n l = c + 1 ∧ n * c < l.length := by
  have hpos := List.length_pos_iff.mpr hl
  have h := Nat.div_add_mod (l.length + (n - 1)) n
  have hle := length_le_count (l := l) hn
  rw [count] at hle ⊢
  obtain ⟨c, hc⟩ : ∃ c, (l.length + (n - 1)) / n = c + 1 := by
    apply Nat.exists_eq_add_one_of_ne_zero
    intro h0
    rw [h0] at hle
    omega
  refine ⟨c, hc, ?_⟩
  rw [hc, Nat.mul_succ] at h
  omega

theorem slices_flatten (hn : 0 < n) (l : List α) : (slices n l).flatten = l := by
  rw [slices, flatten_take, List.take_of_length_le (length_le_count hn)]

theorem slices_snoc (hn : 0 < n) (hl : l ≠ []) : ∃ front last, slices n l = front ++ [last] ∧
    (∀ s ∈ front, s.length = n) ∧ 0 < last.length ∧ last.length ≤ n := by
  obtain ⟨c, hc, hlt⟩ := count_mul_lt hn hl
  refine ⟨(List.range c).map (slice n l), slice n l c, ?_, ?_, ?_, ?_⟩
  · rw [slices, hc, List.range_succ, List.map_append, List.map_singleton]
  · intro s hs
    obtain ⟨i, hi, rfl⟩ := List.mem_map.mp hs
    have hle : n * (i + 1) ≤ n * c := Nat.mul_le_mul_left n (List.mem_range.mp hi)
    rw [Nat.mul_succ] at hle
    rw [slice_length]
    omega
  · rw [slice_length]
    omega
  · rw [slice_length]
    omega

/-- Slices of an even size cut a list of pairs between two pairs. -/
theorem slice_even (hn : Even n) (hl : Even l.length) (i : ℕ) :
    Even (n * i) ∧ Even (slice n l i).length := by
  have hoff : Even (n * i) := hn.mul_right i
  refine ⟨hoff, ?_⟩
  rw [slice_length]
  rcases Nat.le_total n (l.length - n * i) with h | h
  · rwa [Nat.min_eq_left h]
  · rw [Nat.min_eq_right h]
    obtain ⟨a, ha⟩ := hl
    obtain ⟨b, hb⟩ := hoff
    exact ⟨a - b, by omega⟩

end AndroidTvRemote.Slices
