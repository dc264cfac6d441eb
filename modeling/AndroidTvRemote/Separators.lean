import Mathlib.Data.List.Basic

namespace AndroidTvRemote.Separators

variable {α : Type} {a : α}

/-- The longest suffix that is free of a separator. -/
structure LastPart (a : α) (l t : List α) : Prop where
  suffix : t <:+ l
  free : a ∉ t
  longest : ∀ u, u <:+ l → a ∉ u → u.length ≤ t.length

theorem lastPart_self {l : List α} (h : a ∉ l) : LastPart a l l :=
  ⟨List.suffix_rfl, h, fun _ hu _ ↦ hu.length_le⟩

theorem lastPart_append (s : List α) {t : List α} (h : a ∉ t) : LastPart a (s ++ a :: t) t := by
  refine ⟨⟨s ++ [a], by rw [List.append_assoc, List.singleton_append]⟩, h, ?_⟩
  intro u hu hfree
  by_contra hlt
  have hle : (a :: t).length ≤ u.length := Nat.not_le.mp hlt
  have hsuffix := List.suffix_of_suffix_length_le (List.suffix_append s (a :: t)) hu hle
  exact hfree (hsuffix.subset List.mem_cons_self)

theorem LastPart.unique {l t u : List α} (ht : LastPart a l t) (hu : LastPart a l u) : t = u := by
  have hlen : t.length = u.length :=
    Nat.le_antisymm (hu.longest t ht.suffix ht.free) (ht.longest u hu.suffix hu.free)
  exact (List.suffix_of_suffix_length_le ht.suffix hu.suffix (Nat.le_of_eq hlen)).eq_of_length hlen

theorem cut_last {l : List α} (h : a ∈ l) : ∃ s t, l = s ++ a :: t ∧ a ∉ t := by
  obtain ⟨t, s, hl, ht⟩ := List.eq_append_cons_of_mem (List.mem_reverse.mpr h)
  refine ⟨s.reverse, t.reverse, ?_, by rwa [List.mem_reverse]⟩
  rw [← List.reverse_reverse l, hl, List.reverse_append, List.reverse_cons, List.append_assoc,
    List.singleton_append]

variable [DecidableEq α]

/-- Parts are cut off in front until the separator is gone. -/
theorem parts_induction {motive : List α → Prop} (free : ∀ l, a ∉ l → motive l)
    (cut : ∀ p t, a ∉ p → motive t → motive (p ++ a :: t)) (l : List α) : motive l := by
  induction hn : l.length using Nat.strongRecOn generalizing l with
  | ind n ih =>
    by_cases h : a ∈ l
    · obtain ⟨p, t, rfl, hp⟩ := List.eq_append_cons_of_mem h
      have hlt : t.length < n := by
        rw [← hn, List.length_append, List.length_cons]
        omega
      exact cut p t hp (ih t.length hlt t rfl)
    · exact free l h

theorem idxOf_cut {p : List α} (h : a ∉ p) (t : List α) : (p ++ a :: t).idxOf? a = some p.length := by
  have hp : p.findIdx? (· == a) = none := List.idxOf?_eq_none_iff.mpr h
  rw [List.idxOf?, List.findIdx?_append, hp, List.findIdx?_cons, if_pos (beq_self_eq_true a)]
  simp

theorem splitOn_length (a : α) (l : List α) : (l.splitOn a).length = l.count a + 1 := by
  induction l using parts_induction (a := a) with
  | free l h => rw [List.splitOn_eq_singleton h, List.count_eq_zero.mpr h, List.length_singleton]
  | cut p t h ih =>
    rw [List.splitOn_append_cons_self_of_not_mem h, List.length_cons, ih, List.count_append,
      List.count_eq_zero.mpr h, List.count_cons_self, Nat.zero_add]

theorem not_mem_of_mem_splitOn {l p : List α} (hp : p ∈ l.splitOn a) : a ∉ p := by
  induction l using parts_induction (a := a) with
  | free l h =>
    rw [List.splitOn_eq_singleton h, List.mem_singleton] at hp
    rwa [hp]
  | cut q t h ih =>
    rw [List.splitOn_append_cons_self_of_not_mem h, List.mem_cons] at hp
    rcases hp with rfl | hp
    · exact h
    · exact ih hp

theorem splitOn_append_last (s : List α) {t : List α} (h : a ∉ t) :
    (s ++ a :: t).splitOn a = s.splitOn a ++ [t] := by
  rw [List.splitOn_append_cons_self, List.splitOn_eq_singleton h]

theorem splitOn_last (a : α) (l : List α) :
    ∃ front last, l.splitOn a = front ++ [last] ∧ LastPart a l last := by
  by_cases h : a ∈ l
  · obtain ⟨s, t, rfl, ht⟩ := cut_last h
    exact ⟨s.splitOn a, t, splitOn_append_last s ht, lastPart_append s ht⟩
  · exact ⟨[], l, List.splitOn_eq_singleton h, lastPart_self h⟩

end AndroidTvRemote.Separators
