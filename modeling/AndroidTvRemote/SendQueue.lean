import Mathlib.Data.List.Basic

namespace AndroidTvRemote

variable {α : Type}

/-- A queue emptied by one write at a time, with the history of what was
pushed to it and of the writes begun. -/
structure SendQueue (α : Type) where
  queue : List α := []
  busy : Bool := false
  pushed : List α := []
  written : List α := []

namespace SendQueue

def begin (s : SendQueue α) : SendQueue α :=
  match s.queue with
  | [] => { s with busy := false }
  | a :: _ => { s with busy := true, written := s.written ++ [a] }

def push (a : α) (s : SendQueue α) : SendQueue α :=
  let s' := { s with queue := s.queue ++ [a], pushed := s.pushed ++ [a] }
  if s.busy then s' else s'.begin

def complete (s : SendQueue α) : SendQueue α := { s with queue := s.queue.tail }.begin

/-- The front is the one buffer being written; everything behind it is still
to be written, in the order of the pushes. -/
structure Orderly (s : SendQueue α) : Prop where
  busy_iff : s.busy = !s.queue.isEmpty
  pushed_eq : s.pushed = s.written ++ s.queue.tail
  front : ∀ a, s.queue.head? = some a → s.written.getLast? = some a

theorem orderly_new : ({} : SendQueue α).Orderly :=
  ⟨rfl, rfl, fun _ h ↦ (by cases h)⟩

theorem Orderly.push {s : SendQueue α} (h : s.Orderly) (a : α) : (s.push a).Orderly := by
  cases hq : s.queue with
  | nil =>
    have hb : s.busy = false := by simp [h.busy_iff, hq]
    have hp : s.pushed = s.written := by simp [h.pushed_eq, hq]
    constructor <;> simp [SendQueue.push, SendQueue.begin, hb, hq, hp]
  | cons b q =>
    have hb : s.busy = true := by simp [h.busy_iff, hq]
    have hf := h.front b (by simp [hq])
    constructor <;> simp [SendQueue.push, hb, hq, hf, h.pushed_eq]

theorem Orderly.complete {s : SendQueue α} (h : s.Orderly) (hb : s.busy = true) :
    s.complete.Orderly := by
  rcases hq : s.queue with _ | ⟨a, _ | ⟨b, q⟩⟩
  · simp [h.busy_iff, hq] at hb
  all_goals
    constructor <;> simp [SendQueue.complete, SendQueue.begin, h.pushed_eq, hq]

theorem Orderly.written_first {s : SendQueue α} (h : s.Orderly) : s.written <+: s.pushed :=
  ⟨s.queue.tail, h.pushed_eq.symm⟩

end SendQueue

end AndroidTvRemote
