import Mathlib.Data.List.Basic

namespace AndroidTvRemote.SteadyTimer

variable {τ : Type}

inductive Code
  | success
  | aborted
  deriving DecidableEq, Repr

/-- One asynchronous wait: the arming it belongs to, its duration and what its
handler captured. -/
structure Wait (τ : Type) where
  epoch : ℕ
  delay : ℕ
  captured : τ
  deriving DecidableEq, Repr

/-- A timer with at most one wait that has not expired. A wait that expired
or was cancelled leaves its handler queued, with the code settled then. The
epoch counts the calls that cancel. -/
structure Timer (τ : Type) where
  epoch : ℕ := 0
  delay : ℕ := 0
  armed : Option (Wait τ) := none
  queued : List (Wait τ × Code) := []
  deriving DecidableEq, Repr

namespace Timer

def cancel (t : Timer τ) : Timer τ :=
  { t with
    epoch := t.epoch + 1
    armed := none
    queued := t.queued ++ (t.armed.map fun w ↦ (w, Code.aborted)).toList }

def expiresAfter (delay : ℕ) (t : Timer τ) : Timer τ := { t.cancel with delay }

def asyncWait (captured : τ) (t : Timer τ) : Timer τ :=
  { t with armed := some ⟨t.epoch, t.delay, captured⟩ }

def expire (t : Timer τ) : Option (Timer τ) :=
  t.armed.map fun w ↦ { t with armed := none, queued := t.queued ++ [(w, Code.success)] }

def dequeue [DecidableEq τ] (q : Wait τ × Code) (t : Timer τ) : Timer τ :=
  { t with queued := t.queued.erase q }

/-- The timer was cancelled or armed again after the wait was armed. -/
def Superseded (t : Timer τ) (w : Wait τ) : Prop := w.epoch ≠ t.epoch

instance (t : Timer τ) (w : Wait τ) : Decidable (t.Superseded w) :=
  inferInstanceAs (Decidable (_ ≠ _))

/-- A wait of the current arming has not run yet. -/
def Pending (t : Timer τ) : Prop :=
  ∃ w, w.epoch = t.epoch ∧ (t.armed = some w ∨ (w, Code.success) ∈ t.queued)

def Captures (P : τ → Prop) (t : Timer τ) : Prop :=
  (∀ w, t.armed = some w → P w.captured) ∧ ∀ q ∈ t.queued, P q.1.captured

theorem pending_arm (delay : ℕ) (c : τ) (t : Timer τ) :
    (asyncWait c (expiresAfter delay t)).Pending :=
  ⟨⟨t.epoch + 1, delay, c⟩, rfl, .inl rfl⟩

theorem Pending.expire {t t' : Timer τ} (h : t.Pending) (he : t.expire = some t') :
    t'.Pending := by
  obtain ⟨w, hw, hq⟩ := h
  obtain ⟨w', ha, rfl⟩ := Option.map_eq_some_iff.mp he
  refine ⟨w, hw, .inr ?_⟩
  rcases hq with hq | hq
  · rw [hq] at ha
    obtain rfl := Option.some.inj ha
    simp
  · simp [hq]

theorem Pending.dequeue [DecidableEq τ] {t : Timer τ} {q : Wait τ × Code} (h : t.Pending)
    (hq : q.2 = .aborted) : (t.dequeue q).Pending := by
  obtain ⟨w, hw, ha | hm⟩ := h
  · exact ⟨w, hw, .inl ha⟩
  · refine ⟨w, hw, .inr ((List.mem_erase_of_ne ?_).mpr hm)⟩
    rintro rfl
    cases hq

theorem captures_new (P : τ → Prop) : ({} : Timer τ).Captures P :=
  ⟨fun _ h ↦ (by cases h), fun _ h ↦ (by cases h)⟩

theorem Captures.cancel {P : τ → Prop} {t : Timer τ} (h : t.Captures P) :
    t.cancel.Captures P := by
  refine ⟨fun w hw ↦ (by cases hw), ?_⟩
  intro q hq
  rcases List.mem_append.mp hq with hq | hq
  · exact h.2 q hq
  · obtain ⟨w, hw, rfl⟩ := Option.map_eq_some_iff.mp (Option.mem_toList.mp hq)
    exact h.1 w hw

theorem Captures.arm {P : τ → Prop} {t : Timer τ} (h : t.Captures P) (delay : ℕ) {c : τ}
    (hc : P c) : (asyncWait c (expiresAfter delay t)).Captures P := by
  refine ⟨?_, h.cancel.2⟩
  intro w hw
  obtain rfl := Option.some.inj hw
  exact hc

theorem Captures.expire {P : τ → Prop} {t t' : Timer τ} (h : t.Captures P)
    (he : t.expire = some t') : t'.Captures P := by
  obtain ⟨w, ha, rfl⟩ := Option.map_eq_some_iff.mp he
  refine ⟨fun w hw ↦ (by cases hw), ?_⟩
  intro q hq
  rcases List.mem_append.mp hq with hq | hq
  · exact h.2 q hq
  · obtain rfl := List.mem_singleton.mp hq
    exact h.1 w ha

theorem Captures.dequeue [DecidableEq τ] {P : τ → Prop} {t : Timer τ} (h : t.Captures P)
    (q : Wait τ × Code) : (t.dequeue q).Captures P :=
  ⟨h.1, fun q' hq' ↦ h.2 q' (List.mem_of_mem_erase hq')⟩

theorem Captures.mono {P Q : τ → Prop} {t : Timer τ} (h : t.Captures P) (hPQ : ∀ c, P c → Q c) :
    t.Captures Q :=
  ⟨fun w hw ↦ hPQ _ (h.1 w hw), fun q hq ↦ hPQ _ (h.2 q hq)⟩

end Timer

end AndroidTvRemote.SteadyTimer
