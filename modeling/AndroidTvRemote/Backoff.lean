import AndroidTvRemote.Runs
import AndroidTvRemote.SteadyTimer
import Mathlib.Algebra.Ring.Nat
import Mathlib.Data.List.Perm.Basic
import Mathlib.Order.MinMax

namespace AndroidTvRemote.Backoff

open SteadyTimer Runs

/-- How failures are followed by attempts: the first wait, the longest one, and
whether there are waits at all. -/
structure Policy where
  base : ℕ
  cap : ℕ
  enabled : Bool

/-- What a policy is told: attempts are asked for and called off, one succeeds
or fails, a wait expires, the handler of a wait runs. -/
inductive Act
  | start
  | stop
  | succeed
  | fail
  | expire
  | run (q : Wait Unit × Code)
  deriving DecidableEq

inductive Output
  | succeeded
  | failed
  | armed (delay : ℕ)
  deriving DecidableEq

structure State where
  delay : ℕ
  timer : Timer Unit := {}

def step (p : Policy) (s : State) : Act → Option State
  | .start => some ⟨p.base, s.timer.cancel⟩
  | .stop => some { s with timer := s.timer.cancel }
  | .succeed => some { s with delay := p.base }
  | .fail =>
    if p.enabled then
      some ⟨min (s.delay * 2) p.cap, (s.timer.expiresAfter s.delay).asyncWait ()⟩
    else some s
  | .expire => s.timer.expire.map fun t ↦ { s with timer := t }
  | .run q => if s.timer.queued.contains q then some { s with timer := s.timer.dequeue q } else none

/-- What comes of the acts when the next wait has a given delay. -/
def outputs (p : Policy) : ℕ → List Act → List Output
  | _, [] => []
  | _, .start :: acts => outputs p p.base acts
  | _, .succeed :: acts => .succeeded :: outputs p p.base acts
  | d, .fail :: acts =>
    if p.enabled then .failed :: .armed d :: outputs p (min (d * 2) p.cap) acts
    else .failed :: outputs p d acts
  | d, .stop :: acts | d, .expire :: acts | d, .run _ :: acts => outputs p d acts

variable {p : Policy} {s t : State} {acts : List Act}

theorem outputs_append (h : Run (step p) s acts t) (acts' : List Act) :
    outputs p s.delay (acts ++ acts') = outputs p s.delay acts ++ outputs p t.delay acts' := by
  induction h with
  | nil => rfl
  | @cons s t u act acts hs _ ih =>
    cases act with
    | start =>
      obtain rfl := Option.some.inj hs
      exact ih
    | stop =>
      obtain rfl := Option.some.inj hs
      exact ih
    | succeed =>
      obtain rfl := Option.some.inj hs
      exact congrArg (Output.succeeded :: ·) ih
    | fail =>
      simp only [List.cons_append, outputs]
      rw [step] at hs
      split at hs
      next he =>
        obtain rfl := Option.some.inj hs
        rw [if_pos he, if_pos he, ih]
        rfl
      next he =>
        obtain rfl := Option.some.inj hs
        rw [if_neg he, if_neg he, ih]
        rfl
    | expire =>
      obtain ⟨_, -, rfl⟩ := Option.map_eq_some_iff.mp hs
      exact ih
    | run q =>
      obtain ⟨-, ⟨⟩⟩ := (Option.ite_none_right_eq_some ..).mp hs
      exact ih

theorem double_capped (b c k : ℕ) : min (min (b * 2 ^ k) c * 2) c = min (b * 2 ^ (k + 1)) c := by
  have hpow : b * 2 ^ (k + 1) = b * 2 ^ k * 2 := by rw [Nat.pow_succ, Nat.mul_assoc]
  omega

/-- As long as nothing resets it, the delay doubles with every failure up to
the cap. -/
theorem outputs_eq (hp : p.enabled = true) (hstart : .start ∉ acts) (hsucc : .succeed ∉ acts)
    (k : ℕ) : outputs p (min (p.base * 2 ^ k) p.cap) acts =
      (List.range (acts.count .fail)).flatMap fun i ↦
        [.failed, .armed (min (p.base * 2 ^ (k + i)) p.cap)] := by
  induction acts generalizing k with
  | nil => rfl
  | cons act acts ih =>
    rw [List.mem_cons, not_or] at hstart hsucc
    replace ih := ih hstart.2 hsucc.2
    cases act with
    | start => exact absurd rfl hstart.1
    | succeed => exact absurd rfl hsucc.1
    | fail =>
      rw [outputs, if_pos hp, double_capped, ih, List.count_cons_self, List.range_succ_eq_map,
        List.flatMap_cons, List.flatMap_map]
      simp only [List.cons_append, List.nil_append, Nat.add_zero, Nat.succ_eq_add_one,
        Nat.add_assoc, Nat.add_comm 1]
    | _ =>
      rw [outputs, ih k, List.count_cons_of_ne (by simp)]

theorem delay_bounded (hp : p.base ≤ p.cap) (h : Run (step p) s acts t)
    (hs : p.base ≤ s.delay ∧ s.delay ≤ p.cap) : p.base ≤ t.delay ∧ t.delay ≤ p.cap := by
  refine h.invariant (I := fun s ↦ p.base ≤ s.delay ∧ s.delay ≤ p.cap) ?_ hs
  intro s act t ⟨hlow, hhigh⟩ ht
  cases act with
  | start =>
    obtain rfl := Option.some.inj ht
    exact ⟨le_rfl, hp⟩
  | stop =>
    obtain rfl := Option.some.inj ht
    exact ⟨hlow, hhigh⟩
  | succeed =>
    obtain rfl := Option.some.inj ht
    exact ⟨le_rfl, hp⟩
  | fail =>
    rw [step] at ht
    split at ht
    · obtain rfl := Option.some.inj ht
      refine ⟨le_min ?_ hp, min_le_right _ _⟩
      omega
    · obtain rfl := Option.some.inj ht
      exact ⟨hlow, hhigh⟩
  | expire =>
    obtain ⟨_, -, rfl⟩ := Option.map_eq_some_iff.mp ht
    exact ⟨hlow, hhigh⟩
  | run q =>
    obtain ⟨-, ⟨⟩⟩ := (Option.ite_none_right_eq_some ..).mp ht
    exact ⟨hlow, hhigh⟩

theorem armed_of_step {act : Act} (h : step p s act = some t) (hact : act ≠ .fail)
    {w : Wait Unit} (hw : t.timer.armed = some w) : s.timer.armed = some w := by
  cases act with
  | start =>
    obtain rfl := Option.some.inj h
    cases hw
  | stop =>
    obtain rfl := Option.some.inj h
    cases hw
  | succeed =>
    obtain rfl := Option.some.inj h
    exact hw
  | fail => exact absurd rfl hact
  | expire =>
    obtain ⟨_, ht, rfl⟩ := Option.map_eq_some_iff.mp h
    obtain ⟨_, -, rfl⟩ := Option.map_eq_some_iff.mp ht
    cases hw
  | run q =>
    obtain ⟨-, ⟨⟩⟩ := (Option.ite_none_right_eq_some ..).mp h
    exact hw

section Waits

def Output.armedDelay : Output → Option ℕ
  | armed d => some d
  | _ => none

theorem armedDelay_length (d : ℕ) : ((outputs p d acts).filterMap Output.armedDelay).length =
    if p.enabled then acts.count .fail else 0 := by
  induction acts generalizing d with
  | nil => cases p.enabled <;> rfl
  | cons act acts ih =>
    cases act with
    | succeed => simpa [outputs, List.filterMap_cons, Output.armedDelay] using ih p.base
    | fail =>
      rw [outputs]
      split
      next he => simpa [List.filterMap_cons, Output.armedDelay, he] using ih _
      next he => simpa [List.filterMap_cons, Output.armedDelay, he] using ih d
    | _ => simpa [outputs] using ih _

def Act.ran : Act → Option (Wait Unit)
  | run q => some q.1
  | _ => none

/-- Every wait that was armed is still armed, or its handler is queued, or its
handler has run, and it has an epoch of its own. -/
structure Kept (armings ran : List (Wait Unit)) (t : Timer Unit) : Prop where
  perm : (ran ++ (t.queued.map Prod.fst ++ t.armed.toList)).Perm armings
  epochs : (armings.map Wait.epoch).Nodup
  le : ∀ w ∈ armings, w.epoch ≤ t.epoch

variable {armings ran : List (Wait Unit)} {timer : Timer Unit}

theorem queued_cancel (t : Timer Unit) :
    t.cancel.queued.map Prod.fst = t.queued.map Prod.fst ++ t.armed.toList := by
  cases h : t.armed <;> simp [Timer.cancel, h]

theorem Kept.cancel (h : Kept armings ran timer) : Kept armings ran timer.cancel := by
  refine ⟨?_, h.epochs, fun w hw ↦ Nat.le_succ_of_le (h.le w hw)⟩
  rw [queued_cancel]
  simpa [Timer.cancel] using h.perm

theorem Kept.arm (h : Kept armings ran timer) (delay : ℕ) :
    Kept (armings ++ [⟨timer.epoch + 1, delay, ()⟩]) ran
      ((timer.expiresAfter delay).asyncWait ()) := by
  refine ⟨?_, ?_, ?_⟩
  · have hqueued : ((timer.expiresAfter delay).asyncWait ()).queued.map Prod.fst =
        timer.queued.map Prod.fst ++ timer.armed.toList := queued_cancel timer
    rw [hqueued, ← List.append_assoc]
    exact h.perm.append_right _
  · rw [List.map_append, List.nodup_append]
    refine ⟨h.epochs, by simp, ?_⟩
    rintro epoch hmem epoch' hnew rfl
    obtain ⟨w, hw, rfl⟩ := List.mem_map.mp hmem
    have hle := h.le w hw
    have heq : w.epoch = timer.epoch + 1 := by simpa using hnew
    omega
  · intro w hw
    rcases List.mem_append.mp hw with hw | hw
    · exact Nat.le_succ_of_le (h.le w hw)
    · obtain rfl := List.mem_singleton.mp hw
      exact le_rfl

theorem Kept.expire {timer' : Timer Unit} (h : Kept armings ran timer)
    (ht : timer.expire = some timer') : Kept armings ran timer' := by
  obtain ⟨w, harmed, rfl⟩ := Option.map_eq_some_iff.mp ht
  refine ⟨?_, h.epochs, h.le⟩
  simpa [harmed] using h.perm

theorem Kept.run {q : Wait Unit × Code} (h : Kept armings ran timer) (hq : q ∈ timer.queued) :
    Kept armings (ran ++ [q.1]) (timer.dequeue q) := by
  refine ⟨?_, h.epochs, h.le⟩
  refine List.Perm.trans ?_ h.perm
  have hperm := (List.perm_cons_erase hq).symm.map Prod.fst
  rw [List.append_assoc]
  exact (hperm.append_right timer.armed.toList).append_left ran

theorem Kept.step {act : Act} (h : Kept armings ran s.timer) (ht : step p s act = some t) :
    ∃ news, Kept (armings ++ news) (ran ++ act.ran.toList) t.timer ∧
      news.map Wait.delay = (outputs p s.delay [act]).filterMap Output.armedDelay := by
  cases act with
  | start =>
    obtain rfl := Option.some.inj ht
    exact ⟨[], by simpa [Act.ran] using h.cancel, rfl⟩
  | stop =>
    obtain rfl := Option.some.inj ht
    exact ⟨[], by simpa [Act.ran] using h.cancel, rfl⟩
  | succeed =>
    obtain rfl := Option.some.inj ht
    exact ⟨[], by simpa [Act.ran] using h, rfl⟩
  | fail =>
    rw [Backoff.step] at ht
    rw [outputs]
    split at ht
    next he =>
      obtain rfl := Option.some.inj ht
      rw [if_pos he]
      exact ⟨[⟨s.timer.epoch + 1, s.delay, ()⟩], by simpa [Act.ran] using h.arm s.delay, rfl⟩
    next he =>
      obtain rfl := Option.some.inj ht
      rw [if_neg he]
      exact ⟨[], by simpa [Act.ran] using h, rfl⟩
  | expire =>
    obtain ⟨timer, htimer, rfl⟩ := Option.map_eq_some_iff.mp ht
    exact ⟨[], by simpa [Act.ran] using h.expire htimer, rfl⟩
  | run q =>
    obtain ⟨hq, ⟨⟩⟩ := (Option.ite_none_right_eq_some ..).mp ht
    exact ⟨[], by simpa [Act.ran] using h.run (List.contains_iff_mem.mp hq), rfl⟩

theorem kept_run {d : ℕ} (h : Run (step p) ⟨d, {}⟩ acts s) :
    ∃ armings, Kept armings (acts.filterMap Act.ran) s.timer ∧
      armings.map Wait.delay = (outputs p d acts).filterMap Output.armedDelay := by
  refine h.history (H := fun acts s ↦ ∃ armings, Kept armings (acts.filterMap Act.ran) s.timer ∧
    armings.map Wait.delay = (outputs p d acts).filterMap Output.armedDelay)
    ⟨[], ⟨.refl _, by simp, by simp⟩, rfl⟩ ?_
  rintro acts s act t hrun ⟨armings, hkept, hdelays⟩ ht
  obtain ⟨news, hkept', hnews⟩ := hkept.step ht
  have hran : [act].filterMap Act.ran = act.ran.toList := by cases act <;> rfl
  refine ⟨armings ++ news, ?_, ?_⟩
  · rw [List.filterMap_append, hran]
    exact hkept'
  · rw [outputs_append hrun, List.filterMap_append, List.map_append, hdelays, hnews]

end Waits

end AndroidTvRemote.Backoff
