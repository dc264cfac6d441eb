import AndroidTvRemote.SteadyTimer
import Mathlib.Logic.Relation
import Mathlib.Order.Nat

namespace AndroidTvRemote.SteadyTimer

open Relation

variable {σ ρ τ : Type}

namespace Timer

inductive Change [DecidableEq τ] : Timer τ → Timer τ → Prop
  | cancel (t : Timer τ) : Change t t.cancel
  | arm (t : Timer τ) (delay : ℕ) (c : τ) : Change t (asyncWait c (expiresAfter delay t))
  | expire {t t' : Timer τ} (h : t.expire = some t') : Change t t'
  | dequeue (t : Timer τ) (q : Wait τ × Code) : Change t (t.dequeue q)

abbrev Changes [DecidableEq τ] : Timer τ → Timer τ → Prop := ReflTransGen Change

/-- A wait of the current arming goes on, or its handler is queued with success. -/
def Awaits (t : Timer τ) (delay : ℕ) (c : τ) : Prop :=
  t.armed = some ⟨t.epoch, delay, c⟩ ∨ (⟨t.epoch, delay, c⟩, Code.success) ∈ t.queued

variable {t t' : Timer τ} {delay : ℕ} {c : τ}

theorem Change.epoch_le [DecidableEq τ] (h : Change t t') : t.epoch ≤ t'.epoch := by
  cases h with
  | cancel | arm => exact Nat.le_succ _
  | expire h =>
    obtain ⟨w, -, rfl⟩ := Option.map_eq_some_iff.mp h
    exact le_rfl
  | dequeue => exact le_rfl

theorem Change.awaits [DecidableEq τ] (h : Change t t') (he : t'.epoch = t.epoch)
    (hw : t'.Awaits delay c) : t.Awaits delay c := by
  cases h with
  | cancel | arm => exact absurd he (Nat.succ_ne_self _)
  | expire h =>
    obtain ⟨w, harmed, rfl⟩ := Option.map_eq_some_iff.mp h
    rcases hw with hnone | hq
    · cases hnone
    rcases List.mem_append.mp hq with hq | hq
    · exact .inr hq
    · obtain ⟨hwait, -⟩ := Prod.mk.inj (List.mem_singleton.mp hq)
      exact .inl (hwait ▸ harmed)
  | dequeue q => exact hw.imp_right List.mem_of_mem_erase

theorem Changes.epoch_le [DecidableEq τ] (h : Changes t t') : t.epoch ≤ t'.epoch := by
  induction h with
  | refl => exact le_rfl
  | tail _ hc ih => exact ih.trans hc.epoch_le

theorem Changes.awaits [DecidableEq τ] (h : Changes t t')
    (he : t'.epoch = t.epoch) (hw : t'.Awaits delay c) : t.Awaits delay c := by
  induction h with
  | refl => exact hw
  | @tail v u hv hc ih =>
    have hle : u.epoch ≤ v.epoch := he.trans_le (Changes.epoch_le hv)
    have hvu : u.epoch = v.epoch := hle.antisymm hc.epoch_le
    exact ih (hvu.symm.trans he) (hc.awaits hvu hw)

theorem Awaits.expire (h : t.Awaits delay c) (he : t.expire = some t') : t'.Awaits delay c := by
  obtain ⟨w, harmed, rfl⟩ := Option.map_eq_some_iff.mp he
  refine .inr ?_
  rcases h with h | h
  · rw [h] at harmed
    obtain rfl := Option.some.inj harmed
    exact List.mem_append_right _ (List.mem_singleton_self _)
  · exact List.mem_append_left _ h

theorem Awaits.dequeue [DecidableEq τ] (h : t.Awaits delay c) {q : Wait τ × Code}
    (hq : q ≠ (⟨t.epoch, delay, c⟩, .success)) : (t.dequeue q).Awaits delay c :=
  h.imp_right (List.mem_erase_of_ne hq.symm).mpr

theorem awaits_arm (t : Timer τ) (delay : ℕ) (c : τ) :
    (asyncWait c (expiresAfter delay t)).Awaits delay c := .inl rfl

/-- The clock may go on to a time: no expiry is missed, and the handlers of
waits that have expired run before it goes on. -/
def Permits (t : Timer τ) (setAt now time : ℕ) : Prop :=
  (∀ w ∈ t.armed, time ≤ setAt + w.delay) ∧ ∀ q ∈ t.queued, q.2 = .success → time = now

instance (t : Timer τ) (setAt now time : ℕ) : Decidable (t.Permits setAt now time) :=
  inferInstanceAs (Decidable (_ ∧ _))

def restamp (t t' : Timer τ) (setAt time : ℕ) : ℕ := if t'.epoch = t.epoch then setAt else time

def OnTime (t : Timer τ) (setAt now : ℕ) : Prop :=
  ∀ delay c, t.Awaits delay c → now ≤ setAt + delay

theorem OnTime.step [DecidableEq τ] {setAt now time : ℕ} (h : t.OnTime setAt now)
    (hp : t.Permits setAt now time) (hc : Changes t t') :
    t'.OnTime (t.restamp t' setAt time) time := by
  intro delay c hw
  unfold restamp
  split
  next he =>
    rcases hc.awaits he hw with harmed | hq
    · exact hp.1 _ harmed
    · rw [hp.2 _ hq rfl]
      exact h delay c (.inr hq)
  next => exact Nat.le_add_right _ _

end Timer

/-- A state of waiting that a timer is to end: what the wait captured, and the
records that tell when it was armed. -/
structure Vigil (σ ρ τ : Type) where
  waits : σ → Prop
  timer : σ → Timer τ
  captured : σ → τ
  tells : σ → ℕ → ρ → Prop

namespace Vigil

variable {v : Vigil σ ρ τ} {s s' s'' : σ} {l l' : List ρ}

/-- The system was waiting and goes on, or it began to wait and the records
`l` tell so. -/
def Kept (v : Vigil σ ρ τ) (s s' : σ) (l : List ρ) : Prop :=
  v.waits s' →
    (v.waits s ∧ (v.timer s').epoch = (v.timer s).epoch ∧
      ∀ delay r, (v.timer s).Awaits delay (v.captured s) → v.tells s delay r →
        (v.timer s').Awaits delay (v.captured s') ∧ v.tells s' delay r) ∨
    (v.timer s).epoch < (v.timer s').epoch ∧
      ∃ delay, (v.timer s').Awaits delay (v.captured s') ∧ ∃ r ∈ l, v.tells s' delay r

theorem kept_of_not (h : ¬ v.waits s') : v.Kept s s' l := fun hw ↦ absurd hw h

theorem kept_of_awaits (hw : v.waits s' → v.waits s) (he : (v.timer s').epoch = (v.timer s).epoch)
    (ha : v.waits s → ∀ delay, (v.timer s).Awaits delay (v.captured s) →
      (v.timer s').Awaits delay (v.captured s'))
    (htells : ∀ delay r, v.tells s delay r → v.tells s' delay r) : v.Kept s s' l :=
  fun hw' ↦ .inl ⟨hw hw', he, fun delay r hd hr ↦ ⟨ha (hw hw') delay hd, htells delay r hr⟩⟩

theorem kept_of_same (hw : v.waits s' → v.waits s) (ht : v.timer s' = v.timer s)
    (hc : v.captured s' = v.captured s) (htells : ∀ delay r, v.tells s delay r → v.tells s' delay r) :
    v.Kept s s' l := by
  refine kept_of_awaits hw (congrArg Timer.epoch ht) ?_ htells
  intro _ delay ha
  rwa [ht, hc]

structure GoesOn [DecidableEq τ] (v : Vigil σ ρ τ) (s : σ) (t : Timer τ) : Prop where
  changes : (v.timer s).Changes t
  epoch : t.epoch = (v.timer s).epoch
  awaits : v.waits s → ∀ delay, (v.timer s).Awaits delay (v.captured s) →
    t.Awaits delay (v.captured s)

theorem goesOn_refl [DecidableEq τ] (v : Vigil σ ρ τ) (s : σ) : v.GoesOn s (v.timer s) :=
  ⟨.refl, rfl, fun _ _ ↦ id⟩

theorem goesOn_expire [DecidableEq τ] {t : Timer τ} (h : (v.timer s).expire = some t) :
    v.GoesOn s t where
  changes := .single (.expire h)
  epoch := by
    obtain ⟨w, -, rfl⟩ := Option.map_eq_some_iff.mp h
    rfl
  awaits _ _ ha := ha.expire h

theorem goesOn_dequeue [DecidableEq τ] {q : Wait τ × Code}
    (hq : v.waits s → q.2 = .success → q.1.captured ≠ v.captured s) :
    v.GoesOn s ((v.timer s).dequeue q) where
  changes := .single (.dequeue _ q)
  epoch := rfl
  awaits hw delay ha := by
    refine ha.dequeue ?_
    rintro rfl
    exact hq hw rfl rfl

theorem Kept.trans [DecidableEq τ] (h : v.Kept s s' l) (h' : v.Kept s' s'' l')
    (hc : (v.timer s).Changes (v.timer s')) : v.Kept s s'' (l ++ l') := by
  intro hw
  rcases h' hw with ⟨hw', he', hgo'⟩ | ⟨hlt, delay, ha, r, hr, htells⟩
  · rcases h hw' with ⟨hw, he, hgo⟩ | ⟨hlt, delay, ha, r, hr, htells⟩
    · refine .inl ⟨hw, he'.trans he, ?_⟩
      intro delay r ha hr
      obtain ⟨ha', hr'⟩ := hgo delay r ha hr
      exact hgo' delay r ha' hr'
    · obtain ⟨ha', htells'⟩ := hgo' delay r ha htells
      exact .inr ⟨he' ▸ hlt, delay, ha', r, List.mem_append_left _ hr, htells'⟩
  · exact .inr ⟨hc.epoch_le.trans_lt hlt, delay, ha, r, List.mem_append_right _ hr, htells⟩

/-- Under a clock: no wait is overdue, and a waiting system has a wait that was
armed when one of its records says. -/
structure Watched (v : Vigil σ ρ τ) (s : σ) (stamped : List (ℕ × ρ)) (setAt now : ℕ) : Prop where
  onTime : (v.timer s).OnTime setAt now
  watched : v.waits s → ∃ delay, (v.timer s).Awaits delay (v.captured s) ∧
    ∃ r, (setAt, r) ∈ stamped ∧ v.tells s delay r

theorem Watched.step [DecidableEq τ] {stamped : List (ℕ × ρ)} {setAt now time : ℕ}
    (h : v.Watched s stamped setAt now) (hp : (v.timer s).Permits setAt now time)
    (hc : (v.timer s).Changes (v.timer s')) (hk : v.Kept s s' l) :
    v.Watched s' (stamped ++ l.map (Prod.mk time))
      ((v.timer s).restamp (v.timer s') setAt time) time := by
  refine ⟨h.onTime.step hp hc, ?_⟩
  intro hw
  rcases hk hw with ⟨hw, he, hgo⟩ | ⟨hlt, delay, ha, r, hr, htells⟩
  · obtain ⟨delay, ha, r, hr, htells⟩ := h.watched hw
    obtain ⟨ha', htells'⟩ := hgo delay r ha htells
    rw [Timer.restamp, if_pos he]
    exact ⟨delay, ha', r, List.mem_append_left _ hr, htells'⟩
  · rw [Timer.restamp, if_neg hlt.ne']
    exact ⟨delay, ha, r, List.mem_append_right _ (List.mem_map.mpr ⟨r, hr, rfl⟩), htells⟩

theorem Watched.bound {stamped : List (ℕ × ρ)} {setAt now : ℕ}
    (h : v.Watched s stamped setAt now) (hw : v.waits s) :
    ∃ delay, ∃ x ∈ stamped, v.tells s delay x.2 ∧ now ≤ x.1 + delay := by
  obtain ⟨delay, ha, r, hr, htells⟩ := h.watched hw
  exact ⟨delay, (setAt, r), hr, htells, h.onTime delay _ ha⟩

end Vigil

end AndroidTvRemote.SteadyTimer
