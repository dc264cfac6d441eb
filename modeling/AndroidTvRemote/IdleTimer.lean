import AndroidTvRemote.Deeds

namespace AndroidTvRemote

open Wire Protocol SteadyTimer Runs Relation

/-- The records of messages queued and of frames received. -/
def Record.isMessage : Record → Bool
  | queued _ | received _ => true
  | _ => false

theorem Record.isMessage_of_isChore {r : Record} (h : r.isChore = true) : r.isMessage = false := by
  cases r <;> first | rfl | cases h

theorem Record.isMessage_of_isSetup {r : Record} (h : r.isSetup = true) : r.isMessage = false := by
  cases r <;> first | rfl | cases h

namespace World

def Rearmed (w w' : World) : Prop :=
  w.idleTimer.epoch < w'.idleTimer.epoch ∧
    w'.idleTimer.armed = some ⟨w'.idleTimer.epoch, idleTimeout, w.impl.generation⟩

def SameIdle (w w' : World) : Prop :=
  w'.idleTimer.epoch = w.idleTimer.epoch ∧ w'.idleTimer.armed = w.idleTimer.armed

structure Tends (w w' : World) : Prop where
  generation : w'.impl.generation = w.impl.generation
  queued : ∀ q ∈ w'.idleTimer.queued, q.2 = .success → q ∈ w.idleTimer.queued
  trace : ∃ l, w'.trace = w.trace ++ l ∧
    (Rearmed w w' ∨ (∀ r ∈ l, r.2.isMessage = false) ∧ SameIdle w w')

/-- The same of a step that may end the connection and call the timer off. -/
structure Watches (w w' : World) : Prop where
  queued : ∀ q ∈ w'.idleTimer.queued, q.2 = .success → q ∈ w.idleTimer.queued
  trace : ∃ l, w'.trace = w.trace ++ l ∧ (Rearmed w w' ∨ (∀ r ∈ l, r.2.isMessage = false) ∧
    (SameIdle w w' ∨ w.idleTimer.epoch < w'.idleTimer.epoch ∧ w'.idleTimer.armed = none))

section Tends

variable {w v w' : World}

theorem tends_of_eq (hg : w'.impl.generation = w.impl.generation)
    (hi : w'.idleTimer = w.idleTimer) {l : List (ℕ × Record)} (ht : w'.trace = w.trace ++ l)
    (hl : ∀ r ∈ l, r.2.isMessage = false) : Tends w w' := by
  refine ⟨hg, ?_, l, ht, .inr ⟨hl, ?_⟩⟩
  · rw [hi]
    exact fun q hq _ ↦ hq
  · rw [SameIdle, hi]
    exact ⟨rfl, rfl⟩

theorem tends_log (w : World) {r : Record} (hr : r.isMessage = false) : Tends w (w.log r) :=
  tends_of_eq rfl rfl (log_trace w r) (by simp [hr])

theorem success_of_cancel {t : Timer ℕ} {q : Wait ℕ × Code} (hq : q ∈ t.cancel.queued)
    (hs : q.2 = .success) : q ∈ t.queued := by
  rcases List.mem_append.mp hq with hq | hq
  · exact hq
  · obtain ⟨_, -, rfl⟩ := Option.map_eq_some_iff.mp (Option.mem_toList.mp hq)
    cases hs

theorem tends_rearm (hg : w'.impl.generation = w.impl.generation)
    (hi : w'.idleTimer = w.resetIdleTimer.idleTimer) {l : List (ℕ × Record)}
    (ht : w'.trace = w.trace ++ l) : Tends w w' := by
  refine ⟨hg, ?_, l, ht, .inl ?_⟩
  · rw [hi]
    exact fun q hq hs ↦ success_of_cancel hq hs
  · rw [Rearmed, hi]
    exact ⟨Nat.lt_succ_self _, rfl⟩

theorem tends_dequeue (w : World) (q : Wait ℕ × Code) :
    Tends w { w with idleTimer := w.idleTimer.dequeue q } :=
  ⟨rfl, fun _ hq' _ ↦ List.mem_of_mem_erase hq', [], (List.append_nil _).symm,
    .inr ⟨by simp, rfl, rfl⟩⟩

theorem Tends.refl (w : World) : Tends w w := tends_of_eq rfl rfl (List.append_nil _).symm (by simp)

theorem Rearmed.of_same (h : Rearmed w v) (hs : SameIdle v w') : Rearmed w w' := by
  rw [Rearmed, hs.1, hs.2]
  exact h

theorem Rearmed.after (h : Rearmed v w') (hg : v.impl.generation = w.impl.generation)
    (hle : w.idleTimer.epoch ≤ v.idleTimer.epoch) : Rearmed w w' := by
  obtain ⟨hlt, harmed⟩ := h
  exact ⟨hle.trans_lt hlt, hg ▸ harmed⟩

theorem Tends.epoch_le (h : Tends w v) : w.idleTimer.epoch ≤ v.idleTimer.epoch := by
  obtain ⟨l, -, hr | ⟨-, hs⟩⟩ := h.trace
  · exact hr.1.le
  · exact hs.1.ge

theorem Tends.trans (h : Tends w v) (h' : Tends v w') : Tends w w' := by
  obtain ⟨l, ht, hl⟩ := h.trace
  obtain ⟨l', ht', hl'⟩ := h'.trace
  refine ⟨h'.generation.trans h.generation,
    fun q hq hs ↦ h.queued q (h'.queued q hq hs) hs, l ++ l', ?_, ?_⟩
  · rw [ht', ht, List.append_assoc]
  rcases hl' with hr' | ⟨hl', hs'⟩
  · exact .inl (hr'.after h.generation h.epoch_le)
  rcases hl with hr | ⟨hl, hs⟩
  · exact .inl (hr.of_same hs')
  refine .inr ⟨?_, hs'.1.trans hs.1, hs'.2.trans hs.2⟩
  exact List.forall_mem_append.mpr ⟨hl, hl'⟩

theorem Chore.tends (h : Chore w w') : Tends w w' := by
  cases h with
  | log r hr => exact tends_log w (Record.isMessage_of_isChore hr)
  | tune i hi =>
    exact tends_of_eq (congrArg Ground.generation hi) rfl (List.append_nil _).symm (by simp)
  | await | queue => exact tends_rearm rfl rfl rfl
  | hush | write => exact tends_of_eq rfl rfl (List.append_nil _).symm (by simp)

theorem Task.tends (h : Task w w') : Tends w w' := by
  cases h with
  | chore h => exact h.tends
  | consume | read | start => exact tends_of_eq rfl rfl (List.append_nil _).symm (by simp)
  | frame m => exact tends_rearm rfl rfl rfl

theorem Tasks.tends (h : Tasks w w') : Tends w w' := by
  induction h with
  | refl => exact .refl w
  | tail _ ht ih => exact ih.trans ht.tends

theorem Tends.watches (h : Tends w v) (hi : w'.idleTimer = v.idleTimer)
    {l : List (ℕ × Record)} (ht : w'.trace = v.trace ++ l)
    (hl : ∀ r ∈ l, r.2.isMessage = false) : Watches w w' := by
  have hend : Tends v { v with trace := v.trace ++ l } := tends_of_eq rfl rfl rfl hl
  obtain ⟨l', ht', hl'⟩ := (h.trans hend).trace
  refine ⟨?_, l', ht.trans ht', ?_⟩
  · rw [hi]
    exact h.queued
  · rw [Rearmed, SameIdle, hi]
    exact hl'.imp_right fun ⟨hl', hs⟩ ↦ ⟨hl', .inl hs⟩

theorem watches_cancel (hi : w'.idleTimer = w.idleTimer.cancel) {l : List (ℕ × Record)}
    (ht : w'.trace = w.trace ++ l) (hl : ∀ r ∈ l, r.2.isMessage = false) : Watches w w' := by
  refine ⟨?_, l, ht, .inr ⟨hl, .inr ?_⟩⟩
  · rw [hi]
    exact fun q hq hs ↦ success_of_cancel hq hs
  · rw [hi]
    exact ⟨Nat.lt_succ_self _, rfl⟩

end Tends

section Step

variable {w w' : World}

theorem quiet_lose (hu : w.impl.userDisconnect = false) (ha : w.impl.shuttingDown = false) :
    (w.handleConnectionLoss w.impl.generation).idleTimer = w.idleTimer ∧
      ∃ l, (w.handleConnectionLoss w.impl.generation).trace = w.trace ++ l ∧
        ∀ r ∈ l, r.2.isMessage = false := by
  rw [handleConnectionLoss_spec hu ha]
  simp only [List.append_assoc]
  split <;> split <;> exact ⟨rfl, _, rfl, by simp [Record.isMessage]⟩

theorem quiet_refuse (error : String) (hu : w.impl.userDisconnect = false)
    (ha : w.impl.shuttingDown = false) :
    (w.authenticationFailed error w.impl.generation).idleTimer = w.idleTimer ∧
      ∃ l, (w.authenticationFailed error w.impl.generation).trace = w.trace ++ l ∧
        ∀ r ∈ l, r.2.isMessage = false := by
  rw [authenticationFailed_spec error hu ha]
  simp only [List.append_assoc]
  split <;> exact ⟨rfl, _, rfl, by simp [Record.isMessage]⟩

theorem watches_beginConnect {v : World} (ha : v.impl.shuttingDown = false)
    (hu : v.impl.userDisconnect = false) (hi : v.idleTimer = w.idleTimer)
    (ht : v.trace = w.trace) (reconnecting : Bool) (a : IdentityAttempt) :
    Watches w (v.beginConnect reconnecting a) := by
  obtain ⟨i, n, ops, l, heq, -, -, -, hl⟩ := beginConnect_frame ha hu reconnecting a
  rw [heq]
  refine (Tends.refl w).watches hi (congrArg (· ++ l) ht) ?_
  intro r hr
  exact Record.isMessage_of_isSetup (hl r hr)

theorem watches_onReconnectWait (ha : w.impl.shuttingDown = false) (code : Code)
    (a : IdentityAttempt) (t : Timer Unit) :
    Watches w ({ w with reconnectTimer := t }.onReconnectWait code a) := by
  unfold onReconnectWait
  split_ifs with hg
  · refine watches_beginConnect ?_ hg.2 ?_ ?_ true a
    · exact ha
    all_goals rfl
  · exact (Tends.refl w).watches rfl (List.append_nil _).symm (by simp)

theorem Deed.watches {e : Event} (h : Deed w e w') (ha : w.impl.shuttingDown = false)
    (hempty : ¬ e.EmptyFrame w) (hexpires : e ≠ .idleExpires) : Watches w w' := by
  have hnil : ∀ v : World, v.trace = v.trace ++ [] := fun v ↦ (List.append_nil _).symm
  cases h with
  | work _ h => exact h.tends.watches rfl (hnil w') (by simp)
  | emptyFrame he => exact absurd he hempty
  | @handshake _ v _ _ h h' =>
    have harm : Tends v { v.resetIdleTimer.log .handshake with impl.reconnectDelay := 100 } :=
      tends_rearm rfl rfl rfl
    exact ((h.tends.trans harm).trans h'.tends).watches rfl (hnil w') (by simp)
  | lose _ h hu ha =>
    obtain ⟨hi, l, ht, hl⟩ := quiet_lose hu ha
    exact h.tends.watches hi ht hl
  | refuse _ h hu ha error =>
    obtain ⟨hi, l, ht, hl⟩ := quiet_refuse error hu ha
    exact h.tends.watches hi ht hl
  | connect a =>
    refine watches_beginConnect ?_ ?_ ?_ ?_ false a
    · exact ha
    all_goals rfl
  | disconnect =>
    exact watches_cancel rfl (List.append_assoc _ _ _) (by simp [Record.isMessage])
  | disconnectAndWait => exact watches_cancel rfl rfl (by simp [Record.isMessage])
  | reconnectExpires t => exact (Tends.refl w).watches rfl (hnil w) (by simp)
  | idleExpires => exact absurd rfl hexpires
  | reconnectWait q a => exact watches_onReconnectWait ha q.2 a _
  | idleSkip q => exact (tends_dequeue w q).watches rfl (hnil w) (by simp)
  | idleClose q _ _ _ hu _ =>
    obtain ⟨hi, l, ht, hl⟩ := quiet_lose (w := { w with
      idleTimer := w.idleTimer.dequeue q }.emitError
        "closing idle Android TV connection after 16 seconds without traffic") hu ha
    exact ((tends_dequeue w q).trans (tends_log _ rfl)).watches hi ht hl
  | voiceExpires | voiceSkip => exact (Tends.refl w).watches rfl (hnil w) (by simp)

theorem Deed.idleWait {q : Wait ℕ × Code} (h : Deed w (.idleWait q) w') :
    w'.idleTimer.epoch = w.idleTimer.epoch ∧
      (.lost ∈ news w w' → q ∈ w.idleTimer.queued ∧ q.2 = .success) := by
  cases h with
  | work he => cases he
  | emptyFrame he => cases he
  | handshake he => cases he
  | lose he => cases he
  | refuse he => cases he
  | idleSkip =>
    refine ⟨rfl, fun hlost ↦ ?_⟩
    have hnone : news w { w with idleTimer := w.idleTimer.dequeue q } = [] := news_nil rfl
    rw [hnone] at hlost
    cases hlost
  | idleClose _ hq hs _ hu ha =>
    obtain ⟨hi, -⟩ := quiet_lose (w := { w with
      idleTimer := w.idleTimer.dequeue q }.emitError
        "closing idle Android TV connection after 16 seconds without traffic") hu ha
    have hepoch := congrArg Timer.epoch hi
    exact ⟨hepoch, fun _ ↦ ⟨hq, hs⟩⟩

theorem rearmed_iff {e : Event} (h : w.Ready) (hw : w.step e = some w')
    (hm : ∃ m, .received m ∈ news w w') : Rearmed w w' ↔ ¬ e.EmptyFrame w := by
  constructor
  · intro hr he
    rw [Rearmed, idleTimer_emptyFrame he hw] at hr
    exact absurd hr.1 (lt_irrefl _)
  · intro hempty
    obtain ⟨m, hm⟩ := hm
    have hexpires : e ≠ .idleExpires := by
      rintro rfl
      obtain ⟨t, -, rfl⟩ := Option.map_eq_some_iff.mp hw
      have hnone : news w { w with idleTimer := t } = [] := news_nil rfl
      rw [hnone] at hm
      cases hm
    obtain ⟨-, l, ht, hl⟩ := (h.deed hw).watches h.alive hempty hexpires
    rw [news_eq ht] at hm
    obtain ⟨r, hr, hreceived⟩ := List.mem_map.mp hm
    refine hl.resolve_right ?_
    intro h'
    obtain ⟨hl, -⟩ := h'
    have hmessage := hl r hr
    rw [hreceived] at hmessage
    cases hmessage

end Step

end World

structure Clocked where
  world : World
  now : ℕ := 0
  setAt : ℕ := 0
  times : List ℕ := []

namespace Clocked

def ofOptions (o : Options) : Clocked := { world := World.ofOptions o }

/-- An event may happen at a time: the clock does not go back, the idle timer
expires when it is due and not later, and its handler then runs at once. -/
def Punctual (s : Clocked) (time : ℕ) (e : Event) : Prop :=
  s.now ≤ time ∧
    (∀ wait ∈ s.world.idleTimer.armed, time ≤ s.setAt + wait.delay ∧
      (e = .idleExpires → time = s.setAt + wait.delay)) ∧
    ∀ q ∈ s.world.idleTimer.queued, q.2 = .success → e = .idleWait q ∧ time = s.now

instance (s : Clocked) (time : ℕ) (e : Event) : Decidable (s.Punctual time e) :=
  inferInstanceAs (Decidable (_ ∧ _ ∧ _))

def step (s : Clocked) (x : ℕ × Event) : Option Clocked :=
  if s.Punctual x.1 x.2 then
    (s.world.step x.2).map fun w ↦
      { world := w
        now := x.1
        setAt := if w.idleTimer.epoch = s.world.idleTimer.epoch then s.setAt else x.1
        times := s.times ++ List.replicate (w.trace.length - s.world.trace.length) x.1 }
  else none

def stamped (s : Clocked) : List (ℕ × ℕ × Record) := s.times.zip s.world.trace

/-- No message was queued and no frame received on the connection in the
sixteen seconds before a time. -/
def Idle (s : Clocked) (time : ℕ) : Prop :=
  ∀ x ∈ s.stamped, x.2.1 = s.world.impl.generation → x.2.2.isMessage = true →
    x.1 + 16000 ≤ time

def ClosesIdle (s : Clocked) (x : ℕ × Event) : Prop :=
  (∃ q, x.2 = .idleWait q) ∧ ∃ s', s.step x = some s' ∧ .lost ∈ World.news s.world s'.world

structure Timely (s : Clocked) : Prop where
  ready : s.world.Ready
  length : s.times.length = s.world.trace.length
  past : ∀ time ∈ s.times, time ≤ s.now
  message : ∀ x ∈ s.stamped, x.2.1 = s.world.impl.generation → x.2.2.isMessage = true →
    x.1 ≤ s.setAt
  delay : ∀ wait, s.world.idleTimer.armed = some wait → wait.delay = World.idleTimeout
  due : ∀ q ∈ s.world.idleTimer.queued, q.2 = .success →
    s.setAt + World.idleTimeout = s.now

variable {s s' : Clocked} {time : ℕ} {e : Event}

theorem step_eq (h : s.step (time, e) = some s') : s.Punctual time e ∧ ∃ w,
    s.world.step e = some w ∧ s' =
      { world := w
        now := time
        setAt := if w.idleTimer.epoch = s.world.idleTimer.epoch then s.setAt else time
        times := s.times ++ List.replicate (w.trace.length - s.world.trace.length) time } := by
  obtain ⟨hp, hs⟩ := (Option.ite_none_right_eq_some ..).mp h
  obtain ⟨w, hw, rfl⟩ := Option.map_eq_some_iff.mp hs
  exact ⟨hp, w, hw, rfl⟩

theorem timely_ofOptions (o : Options) : (ofOptions o).Timely :=
  ⟨World.ready_ofOptions o, rfl, by simp [ofOptions], by simp [ofOptions, stamped],
    by simp [ofOptions, World.ofOptions], by simp [ofOptions, World.ofOptions]⟩

theorem Timely.message_step {w : World} {l : List (ℕ × Record)} (h : s.Timely)
    (hnow : s.now ≤ time) (hg : s.world.impl.generation ≤ w.impl.generation)
    (ht : w.trace = s.world.trace ++ l)
    (hl : ∀ r ∈ l, r.2.isMessage = true → w.idleTimer.epoch ≠ s.world.idleTimer.epoch) :
    ∀ x ∈ (s.times ++ List.replicate l.length time).zip w.trace,
      x.2.1 = w.impl.generation → x.2.2.isMessage = true →
        x.1 ≤ if w.idleTimer.epoch = s.world.idleTimer.epoch then s.setAt else time := by
  intro x hx hgen hmessage
  rw [ht, List.zip_append h.length] at hx
  rcases List.mem_append.mp hx with hx | hx
  · have hle := h.ready.trace_le x.2 (List.of_mem_zip hx).2
    split
    · exact h.message x hx (le_antisymm hle (hgen ▸ hg)) hmessage
    · exact (h.past x.1 (List.of_mem_zip hx).1).trans hnow
  · obtain ⟨hx₁, hx₂⟩ := List.of_mem_zip hx
    rw [if_neg (hl x.2 hx₂ hmessage), List.eq_of_mem_replicate hx₁]

theorem Timely.past_step (h : s.Timely) (hnow : s.now ≤ time) (n : ℕ) :
    ∀ τ ∈ s.times ++ List.replicate n time, τ ≤ time := by
  rw [List.forall_mem_append]
  constructor
  · intro τ hτ
    exact (h.past τ hτ).trans hnow
  · intro τ hτ
    exact (List.eq_of_mem_replicate hτ).le

theorem length_added {w w' : World} {l : List (ℕ × Record)} (ht : w'.trace = w.trace ++ l) :
    w'.trace.length - w.trace.length = l.length := by
  rw [ht, List.length_append, Nat.add_sub_cancel_left]

theorem Timely.expires (h : s.Timely) (hs : s.step (time, .idleExpires) = some s') : s'.Timely := by
  obtain ⟨⟨hnow, harmed, -⟩, w, hw, rfl⟩ := step_eq hs
  have hg := h.ready.generation_le (.one hw)
  obtain ⟨t, ht, rfl⟩ := Option.map_eq_some_iff.mp hw
  obtain ⟨wait, hwait, rfl⟩ := Option.map_eq_some_iff.mp ht
  have hdue : time = s.setAt + World.idleTimeout := by
    rw [← h.delay wait hwait]
    exact (harmed wait hwait).2 rfl
  have hsub := length_added (List.append_nil s.world.trace).symm
  refine ⟨h.ready.next hw, ?_, h.past_step hnow _, ?_, fun _ hnone ↦ ?_, ?_⟩
  · simpa using h.length
  · rw [stamped, hsub]
    exact h.message_step hnow hg (List.append_nil _).symm (by simp)
  · cases hnone
  · intro q hq hsuccess
    simp only [if_true, hdue]

theorem timely_step (h : s.Timely) (hempty : ¬ e.EmptyFrame s.world)
    (hs : s.step (time, e) = some s') : s'.Timely := by
  by_cases hexpires : e = .idleExpires
  · subst hexpires
    exact h.expires hs
  obtain ⟨⟨hnow, -, hqueued⟩, w, hw, rfl⟩ := step_eq hs
  have hdeed := h.ready.deed hw
  have hg := h.ready.generation_le (.one hw)
  obtain ⟨hkeep, l, ht, hl⟩ := hdeed.watches h.ready.alive hempty hexpires
  have hsub := length_added ht
  refine ⟨h.ready.next hw, ?_, h.past_step hnow _, ?_, ?_, ?_⟩
  · simp only [hsub, List.length_append, List.length_replicate, h.length]
    rw [ht, List.length_append]
  · rw [stamped, hsub]
    refine h.message_step hnow hg ht ?_
    intro r hr hmessage
    rcases hl with hrearmed | ⟨hl, -⟩
    · exact hrearmed.1.ne'
    · cases (hl r hr).symm.trans hmessage
  · intro wait hwait
    rcases hl with ⟨-, hr⟩ | ⟨-, hsame | hnone⟩
    · obtain rfl := Option.some.inj (hr.symm.trans hwait)
      rfl
    · exact h.delay wait (hsame.2.symm.trans hwait)
    · cases hnone.2.symm.trans hwait
  · intro q hq hsuccess
    obtain ⟨rfl, rfl⟩ := hqueued q (hkeep q hq hsuccess) hsuccess
    simp only [hdeed.idleWait.1, if_true]
    exact h.due q (hkeep q hq hsuccess) hsuccess

theorem Timely.idle_of_closes (h : s.Timely) (hc : s.ClosesIdle (time, e)) : s.Idle time := by
  obtain ⟨⟨q, rfl⟩, s', hs, hlost⟩ := hc
  obtain ⟨⟨-, -, hqueued⟩, w, hw, rfl⟩ := step_eq hs
  obtain ⟨hq, hsuccess⟩ := (h.ready.deed hw).idleWait.2 hlost
  obtain ⟨-, rfl⟩ := hqueued q hq hsuccess
  have hdue : s.setAt + 16000 = s.now := h.due q hq hsuccess
  intro x hx hgen hmessage
  have hle := h.message x hx hgen hmessage
  omega

/-- A frame arms the idle timer again exactly if it is not empty, and in a run
without empty frames the idle handler closes idle connections only. -/
theorem idle_close_only_if_idle (o : Options) :
    (∀ es t e t', Reaches o es t → t.step e = some t' →
      (∃ m, .received m ∈ World.news t t') → (World.Rearmed t t' ↔ ¬ e.EmptyFrame t)) ∧
    ∀ es s, Run Clocked.step (ofOptions o) es s →
      Along Clocked.step (fun s x ↦ ¬ x.2.EmptyFrame s.world) (ofOptions o) es →
      ∀ pre x post t, es = pre ++ x :: post → Run Clocked.step (ofOptions o) pre t →
        t.ClosesIdle x → t.Idle x.1 := by
  refine ⟨fun es t e t' ht hs hm ↦ World.rearmed_iff (World.ready_of_reaches ht) hs hm, ?_⟩
  intro es s _ halong pre x post t hes ht hc
  subst hes
  have htimely := ht.invariant_along (I := Timely) (C := fun s x ↦ ¬ x.2.EmptyFrame s.world)
    (fun _ _ _ h hempty hs ↦ timely_step h hempty hs) halong.of_append (timely_ofOptions o)
  exact htimely.idle_of_closes hc

theorem idle_close_only_if_idle_after_key :
    let es : List (ℕ × Event) := (.connect {} :: Event.handshakes 1).map (Prod.mk 0) ++
      [(5, .sendKey 3 .short), (16005, .idleExpires)]
    let close : ℕ × Event := (16005, .idleWait (⟨2, 16000, 1⟩, .success))
    ∃ s s', Run Clocked.step (ofOptions {}) es s ∧ s.step close = some s' ∧ s.ClosesIdle close ∧
      (5, 1, .queued (remoteKey 3 .short)) ∈ s.stamped ∧ s.Idle 16005 := by
  intro es close
  let s := (exec Clocked.step (ofOptions {}) es).get (by decide +kernel)
  let s' := (s.step close).get (by decide +kernel)
  have hs : Run Clocked.step (ofOptions {}) es s := run_of_isSome _
  have hs' : s.step close = some s' := (Option.some_get _).symm
  have hcloses : s.ClosesIdle close := ⟨⟨_, rfl⟩, s', hs', by decide +kernel⟩
  have hfull : Along Clocked.step (fun s x ↦ ¬ x.2.EmptyFrame s.world) (ofOptions {})
      (es ++ [close]) := by
    rintro pre ⟨time, e⟩ post t hes -
    have hmem : (time, e) ∈ es ++ [close] := by simp [hes]
    have hreads : ∀ x ∈ es ++ [close], ∀ op c, x.2 = .complete op c → op.kind ≠ .readLength := by
      simp [es, close, Event.handshakes]
    cases e with
    | complete op c =>
      intro hempty
      exact hreads _ hmem op c rfl (congrArg Op.kind hempty.1)
    | _ => exact id
  exact ⟨s, s', hs, hs', hcloses, by decide +kernel, (idle_close_only_if_idle {}).2 _ s'
    (hs.trans (.one hs')) hfull es close [] s rfl hs hcloses⟩

/-- The handshake is done at time 0. An empty frame comes ten seconds later,
and six seconds after it the connection is closed as idle. -/
theorem closed_after_empty_frame :
    let es : List (ℕ × Event) := (.connect {} :: Event.handshakes 1).map (Prod.mk 0) ++
      [(10000, .complete ⟨1, .readLength⟩ { bytes := [0] }), (16000, .idleExpires)]
    let close : ℕ × Event := (16000, .idleWait (⟨1, 16000, 1⟩, .success))
    ∃ s, Run Clocked.step (ofOptions {}) es s ∧ s.ClosesIdle close ∧
      (10000, 1, .received []) ∈ s.stamped ∧ s.world.impl.generation = 1 ∧ ¬ s.Idle 16000 := by
  intro es close
  let s := (exec Clocked.step (ofOptions {}) es).get (by decide +kernel)
  refine ⟨s, run_of_isSome _, ⟨⟨_, rfl⟩, ?_⟩, ?_⟩
  · let s' := (s.step close).get (by decide +kernel)
    exact ⟨s', (Option.some_get _).symm, by decide +kernel⟩
  have hreceived : (10000, 1, .received []) ∈ s.stamped := by decide +kernel
  have hgen : s.world.impl.generation = 1 := by decide +kernel
  refine ⟨hreceived, hgen, ?_⟩
  intro hidle
  have hle := hidle _ hreceived hgen.symm rfl
  omega

end Clocked

end AndroidTvRemote
