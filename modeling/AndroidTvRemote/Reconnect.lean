import AndroidTvRemote.Backoff
import AndroidTvRemote.Deeds

namespace AndroidTvRemote

open Wire SteadyTimer Runs Relation Backoff

namespace Record

def isRetry : Record → Bool
  | handshake | lost | reconnectArmed _ => true
  | _ => false

def isFate : Record → Bool
  | refused => true
  | r => r.isRetry

def isAttempt : Record → Bool
  | identity _ _ | opened _ => true
  | _ => false

def isWork : Record → Bool
  | callback _ | queued _ | write _ | received _ => true
  | _ => false

theorem isFate_of_isWork {r : Record} (h : r.isWork = true) : r.isFate = false := by
  cases r <;> first | rfl | cases h

theorem isAttempt_of_isWork {r : Record} (h : r.isWork = true) : r.isAttempt = false := by
  cases r <;> first | rfl | cases h

theorem isFate_of_isSetup {r : Record} (h : r.isSetup = true) : r.isFate = false := by
  cases r <;> first | rfl | cases h

theorem isWork_of_isChore {r : Record} (h : r.isChore = true) : r.isWork = true := by
  cases r <;> first | rfl | cases h

end Record

namespace Fate

/-- What is recorded of it, where a loss may be followed by a wait. -/
def records (retries : Bool) (delay : ℕ) : Fate → List Record
  | stays => []
  | greeted => [.handshake]
  | lost => .lost :: if retries then [.reconnectArmed delay] else []
  | refused => [.refused]

def act : Fate → Option Act
  | greeted => some .succeed
  | lost => some .fail
  | stays | refused => none

end Fate

namespace Backoff

def Output.record : Output → Record
  | succeeded => .handshake
  | failed => .lost
  | armed delay => .reconnectArmed delay

def Act.mayOpen : Act → Bool
  | start | run _ => true
  | _ => false

end Backoff

namespace Event

def ranWait : Event → Option (Wait Unit)
  | reconnectWait q _ => some q.1
  | _ => none

/-- An event as an act of the policy. -/
def retryAct (w : World) : Event → Option Act
  | connect _ => some .start
  | disconnect | disconnectAndWait => some .stop
  | reconnectExpires => some .expire
  | reconnectWait q _ => some (.run q)
  | e => (e.fate w).act

variable {w : World} {e : Event}

theorem retryAct_of_isPlain (h : e.isPlain = true) : e.retryAct w = (e.fate w).act := by
  cases e <;> first | rfl | cases h

theorem retryAct_of_fate (h : e.fate w ≠ .stays) : e.retryAct w = (e.fate w).act := by
  cases e with
  | connect | disconnect | disconnectAndWait | reconnectExpires | reconnectWait =>
    exact absurd rfl h
  | _ => rfl

theorem retryAct_of_stays (h : e.fate w = .stays) :
    e.retryAct w ≠ some .fail ∧ e.retryAct w ≠ some .succeed := by
  cases e with
  | connect | disconnect | disconnectAndWait | reconnectExpires | reconnectWait =>
    simp [retryAct]
  | _ => simp [retryAct, h, Fate.act]

theorem retryAct_eq_fail_iff : e.retryAct w = some .fail ↔ e.fate w = .lost := by
  by_cases h : e.fate w = .stays
  · exact iff_of_false (retryAct_of_stays h).1 (by simp [h])
  · rw [retryAct_of_fate h]
    cases e.fate w <;> simp [Fate.act]

theorem fate_of_retryAct (h : e.retryAct w = some .succeed) : e.fate w = .greeted := by
  by_cases hstays : e.fate w = .stays
  · exact absurd h (retryAct_of_stays hstays).2
  · rw [retryAct_of_fate hstays] at h
    cases hf : e.fate w with
    | greeted => rfl
    | _ => simp [hf, Fate.act] at h

theorem opens_of_retryAct (h : (e.retryAct w).any Act.mayOpen = true) :
    (∃ a, e = .connect a) ∨ ∃ q a, e = .reconnectWait q a := by
  have hnone : ∀ f : Fate, f.act.any Act.mayOpen = false := by
    intro f
    cases f <;> rfl
  cases e with
  | connect a => exact .inl ⟨a, rfl⟩
  | reconnectWait q a => exact .inr ⟨q, a, rfl⟩
  | disconnect | disconnectAndWait | reconnectExpires => cases h
  | _ => simp [retryAct, hnone] at h

theorem retryAct_ran (w : World) (e : Event) : (e.retryAct w).bind Act.ran = e.ranWait := by
  have hnone : ∀ f : Fate, f.act.bind Act.ran = none := by
    intro f
    cases f <;> rfl
  cases e with
  | connect | disconnect | disconnectAndWait | reconnectExpires | reconnectWait => rfl
  | _ => simp [retryAct, ranWait, hnone]

end Event

namespace World

def policy (w : World) : Policy := ⟨100, 30000, w.impl.options.autoReconnect⟩

def retry (w : World) : Backoff.State := ⟨w.impl.reconnectDelay, w.reconnectTimer⟩

/-- What the object is told as a policy is told it. -/
def retryActs (w : World) (es : List Event) : List Act :=
  acts World.step (fun w e ↦ e.retryAct w) w es

def losses (w : World) (es : List Event) : List Event :=
  acts World.step (fun w e ↦ if e.fate w = .lost then some e else none) w es

/-- The object has worked on without a word about reconnecting. -/
structure Untouched (w w' : World) : Prop where
  options : w'.impl.options = w.impl.options
  generation : w'.impl.generation = w.impl.generation
  retry : w'.retry = w.retry
  trace : ∃ l, w'.trace = w.trace ++ l ∧ ∀ r ∈ l, r.2.isWork = true

section Untouched

variable {w w' w'' : World}

theorem untouched_of_eq (ho : w'.impl.options = w.impl.options)
    (hg : w'.impl.generation = w.impl.generation) (hr : w'.retry = w.retry)
    (ht : w'.trace = w.trace) : Untouched w w' := ⟨ho, hg, hr, [], by simp [ht], by simp⟩

theorem untouched_log (w : World) {r : Record} (hr : r.isWork = true) : Untouched w (w.log r) :=
  ⟨rfl, rfl, rfl, [(w.impl.generation, r)], rfl, by simp [hr]⟩

theorem Untouched.trans (h : Untouched w w') (h' : Untouched w' w'') : Untouched w w'' :=
  ⟨h'.options.trans h.options, h'.generation.trans h.generation, h'.retry.trans h.retry,
    grown_trans h.trace h'.trace⟩

theorem Chore.untouched (h : Chore w w') : Untouched w w' := by
  cases h with
  | log r hr => exact untouched_log w (Record.isWork_of_isChore hr)
  | tune i hi =>
    refine untouched_of_eq (congrArg Ground.options hi) (congrArg Ground.generation hi) ?_ rfl
    exact congrArg (State.mk · w.reconnectTimer) (congrArg Ground.reconnectDelay hi)
  | await | queue => exact ⟨rfl, rfl, rfl, _, rfl, by simp [Record.isWork]⟩
  | hush | write => exact untouched_of_eq rfl rfl rfl rfl

theorem Task.untouched (h : Task w w') : Untouched w w' := by
  cases h with
  | chore h => exact h.untouched
  | consume | read | start => exact untouched_of_eq rfl rfl rfl rfl
  | frame m =>
    have hidle : Untouched w w.resetIdleTimer := untouched_of_eq rfl rfl rfl rfl
    exact hidle.trans (untouched_log _ rfl)

theorem Tasks.untouched (h : Tasks w w') : Untouched w w' := by
  induction h with
  | refl => exact untouched_of_eq rfl rfl rfl rfl
  | tail _ ht ih => exact ih.trans ht.untouched

end Untouched

/-- The object has gone on as the policy goes on with an act, and has recorded
what became of its connection. -/
structure Advances (w : World) (act : Option Act) (fate : Fate) (w' : World) : Prop where
  options : w'.impl.options = w.impl.options
  run : Run (Backoff.step w.policy) w.retry act.toList w'.retry
  trace : ∃ l, w'.trace = w.trace ++ l ∧ (l.map Prod.snd).filter Record.isFate =
      fate.records w.impl.options.autoReconnect w.impl.reconnectDelay ∧
    ((∃ r ∈ l, r.2.isAttempt = true) → act.any Act.mayOpen = true)

section Advances

variable {w v w' : World} {act : Option Act} {fate : Fate}

theorem filter_isFate {l : List (ℕ × Record)} (h : ∀ r ∈ l, r.2.isFate = false) :
    (l.map Prod.snd).filter Record.isFate = [] := by
  rw [List.filter_eq_nil_iff]
  intro r hr
  obtain ⟨r', hr', rfl⟩ := List.mem_map.mp hr
  simp [h r' hr']

theorem filter_isWork {l : List (ℕ × Record)} (h : ∀ r ∈ l, r.2.isWork = true) :
    (l.map Prod.snd).filter Record.isFate = [] :=
  filter_isFate fun r hr ↦ Record.isFate_of_isWork (h r hr)

theorem not_attempt_of_isWork {l : List (ℕ × Record)} (h : ∀ r ∈ l, r.2.isWork = true) :
    ¬ ∃ r ∈ l, r.2.isAttempt = true := by
  rintro ⟨r, hr, hopen⟩
  rw [Record.isAttempt_of_isWork (h r hr)] at hopen
  cases hopen

theorem Untouched.advances (h : Untouched w w') : Advances w none .stays w' := by
  obtain ⟨l, ht, hl⟩ := h.trace
  refine ⟨h.options, ?_, l, ht, filter_isWork hl, fun hopen ↦ absurd hopen (not_attempt_of_isWork hl)⟩
  rw [h.retry]
  exact .nil _

theorem Untouched.before (h : Untouched w v) (h' : Advances v act fate w') :
    Advances w act fate w' := by
  obtain ⟨l, ht, hl⟩ := h.trace
  obtain ⟨l', ht', hl', hopen⟩ := h'.trace
  have hpolicy : v.policy = w.policy := by rw [policy, policy, h.options]
  have hdelay : v.impl.reconnectDelay = w.impl.reconnectDelay := congrArg State.delay h.retry
  rw [h.options, hdelay] at hl'
  refine ⟨h'.options.trans h.options, ?_, l ++ l', ?_, ?_, ?_⟩
  · rw [← hpolicy, ← h.retry]
    exact h'.run
  · rw [ht', ht, List.append_assoc]
  · rw [List.map_append, List.filter_append, filter_isWork hl, hl', List.nil_append]
  · rintro ⟨r, hr, hr'⟩
    rcases List.mem_append.mp hr with hr | hr
    · exact absurd ⟨r, hr, hr'⟩ (not_attempt_of_isWork hl)
    · exact hopen ⟨r, hr, hr'⟩

theorem Advances.after (h : Advances w act fate v) (h' : Untouched v w') :
    Advances w act fate w' := by
  obtain ⟨l, ht, hl, hopen⟩ := h.trace
  obtain ⟨l', ht', hl'⟩ := h'.trace
  refine ⟨h'.options.trans h.options, ?_, l ++ l', ?_, ?_, ?_⟩
  · rw [h'.retry]
    exact h.run
  · rw [ht', ht, List.append_assoc]
  · rw [List.map_append, List.filter_append, filter_isWork hl', hl, List.append_nil]
  · rintro ⟨r, hr, hr'⟩
    rcases List.mem_append.mp hr with hr | hr
    · exact hopen ⟨r, hr, hr'⟩
    · exact absurd ⟨r, hr, hr'⟩ (not_attempt_of_isWork hl')

theorem advances_lose (hu : w.impl.userDisconnect = false) (ha : w.impl.shuttingDown = false) :
    Advances w (some .fail) .lost (w.handleConnectionLoss w.impl.generation) := by
  rw [handleConnectionLoss_spec hu ha]
  simp only
  split
  next ho =>
    have hp : w.policy.enabled = true := ho
    refine ⟨rfl, .one ?_, _, List.append_assoc _ _ _, ?_, ?_⟩
    · rw [Backoff.step, if_pos hp]
      rfl
    · rw [ho]
      split <;> rfl
    · split <;> simp [Record.isAttempt]
  next ho =>
    have hp : ¬ w.policy.enabled = true := ho
    refine ⟨rfl, .one ?_, _, List.append_assoc _ _ _, ?_, ?_⟩
    · rw [Backoff.step, if_neg hp]
      rfl
    · rw [Bool.not_eq_true] at ho
      rw [ho]
      split <;> rfl
    · split <;> simp [Record.isAttempt]

theorem advances_refuse (error : String) (hu : w.impl.userDisconnect = false)
    (ha : w.impl.shuttingDown = false) :
    Advances w none .refused (w.authenticationFailed error w.impl.generation) := by
  rw [authenticationFailed_spec error hu ha]
  simp only [List.append_assoc]
  refine ⟨rfl, .nil _, _, rfl, ?_, ?_⟩
  · split <;> rfl
  · split <;> simp [Record.isAttempt]

theorem advances_silent {act : Act} (ho : w'.impl.options = w.impl.options)
    (hs : Backoff.step w.policy w.retry act = some w'.retry)
    {l : List (ℕ × Record)} (ht : w'.trace = w.trace ++ l) (hl : ∀ r ∈ l, r.2.isFate = false)
    (hopen : act.mayOpen = false → ∀ r ∈ l, r.2.isAttempt = false) :
    Advances w (some act) .stays w' := by
  refine ⟨ho, .one hs, l, ht, filter_isFate hl, ?_⟩
  rintro ⟨r, hr, hr'⟩
  cases hact : act.mayOpen with
  | true => exact hact
  | false => cases (hopen hact r hr).symm.trans hr'

theorem advances_beginConnect {act : Act} (ha : w.impl.shuttingDown = false)
    (hv : v.impl.shuttingDown = w.impl.shuttingDown) (hu : v.impl.userDisconnect = false)
    (ho : v.impl.options = w.impl.options) (ht : v.trace = w.trace)
    (hs : Backoff.step w.policy w.retry act = some v.retry) (hact : act.mayOpen = true)
    (reconnecting : Bool) (a : IdentityAttempt) :
    Advances w (some act) .stays (v.beginConnect reconnecting a) := by
  obtain ⟨i, n, ops, l, heq, hio, hid, -, hl⟩ :=
    beginConnect_frame (hv.trans ha) hu reconnecting a
  rw [heq]
  have hretry : v.retry = ⟨i.reconnectDelay, v.reconnectTimer⟩ := by rw [hid, retry]
  refine advances_silent (hio.trans ho) (hs.trans (congrArg some hretry))
    (congrArg (· ++ l) ht) (fun r hr ↦ Record.isFate_of_isSetup (hl r hr)) ?_
  intro hnot
  cases hnot.symm.trans hact

theorem advances_connect (ha : w.impl.shuttingDown = false) (a : IdentityAttempt) :
    Advances w (some .start) .stays (w.connect a) := by
  refine advances_beginConnect ha ?_ ?_ ?_ ?_ ?_ rfl false a
  all_goals rfl

theorem advances_reconnectWait (ha : w.impl.shuttingDown = false) {q : Wait Unit × Code}
    (hq : q ∈ w.reconnectTimer.queued) (a : IdentityAttempt) : Advances w (some (.run q)) .stays
      ({ w with reconnectTimer := w.reconnectTimer.dequeue q }.onReconnectWait q.2 a) := by
  have hrun : Backoff.step w.policy w.retry (.run q) =
      some { w with reconnectTimer := w.reconnectTimer.dequeue q }.retry :=
    if_pos (List.contains_iff_mem.mpr hq)
  unfold onReconnectWait
  split_ifs with hg
  · refine advances_beginConnect ha ?_ hg.2 ?_ ?_ hrun rfl true a
    all_goals rfl
  · exact advances_silent rfl hrun (List.append_nil _).symm (by simp) (by simp)

theorem Deed.advances {e : Event} (ha : w.impl.shuttingDown = false) (h : Deed w e w') :
    Advances w (e.retryAct w) (e.fate w) w' := by
  cases h with
  | work he h hf =>
    rw [Event.retryAct_of_isPlain he, hf]
    exact h.untouched.advances
  | emptyFrame he hf =>
    have hplain : e.isPlain = true := by
      cases e with
      | complete => rfl
      | _ => cases he
    rw [Event.retryAct_of_isPlain hplain, hf]
    exact Untouched.advances ⟨rfl, rfl, rfl, _, rfl, by simp [Record.isWork]⟩
  | @handshake _ v _ he h h' hf =>
    rw [Event.retryAct_of_isPlain he, hf]
    refine Advances.after (h.untouched.before ?_) h'.untouched
    exact ⟨rfl, .one rfl, _, rfl, rfl, by simp [Record.isAttempt]⟩
  | lose he h hu ha hf =>
    rw [Event.retryAct_of_isPlain he, hf]
    exact h.untouched.before (advances_lose hu ha)
  | refuse he h hu ha error hf =>
    rw [Event.retryAct_of_isPlain he, hf]
    exact h.untouched.before (advances_refuse error hu ha)
  | connect a => exact advances_connect ha a
  | disconnect =>
    exact advances_silent rfl rfl (List.append_assoc _ _ _) (by simp [Record.isFate, Record.isRetry])
      (by simp [Record.isAttempt])
  | disconnectAndWait =>
    exact advances_silent rfl rfl rfl (by simp [Record.isFate, Record.isRetry])
      (by simp [Record.isAttempt])
  | reconnectExpires t ht =>
    have hs : Backoff.step w.policy w.retry .expire = some { w with reconnectTimer := t }.retry :=
      Option.map_eq_some_iff.mpr ⟨t, ht, rfl⟩
    exact advances_silent rfl hs (List.append_nil _).symm (by simp) (by simp)
  | idleExpires | voiceExpires | voiceSkip =>
    refine Untouched.advances ?_
    exact untouched_of_eq rfl rfl rfl rfl
  | reconnectWait q a hq => exact advances_reconnectWait ha hq a
  | idleSkip q hf =>
    rw [Event.retryAct, hf]
    · refine Untouched.advances ?_
      exact untouched_of_eq rfl rfl rfl rfl
    all_goals simp
  | idleClose q _ hs hg hu _ =>
    have hf : (Event.idleWait q).fate w = .lost := if_pos ⟨hs, hu, hg⟩
    rw [Event.retryAct, hf]
    · have hdequeue : Untouched w { w with idleTimer := w.idleTimer.dequeue q } :=
        untouched_of_eq rfl rfl rfl rfl
      exact (hdequeue.trans (untouched_log _ rfl)).before (advances_lose hu ha)
    all_goals simp

end Advances

structure Follows (w : World) (es : List Event) (w' : World) : Prop where
  options : w'.impl.options = w.impl.options
  run : Run (Backoff.step w.policy) w.retry (w.retryActs es) w'.retry
  trace : ∃ l, w'.trace = w.trace ++ l ∧ (l.map Prod.snd).filter Record.isRetry =
    (outputs w.policy w.impl.reconnectDelay (w.retryActs es)).map Output.record

theorem Advances.outputs_eq {w w' : World} {e : Event}
    (h : Advances w (e.retryAct w) (e.fate w) w') : ∃ l, w'.trace = w.trace ++ l ∧
      (l.map Prod.snd).filter Record.isRetry =
        (outputs w.policy w.impl.reconnectDelay (e.retryAct w).toList).map Output.record := by
  obtain ⟨l, ht, hl, -⟩ := h.trace
  have hfilter : (l.map Prod.snd).filter Record.isRetry =
      ((l.map Prod.snd).filter Record.isFate).filter Record.isRetry := by
    rw [List.filter_filter]
    apply List.filter_congr
    intro r _
    cases r <;> rfl
  refine ⟨l, ht, ?_⟩
  rw [hfilter, hl]
  cases hf : e.fate w with
  | stays =>
    obtain ⟨hfail, hsucceed⟩ := Event.retryAct_of_stays hf
    cases hact : e.retryAct w with
    | none => rfl
    | some act =>
      cases act with
      | fail => exact absurd hact hfail
      | succeed => exact absurd hact hsucceed
      | _ => rfl
  | greeted =>
    rw [Event.retryAct_of_fate (by simp [hf]), hf]
    rfl
  | lost =>
    rw [Event.retryAct_of_fate (by simp [hf]), hf]
    cases ho : w.impl.options.autoReconnect <;>
      simp [Fate.records, Fate.act, outputs, policy, ho, Record.isRetry, Output.record]
  | refused =>
    rw [Event.retryAct_of_fate (by simp [hf]), hf]
    rfl

theorem Ready.follows {w w' : World} {es : List Event} (h : w.Ready) (hr : Run World.step w es w') :
    Follows w es w' := by
  induction hr with
  | nil w => exact ⟨rfl, .nil _, [], by simp, rfl⟩
  | @cons w t w' e es he _ ih =>
    obtain ⟨ho, hrun, l, ht, hl⟩ := ih (h.next he)
    have hadv := (h.deed he).advances h.alive
    obtain ⟨l', ht', hl'⟩ := hadv.outputs_eq
    have hpolicy : t.policy = w.policy := by rw [policy, policy, hadv.options]
    rw [hpolicy] at hrun hl
    have hacts : w.retryActs (e :: es) = (e.retryAct w).toList ++ t.retryActs es :=
      acts_cons he es
    refine ⟨ho.trans hadv.options, ?_, l' ++ l, ?_, ?_⟩
    · rw [hacts]
      exact hadv.run.trans hrun
    · rw [ht, ht', List.append_assoc]
    · rw [List.map_append, List.filter_append, hl', hl, ← List.map_append, hacts]
      exact congrArg (List.map Output.record) (outputs_append hadv.run _).symm

section Runs

variable {w w' : World} {es : List Event}

theorem Follows.records (h : Follows w es w') : (news w w').filter Record.isRetry =
    (outputs w.policy w.impl.reconnectDelay (w.retryActs es)).map Output.record := by
  obtain ⟨l, ht, hl⟩ := h.trace
  rw [news_eq ht, hl]

theorem retryActs_ran (h : Run World.step w es w') :
    (w.retryActs es).filterMap Act.ran = es.filterMap Event.ranWait := by
  rw [retryActs, acts_filterMap, ← h.acts_eq_filterMap (f := Event.ranWait)]
  congr 1
  funext w e
  exact Event.retryAct_ran w e

theorem losses_length (h : Run World.step w es w') :
    (w.losses es).length = (w.retryActs es).count .fail := by
  induction h with
  | nil => rfl
  | @cons w t w' e es he _ ih =>
    have hacts : w.retryActs (e :: es) = (e.retryAct w).toList ++ t.retryActs es := acts_cons he es
    have hlosses : w.losses (e :: es) =
        (if e.fate w = .lost then some e else none).toList ++ t.losses es := acts_cons he es
    rw [hacts, hlosses, List.length_append, List.count_append, ih]
    by_cases hf : e.fate w = .lost
    · rw [Event.retryAct_eq_fail_iff.mpr hf, if_pos hf]
      rfl
    · have hcount : (e.retryAct w).toList.count .fail = 0 := by
        rw [List.count_eq_zero, Option.mem_toList]
        exact mt Event.retryAct_eq_fail_iff.mp hf
      rw [if_neg hf, hcount]
      rfl

end Runs

/-- The delay has just been set back: the object is new, or `connect` was
called, or a handshake has succeeded. -/
def Restarted (o : Options) (t : World) : Prop :=
  t = World.ofOptions o ∨ ∃ pre s e, Reaches o pre s ∧ s.step e = some t ∧
    ((∃ a, e = .connect a) ∨ e.fate s = .greeted)

theorem Advances.delay_eq {w w' : World} {act : Act} {fate : Fate}
    (h : Advances w (some act) fate w') (hact : act = .start ∨ act = .succeed) :
    w'.impl.reconnectDelay = 100 := by
  have hrun := h.run
  rcases hact with rfl | rfl
  all_goals
    cases hrun with
    | cons hs hnil =>
      cases hnil
      exact (congrArg State.delay (Option.some.inj hs)).symm

theorem Restarted.ready {o : Options} {t : World} (h : Restarted o t) :
    t.Ready ∧ t.impl.options = o ∧ t.impl.reconnectDelay = 100 := by
  obtain rfl | ⟨pre, s, e, hs, he, hrestart⟩ := h
  · exact ⟨ready_ofOptions o, rfl, rfl⟩
  have hready := ready_of_reaches hs
  have hadv := (hready.deed he).advances hready.alive
  refine ⟨hready.next he, hadv.options.trans ((ready_ofOptions o).follows hs).options, ?_⟩
  rcases hrestart with ⟨a, rfl⟩ | hf
  · exact Advances.delay_eq hadv (.inl rfl)
  · rw [Event.retryAct_of_fate (by simp [hf]), hf] at hadv
    exact Advances.delay_eq hadv (.inr rfl)

theorem Restarted.delays {o : Options} {t u : World} {mid : List Event} (h : Restarted o t)
    (ho : o.autoReconnect = true) (hr : Run World.step t mid u)
    (hconnect : ∀ a, .connect a ∉ mid)
    (hgreet : Along World.step (fun w e ↦ e.fate w ≠ .greeted) t mid) :
    (news t u).filter Record.isRetry = (List.range (t.losses mid).length).flatMap fun i ↦
      [.lost, .reconnectArmed (min (100 * 2 ^ i) 30000)] := by
  obtain ⟨hready, hoptions, hdelay⟩ := h.ready
  have hstart : .start ∉ t.retryActs mid := by
    refine not_mem_acts (C := fun _ e ↦ ∀ a, e ≠ .connect a) ?_ ?_
    · intro w e hne hact
      obtain ⟨a, rfl⟩ | ⟨q, a, rfl⟩ := Event.opens_of_retryAct (by rw [hact]; rfl)
      · exact hne a rfl
      · cases hact
    · rintro pre _ post _ rfl - a rfl
      exact hconnect a (by simp)
  have hsucceed : .succeed ∉ t.retryActs mid :=
    not_mem_acts (fun _ _ hne hact ↦ hne (Event.fate_of_retryAct hact)) hgreet
  have hp : t.policy.enabled = true := by
    rw [policy, hoptions]
    exact ho
  have hout := Backoff.outputs_eq hp hstart hsucceed 0
  rw [(hready.follows hr).records, hdelay, losses_length hr]
  refine (congrArg (List.map Output.record) hout).trans ?_
  rw [List.map_flatMap]
  simp [policy, Output.record]

end World

/-- The wait whose handler calls `beginConnect(true)`. -/
def Event.reconnects (w : World) : Event → Option (Wait Unit)
  | reconnectWait q _ =>
    if q.2 = .success ∧ w.impl.userDisconnect = false then some q.1 else none
  | _ => none

def Record.armedDelay : Record → Option ℕ
  | reconnectArmed delay => some delay
  | _ => none

namespace World

def reconnects (w : World) (es : List Event) : List (Wait Unit) :=
  acts World.step (fun w e ↦ e.reconnects w) w es

theorem reconnects_sublist (w : World) (es : List Event) :
    (w.reconnects es).Sublist (es.filterMap Event.ranWait) := by
  induction es generalizing w with
  | nil => exact .slnil
  | cons e es ih =>
    have hone : (e.reconnects w).toList.Sublist e.ranWait.toList := by
      cases e with
      | reconnectWait q a =>
        rw [Event.reconnects]
        split
        · exact .refl _
        · exact List.nil_sublist _
      | _ => exact .slnil
    have hrest : (((w.step e).map fun w' ↦ w'.reconnects es).getD []).Sublist
        (es.filterMap Event.ranWait) := by
      cases w.step e with
      | none => exact List.nil_sublist _
      | some w' => exact ih w'
    have hcons : (e :: es).filterMap Event.ranWait =
        e.ranWait.toList ++ es.filterMap Event.ranWait := by cases e <;> rfl
    rw [hcons]
    exact hone.append hrest

theorem armedDelay_record (outs : List Output) :
    (outs.map Output.record).filterMap Record.armedDelay = outs.filterMap Output.armedDelay := by
  rw [List.filterMap_map]
  apply List.filterMap_congr
  intro out _
  cases out <;> rfl

theorem armedDelay_filter (l : List Record) :
    (l.filter Record.isRetry).filterMap Record.armedDelay = l.filterMap Record.armedDelay := by
  rw [List.filterMap_filter]
  apply List.filterMap_congr
  intro r _
  cases r <;> rfl

theorem armings_of_reaches {o : Options} {es : List Event} {w : World} (h : Reaches o es w) :
    ∃ armings, Kept armings (es.filterMap Event.ranWait) w.reconnectTimer ∧
      armings.map Wait.delay = (w.trace.map Prod.snd).filterMap Record.armedDelay ∧
      armings.length = if o.autoReconnect then ((World.ofOptions o).losses es).length else 0 := by
  have hf := (ready_ofOptions o).follows h
  obtain ⟨armings, hkept, hdelays⟩ := kept_run hf.run
  rw [retryActs_ran h] at hkept
  refine ⟨armings, hkept, ?_, ?_⟩
  · have hrecords : (w.trace.map Prod.snd).filter Record.isRetry = _ := hf.records
    rw [hdelays, ← armedDelay_filter, hrecords, armedDelay_record]
  · rw [losses_length h, ← List.length_map Wait.delay, hdelays]
    exact armedDelay_length 100

/-- The event begins to connect and finds no client identity. -/
def IdentityFails (w : World) (e : Event) : Prop :=
  ∃ a error, e.attempt w = some a ∧ (w.closeStream.ensureSslContext a).2 = .error error

structure Loses (w w' : World) : Prop where
  stream : w'.impl.stream = none
  generation : w'.impl.generation = w.impl.generation + 1
  waits : w.impl.options.autoReconnect = true → w'.impl.state = .reconnecting ∧
    w'.reconnectTimer.armed = some ⟨w.reconnectTimer.epoch + 1, w.impl.reconnectDelay, ()⟩
  rests : w.impl.options.autoReconnect = false → w'.impl.state = .disconnected ∧
    w'.reconnectTimer = w.reconnectTimer

theorem Untouched.loses {w v : World} (h : Untouched w v) (hu : v.impl.userDisconnect = false)
    (ha : v.impl.shuttingDown = false) :
    Loses w (v.handleConnectionLoss v.impl.generation) := by
  obtain ⟨hstream, hgeneration⟩ := handleConnectionLoss_closes v
  have hdelay : v.impl.reconnectDelay = w.impl.reconnectDelay := congrArg State.delay h.retry
  have htimer : v.reconnectTimer = w.reconnectTimer := congrArg State.timer h.retry
  refine ⟨hstream, hgeneration.trans (congrArg (· + 1) h.generation), ?_, ?_⟩
  · intro ho
    rw [handleConnectionLoss_spec hu ha, ← hdelay, ← htimer]
    simp [h.options, ho, Timer.expiresAfter, Timer.asyncWait, Timer.cancel]
  · intro ho
    rw [handleConnectionLoss_spec hu ha, ← htimer]
    simp [h.options, ho, closeStream]

theorem Deed.loses {w w' : World} {e : Event} (h : Deed w e w') (hf : e.fate w = .lost) :
    Loses w w' := by
  cases h with
  | work _ _ hstays => cases hstays.symm.trans hf
  | emptyFrame _ hstays => cases hstays.symm.trans hf
  | handshake _ _ _ hgreeted => cases hgreeted.symm.trans hf
  | lose _ h hu ha => exact h.untouched.loses hu ha
  | refuse _ _ _ _ _ hrefused => cases hrefused.symm.trans hf
  | idleSkip _ hstays => cases hstays.symm.trans hf
  | idleClose q _ _ _ hu ha =>
    have hdequeue : Untouched w { w with idleTimer := w.idleTimer.dequeue q } :=
      untouched_of_eq rfl rfl rfl rfl
    exact (hdequeue.trans (untouched_log _ rfl)).loses hu ha
  | _ => cases hf

theorem Advances.armed {w w' : World} {act : Option Act} {fate : Fate}
    (h : Advances w act fate w') (hact : act ≠ some .fail) {wait : Wait Unit}
    (harmed : w'.reconnectTimer.armed = some wait) : w.reconnectTimer.armed = some wait := by
  have hrun := h.run.exec_eq
  cases act with
  | none =>
    have heq : w.retry = w'.retry := Option.some.inj hrun
    rw [← harmed]
    exact congrArg (fun s : State ↦ s.timer.armed) heq
  | some act =>
    obtain ⟨s, hs, hs'⟩ := Option.bind_eq_some_iff.mp hrun
    obtain rfl : s = w'.retry := Option.some.inj hs'
    refine armed_of_step hs ?_ harmed
    rintro rfl
    exact hact rfl

/-- What an event does about reconnecting: it is recorded what becomes of the
connection, a loss arms a wait and nothing else does, and the handler of a wait
calls `beginConnect(true)` or does nothing. -/
structure Reconnects (w : World) (e : Event) (w' : World) : Prop where
  records : (news w w').filter Record.isFate =
    (e.fate w).records w.impl.options.autoReconnect w.impl.reconnectDelay
  lost : e.fate w = .lost → Loses w w'
  armed : e.fate w ≠ .lost → ∀ wait, w'.reconnectTimer.armed = some wait →
    w.reconnectTimer.armed = some wait
  anonymous : w.IdentityFails e → e.fate w = .stays
  called : ∀ q a, e = .reconnectWait q a → w' =
    let v := { w with reconnectTimer := w.reconnectTimer.dequeue q }
    if e.reconnects w = some q.1 then v.beginConnect true a else v
  opens : (∃ r ∈ news w w', r.isAttempt = true) →
    (∃ a, e = .connect a) ∨ (e.reconnects w).isSome = true

theorem Ready.reconnects_step {w w' : World} {e : Event} (h : w.Ready) (he : w.step e = some w') :
    Reconnects w e w' := by
  have hadv := (h.deed he).advances h.alive
  obtain ⟨l, ht, hl, hopen⟩ := hadv.trace
  have hcalled : ∀ q a, e = .reconnectWait q a → w' =
      let v := { w with reconnectTimer := w.reconnectTimer.dequeue q }
      if e.reconnects w = some q.1 then v.beginConnect true a else v := by
    rintro q a rfl
    obtain ⟨-, hw⟩ := (Option.ite_none_right_eq_some ..).mp he
    obtain rfl := Option.some.inj hw
    unfold onReconnectWait Event.reconnects
    by_cases hg : q.2 = .success ∧ w.impl.userDisconnect = false
    · rw [if_pos hg]
      exact (if_pos (if_pos hg)).symm
    · rw [if_neg hg]
      exact (if_neg (by simp [hg])).symm
  refine ⟨by rw [news_eq ht, hl], (h.deed he).loses, ?_, ?_, hcalled, ?_⟩
  · intro hf wait
    exact hadv.armed (mt Event.retryAct_eq_fail_iff.mp hf)
  · rintro ⟨a, error, ha, -⟩
    cases e with
    | connect | reconnectWait => rfl
    | _ => cases ha
  · rw [news_eq ht]
    rintro ⟨r, hr, hr'⟩
    obtain ⟨r, hmem, rfl⟩ := List.mem_map.mp hr
    obtain ⟨a, rfl⟩ | ⟨q, a, rfl⟩ := Event.opens_of_retryAct (hopen ⟨r, hmem, hr'⟩)
    · exact .inl ⟨a, rfl⟩
    · right
      by_contra hnone
      have hw := hcalled q a rfl
      rw [Option.not_isSome_iff_eq_none] at hnone
      rw [hnone] at hw
      obtain rfl := hw
      obtain rfl : l = [] := by simpa using ht
      cases hmem

/-- How the object reconnects. After the delay was set back, the `n`-th loss of
a connection arms a wait of `100 * 2 ^ (n - 1)` milliseconds, or half a minute
if that is less. All the waits ever armed, one for each loss, are told apart by
their epochs; the attempts to reconnect are made by different ones of them. -/
theorem reconnect_policy (o : Options) :
    (o.autoReconnect = true → ∀ t mid u, Restarted o t → Run World.step t mid u →
      (∀ a, .connect a ∉ mid) → Along World.step (fun w e ↦ e.fate w ≠ .greeted) t mid →
      (news t u).filter Record.isRetry = (List.range (t.losses mid).length).flatMap fun i ↦
        [.lost, .reconnectArmed (min (100 * 2 ^ i) 30000)]) ∧
    ∀ es w, Reaches o es w →
      (100 ≤ w.impl.reconnectDelay ∧ w.impl.reconnectDelay ≤ 30000) ∧
      (∃ armings : List (Wait Unit),
        armings.map Wait.delay = (w.trace.map Prod.snd).filterMap Record.armedDelay ∧
        armings.length = (if o.autoReconnect then ((World.ofOptions o).losses es).length else 0) ∧
        (armings.map Wait.epoch).Nodup ∧
        (es.filterMap Event.ranWait ++
          (w.reconnectTimer.queued.map Prod.fst ++ w.reconnectTimer.armed.toList)).Perm armings ∧
        ((World.ofOptions o).reconnects es).Subperm armings) ∧
      (∀ e w', w.step e = some w' → Reconnects w e w') ∧
      ((World.ofOptions o).reconnects es).length ≤
        if o.autoReconnect then ((World.ofOptions o).losses es).length else 0 := by
  refine ⟨fun ho t mid u ht hr hc hg ↦ ht.delays ho hr hc hg, ?_⟩
  intro es w h
  have hf := (ready_ofOptions o).follows h
  obtain ⟨armings, hkept, hdelays, hlength⟩ := armings_of_reaches h
  have hsub : ((World.ofOptions o).reconnects es).Subperm armings := by
    refine List.Subperm.trans ?_ hkept.perm.subperm
    exact ((reconnects_sublist _ es).trans (List.sublist_append_left _ _)).subperm
  refine ⟨?_, ⟨armings, hdelays, hlength, hkept.epochs, hkept.perm, hsub⟩, ?_, ?_⟩
  · have hbase : 100 ≤ 30000 := by decide
    exact delay_bounded hbase hf.run ⟨le_rfl, hbase⟩
  · intro e w' he
    exact (ready_of_reaches h).reconnects_step he
  · exact hsub.length_le.trans hlength.le

theorem reconnect_policy_two_losses :
    let mid : List Event := [.complete ⟨1, .resolve "" "6466"⟩ { error := some "Host not found" },
      .reconnectExpires, .reconnectWait (⟨2, 100, ()⟩, .success) {},
      .complete ⟨3, .resolve "" "6466"⟩ { error := some "Host not found" }]
    ∃ t u, Reaches {} [.connect {}] t ∧ Run World.step t mid u ∧ (t.losses mid).length = 2 ∧
      (news t u).filter Record.isRetry =
        [.lost, .reconnectArmed 100, .lost, .reconnectArmed 200] ∧
      (World.ofOptions {}).reconnects (.connect {} :: mid) = [⟨2, 100, ()⟩] ∧
      ((World.ofOptions {}).reconnects (.connect {} :: mid)).length ≤
        ((World.ofOptions {}).losses (.connect {} :: mid)).length := by
  intro mid
  let t := (World.ofOptions {}).connect {}
  have ht : Reaches {} [.connect {}] t := .one rfl
  have hr : Run World.step t mid _ := run_of_isSome (by decide +kernel)
  have hlosses : (t.losses mid).length = 2 := by decide +kernel
  obtain ⟨hdelays, hrest⟩ := reconnect_policy {}
  have hrestarted : Restarted {} t := .inr ⟨[], _, _, .nil _, rfl, .inl ⟨{}, rfl⟩⟩
  have htwo := hdelays rfl t mid _ hrestarted hr (by simp [mid]) (by decide +kernel)
  rw [hlosses] at htwo
  exact ⟨t, _, ht, hr, hlosses, htwo, by decide +kernel, (hrest _ _ (ht.trans hr)).2.2.2⟩

end World

end AndroidTvRemote
