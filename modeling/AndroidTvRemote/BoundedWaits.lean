import AndroidTvRemote.Deeds

namespace AndroidTvRemote

open Wire Protocol SteadyTimer Runs Relation Timer Vigil

/-- The records after which the idle timer starts anew. -/
def Record.stirs : Record → Bool
  | handshake | queued _ => true
  | received m => !m.isEmpty
  | _ => false

namespace World

def reconnecting : Vigil World (ℕ × Record) Unit where
  waits w := w.impl.stream = none ∧ w.impl.state = .reconnecting
  timer := reconnectTimer
  captured _ := ()
  tells w delay r := delay ≤ 30000 ∧ r = (w.impl.generation, .reconnectArmed delay)

def established : Vigil World (ℕ × Record) ℕ where
  waits w := w.impl.stream.isSome = true ∧ w.Handshaken
  timer := idleTimer
  captured w := w.impl.generation
  tells w delay r := delay = idleTimeout ∧ r.1 = w.impl.generation ∧ r.2.stirs = true

def voiceAwaited : Vigil World (ℕ × Record) Unit where
  waits w := w.impl.voiceStarting = true
  timer := voiceTimer
  captured _ := ()
  tells w delay r := delay = voiceStartTimeout ∧
    r = (w.impl.generation, .queued (remoteKey keyCodeSearch .short))

/-- What a handler does to the timers and to what waits for them, with the
records it leaves. -/
structure Heeds (w w' : World) (l : List (ℕ × Record)) : Prop where
  trace : w'.trace = w.trace ++ l
  reconnectTimer : Changes w.reconnectTimer w'.reconnectTimer
  idleTimer : Changes w.idleTimer w'.idleTimer
  voiceTimer : Changes w.voiceTimer w'.voiceTimer
  reconnecting : reconnecting.Kept w w' l
  established : established.Kept w w' l
  voiceAwaited : voiceAwaited.Kept w w' l
  delay : w.impl.reconnectDelay ≤ 30000 → w'.impl.reconnectDelay ≤ 30000

section Heeds

variable {w v w' : World} {l l' : List (ℕ × Record)}

theorem Heeds.trans (h : Heeds w v l) (h' : Heeds v w' l') : Heeds w w' (l ++ l') where
  trace := by rw [h'.trace, h.trace, List.append_assoc]
  reconnectTimer := h.reconnectTimer.trans h'.reconnectTimer
  idleTimer := h.idleTimer.trans h'.idleTimer
  voiceTimer := h.voiceTimer.trans h'.voiceTimer
  reconnecting := h.reconnecting.trans h'.reconnecting h.reconnectTimer
  established := h.established.trans h'.established h.idleTimer
  voiceAwaited := h.voiceAwaited.trans h'.voiceAwaited h.voiceTimer
  delay hd := h'.delay (h.delay hd)

/-- What the three vigils depend on besides their timers. -/
structure SameWaits (w w' : World) : Prop where
  generation : w'.impl.generation = w.impl.generation
  stream : w'.impl.stream = w.impl.stream
  state : w'.impl.state = .reconnecting → w.impl.state = .reconnecting
  voiceStarting : w'.impl.voiceStarting = true → w.impl.voiceStarting = true

theorem SameWaits.reconnecting (h : SameWaits w w') (ht : w'.reconnectTimer = w.reconnectTimer) :
    reconnecting.Kept w w' l := by
  refine kept_of_same ?_ ht rfl ?_
  · rintro ⟨hs, hstate⟩
    exact ⟨h.stream.symm.trans hs, h.state hstate⟩
  · rintro delay r ⟨hd, hr⟩
    exact ⟨hd, by rw [hr, h.generation]⟩

theorem not_handshaken_new (htrace : w'.trace = w.trace ++ l)
    (hl : ∀ r ∈ l, r.2 ≠ .handshake) (hg : w'.impl.generation = w.impl.generation)
    (h : w'.Handshaken) : w.Handshaken := by
  rw [Handshaken, htrace, hg] at h
  rcases List.mem_append.mp h with h | h
  · exact h
  · exact absurd rfl (hl _ h)

theorem SameWaits.established (h : SameWaits w w') (ht : w'.idleTimer = w.idleTimer)
    (htrace : w'.trace = w.trace ++ l) (hl : ∀ r ∈ l, r.2 ≠ .handshake) :
    established.Kept w w' l := by
  refine kept_of_same ?_ ht h.generation ?_
  · rintro ⟨hs, hh⟩
    exact ⟨h.stream ▸ hs, not_handshaken_new htrace hl h.generation hh⟩
  · rintro delay r ⟨hd, hg, hr⟩
    exact ⟨hd, hg.trans h.generation.symm, hr⟩

theorem SameWaits.voiceAwaited (h : SameWaits w w') (ht : w'.voiceTimer = w.voiceTimer) :
    voiceAwaited.Kept w w' l := by
  refine kept_of_same h.voiceStarting ht rfl ?_
  rintro delay r ⟨hd, hr⟩
  exact ⟨hd, by rw [hr, h.generation]⟩

theorem delay_le {m n : ℕ} (hd : n = m ∨ n = 100) (hle : m ≤ 30000) : n ≤ 30000 := by
  omega

theorem heeds_of_same (h : SameWaits w w') (hr : w'.reconnectTimer = w.reconnectTimer)
    (hi : w'.idleTimer = w.idleTimer) (hv : w'.voiceTimer = w.voiceTimer)
    (hd : w'.impl.reconnectDelay = w.impl.reconnectDelay)
    (htrace : w'.trace = w.trace ++ l) (hl : ∀ r ∈ l, r.2 ≠ .handshake) : Heeds w w' l where
  trace := htrace
  reconnectTimer := by rw [hr]
  idleTimer := by rw [hi]
  voiceTimer := by rw [hv]
  reconnecting := h.reconnecting hr
  established := h.established hi htrace hl
  voiceAwaited := h.voiceAwaited hv
  delay hle := hd.trans_le hle

theorem heeds_log (w : World) {r : Record} (hr : r ≠ .handshake) :
    Heeds w (w.log r) [(w.impl.generation, r)] :=
  heeds_of_same ⟨rfl, rfl, id, id⟩ rfl rfl rfl rfl rfl (by simpa using hr)

theorem heeds_rearm (hs : SameWaits w w') (hr : w'.reconnectTimer = w.reconnectTimer)
    (hi : w'.idleTimer = w.resetIdleTimer.idleTimer) (hv : w'.voiceTimer = w.voiceTimer)
    (hd : w'.impl.reconnectDelay = w.impl.reconnectDelay ∨ w'.impl.reconnectDelay = 100)
    {r : Record}
    (htrace : w'.trace = w.trace ++ [(w.impl.generation, r)]) (hstirs : r.stirs = true) :
    Heeds w w' [(w.impl.generation, r)] where
  trace := htrace
  reconnectTimer := by rw [hr]
  idleTimer := by
    rw [hi]
    exact .single (.arm ..)
  voiceTimer := by rw [hv]
  reconnecting := hs.reconnecting hr
  established _ := by
    have harmed : w'.idleTimer = asyncWait w.impl.generation
      (expiresAfter idleTimeout w.idleTimer) := hi
    refine .inr ⟨?_, idleTimeout, ?_, _, List.mem_singleton_self _, rfl, hs.generation.symm, hstirs⟩
    · change w.idleTimer.epoch < w'.idleTimer.epoch
      rw [harmed]
      exact Nat.lt_succ_self _
    · change w'.idleTimer.Awaits idleTimeout w'.impl.generation
      rw [harmed, hs.generation]
      exact awaits_arm _ _ _
  voiceAwaited := hs.voiceAwaited hv
  delay := delay_le hd

theorem heeds_await (w : World) : Heeds w
    { w.resetIdleTimer.log (.queued (remoteKey keyCodeSearch .short)) with
      impl.voiceStarting := true
      voiceTimer := (w.voiceTimer.expiresAfter voiceStartTimeout).asyncWait () }
    [(w.impl.generation, .queued (remoteKey keyCodeSearch .short))] := by
  have hqueue : Heeds w (w.resetIdleTimer.log (.queued (remoteKey keyCodeSearch .short)))
      [(w.impl.generation, .queued (remoteKey keyCodeSearch .short))] := by
    refine heeds_rearm ?_ ?_ ?_ ?_ (.inl ?_) ?_ rfl
    · exact ⟨rfl, rfl, id, id⟩
    all_goals rfl
  refine ⟨hqueue.trace, hqueue.reconnectTimer, hqueue.idleTimer, .single (.arm ..),
    hqueue.reconnecting, hqueue.established, ?_, hqueue.delay⟩
  intro _
  exact .inr ⟨Nat.lt_succ_self _, voiceStartTimeout, awaits_arm _ _ _, _,
    List.mem_singleton_self _, rfl, rfl⟩

theorem heeds_hush (w : World) {t : Timer Unit} (ht : w.voiceTimer.Changes t) :
    Heeds w { w with impl.voiceStarting := false, voiceTimer := t } [] where
  trace := (List.append_nil _).symm
  reconnectTimer := .refl
  idleTimer := .refl
  voiceTimer := ht
  reconnecting := SameWaits.reconnecting ⟨rfl, rfl, id, fun h ↦ by cases h⟩ rfl
  established := SameWaits.established ⟨rfl, rfl, id, fun h ↦ by cases h⟩ rfl
    (List.append_nil _).symm (by simp)
  voiceAwaited := kept_of_not fun h ↦ by cases h
  delay := id

theorem heeds_close (hr : w.reconnectTimer.Changes w'.reconnectTimer)
    (hi : w.idleTimer.Changes w'.idleTimer) (hv : w.voiceTimer.Changes w'.voiceTimer)
    (hwait : reconnecting.Kept w w' l) (hshaken : ¬ w'.Handshaken ∨ w'.impl.stream = none)
    (hstart : w'.impl.voiceStarting = false)
    (hd : w.impl.reconnectDelay ≤ 30000 → w'.impl.reconnectDelay ≤ 30000)
    (htrace : w'.trace = w.trace ++ l) : Heeds w w' l where
  trace := htrace
  reconnectTimer := hr
  idleTimer := hi
  voiceTimer := hv
  reconnecting := hwait
  established := by
    apply kept_of_not
    rintro ⟨hs, hh⟩
    rcases hshaken with hn | hn
    · exact hn hh
    · simp [hn] at hs
  voiceAwaited := kept_of_not fun h ↦ by cases hstart.symm.trans h
  delay := hd

end Heeds

def Minds (w w' : World) : Prop := ∃ l, Heeds w w' l

section Handlers

variable {w v : World}

theorem Minds.trans {w' : World} (h : Minds w v) (h' : Minds v w') : Minds w w' := by
  obtain ⟨l, hl⟩ := h
  obtain ⟨l', hl'⟩ := h'
  exact ⟨l ++ l', hl.trans hl'⟩

theorem minds_of_same (h : SameWaits w v) (hr : v.reconnectTimer = w.reconnectTimer)
    (hi : v.idleTimer = w.idleTimer) (hv : v.voiceTimer = w.voiceTimer)
    (hd : v.impl.reconnectDelay = w.impl.reconnectDelay) (ht : v.trace = w.trace) : Minds w v :=
  ⟨[], heeds_of_same h hr hi hv hd (ht.trans (List.append_nil _).symm) (by simp)⟩

theorem Minds.refl (w : World) : Minds w w :=
  minds_of_same ⟨rfl, rfl, id, id⟩ rfl rfl rfl rfl rfl

theorem Minds.log (h : Minds w v) {r : Record} (hr : r ≠ .handshake) : Minds w (v.log r) :=
  h.trans ⟨_, heeds_log v hr⟩

theorem Minds.delay (h : Minds w v) (hd : w.impl.reconnectDelay ≤ 30000) :
    v.impl.reconnectDelay ≤ 30000 := by
  obtain ⟨l, hl⟩ := h
  exact hl.delay hd

theorem Chore.minds (h : Chore w v) : Minds w v := by
  cases h with
  | log r hr =>
    refine ⟨_, heeds_log w ?_⟩
    rintro rfl
    cases hr
  | tune i hi hstate hvoice =>
    have hsame : SameWaits w { w with impl := i } :=
      ⟨congrArg Ground.generation hi, congrArg Ground.stream hi, hstate, hvoice⟩
    exact minds_of_same hsame rfl rfl rfl (congrArg Ground.reconnectDelay hi) rfl
  | hush t ht => exact ⟨_, heeds_hush w ht⟩
  | await => exact ⟨_, heeds_await w⟩
  | queue m =>
    refine ⟨_, heeds_rearm (r := .queued m) ?_ ?_ ?_ ?_ (.inl ?_) ?_ rfl⟩
    · exact ⟨rfl, rfl, id, id⟩
    all_goals rfl
  | write => exact minds_of_same ⟨rfl, rfl, id, id⟩ rfl rfl rfl rfl rfl

theorem Task.minds (h : Task w v) : Minds w v := by
  cases h with
  | chore h => exact h.minds
  | consume | read | start => exact minds_of_same ⟨rfl, rfl, id, id⟩ rfl rfl rfl rfl rfl
  | frame m hm =>
    refine ⟨_, heeds_rearm (r := .received m) ?_ ?_ ?_ ?_ (.inl ?_) ?_ ?_⟩
    · exact ⟨rfl, rfl, id, id⟩
    all_goals first | rfl | simpa [Record.stirs] using hm

theorem Tasks.minds (h : Tasks w v) : Minds w v := by
  induction h with
  | refl => exact .refl w
  | tail _ ht ih => exact ih.trans ht.minds

theorem minds_lose (hu : w.impl.userDisconnect = false) (ha : w.impl.shuttingDown = false)
    (hd : w.impl.reconnectDelay ≤ 30000) :
    Minds w (w.handleConnectionLoss w.impl.generation) := by
  rw [handleConnectionLoss_spec hu ha]
  simp only [List.append_assoc]
  generalize (if w.impl.state = .connected then
    [(w.impl.generation + 1, Record.callback (.availabilityChanged false))] else []) = news
  split
  · refine ⟨_, heeds_close (.single (.arm ..)) .refl .refl ?_ (.inr rfl) rfl ?_ rfl⟩
    · intro _
      refine .inr ⟨Nat.lt_succ_self _, w.impl.reconnectDelay, awaits_arm _ _ _,
        (w.impl.generation + 1, .reconnectArmed w.impl.reconnectDelay), by simp, hd, rfl⟩
    · exact fun _ ↦ min_le_right _ _
  · refine ⟨_, heeds_close .refl .refl .refl ?_ (.inr rfl) rfl id rfl⟩
    exact kept_of_not fun hw ↦ by cases hw.2

theorem minds_refuse (error : String) (hu : w.impl.userDisconnect = false)
    (ha : w.impl.shuttingDown = false) :
    Minds w (w.authenticationFailed error w.impl.generation) := by
  rw [authenticationFailed_spec error hu ha]
  simp only [List.append_assoc]
  refine ⟨_, heeds_close .refl .refl .refl ?_ (.inr rfl) rfl id rfl⟩
  exact kept_of_not fun hw ↦ by cases hw.2

theorem heeds_goOn {r : Timer Unit} {i : Timer ℕ} {t : Timer Unit} (hr : reconnecting.GoesOn w r)
    (hi : established.GoesOn w i) (ht : voiceAwaited.GoesOn w t) :
    Heeds w { w with reconnectTimer := r, idleTimer := i, voiceTimer := t } [] where
  trace := (List.append_nil _).symm
  reconnectTimer := hr.changes
  idleTimer := hi.changes
  voiceTimer := ht.changes
  reconnecting := kept_of_awaits id hr.epoch hr.awaits fun _ _ ↦ id
  established := kept_of_awaits id hi.epoch hi.awaits fun _ _ ↦ id
  voiceAwaited := kept_of_awaits id ht.epoch ht.awaits fun _ _ ↦ id
  delay := id

/-- The idle wait that closes the connection need not go on. -/
theorem Minds.of_idle {i : Timer ℕ} {w' : World} (h : Minds { w with idleTimer := i } w')
    (hi : w.idleTimer.Changes i) (hs : w'.impl.stream = none) : Minds w w' := by
  obtain ⟨l, h⟩ := h
  refine ⟨l, h.trace, h.reconnectTimer, hi.trans h.idleTimer, h.voiceTimer, h.reconnecting, ?_,
    h.voiceAwaited, h.delay⟩
  refine kept_of_not ?_
  rintro ⟨hlive, -⟩
  simp [hs] at hlive

theorem minds_beginConnect (h : w.Bounded) {delay : ℕ} {t : Timer Unit} (reconnecting : Bool)
    (a : IdentityAttempt) (hd : w.impl.reconnectDelay ≤ 30000 → delay ≤ 30000)
    (ht : w.reconnectTimer.Changes t) :
    Minds w ((w.wanting delay t).beginConnect reconnecting a) := by
  obtain ⟨n, context, l, hl, ⟨error, he⟩ | ⟨k, -, he⟩⟩ :=
    beginConnect_cases (w := w.wanting delay t) reconnecting a h.alive rfl
  · rw [he]
    refine ⟨_, heeds_close ht .refl .refl ?_ (.inr rfl) rfl hd rfl⟩
    exact kept_of_not fun hw ↦ by cases hw.2
  · rw [he]
    refine ⟨_, heeds_close ht .refl .refl ?_ (.inl ?_) rfl hd rfl⟩
    · exact kept_of_not fun hw ↦ Option.some_ne_none _ hw.1
    · intro hh
      rcases List.mem_append.mp hh with hh | hh
      · exact absurd (h.trace_le _ hh) (Nat.not_succ_le_self _)
      · rcases List.mem_append.mp hh with hh | hh
        · obtain ⟨k, b, hr⟩ := hl _ hh
          cases congrArg Prod.snd hr
        · simp at hh

end Handlers

section Step

variable {w w' : World}

theorem minds_reconnectWait (h : w.Inv) (q : Wait Unit × Code) (a : IdentityAttempt) :
    Minds w ({ w with reconnectTimer := w.reconnectTimer.dequeue q }.onReconnectWait q.2 a) := by
  by_cases hg : q.2 = .success ∧ w.impl.userDisconnect = false
  · have hminds := minds_beginConnect h.toBounded true a id
      (.single (.dequeue _ q))
    rw [onReconnectWait, if_pos hg]
    rw [wanting, ← hg.2] at hminds
    exact hminds
  · rw [onReconnectWait, if_neg hg]
    refine ⟨_, heeds_goOn (goesOn_dequeue ?_) (goesOn_refl _ w) (goesOn_refl _ w)⟩
    rintro ⟨hs, hstate⟩ hq
    rcases (h.closed hs).state with hd | ⟨-, hu, -⟩
    · cases hd.symm.trans hstate
    · exact absurd ⟨hq, hu⟩ hg

theorem Deed.minds {e : Event} (h : Deed w e w') (hw : w.Inv)
    (hd : w.impl.reconnectDelay ≤ 30000) : Minds w w' := by
  cases h with
  | work _ h => exact h.minds
  | emptyFrame =>
    exact ⟨_, heeds_of_same ⟨rfl, rfl, id, id⟩ rfl rfl rfl rfl rfl (by simp)⟩
  | @handshake _ v _ _ h h' =>
    refine (h.minds.trans ⟨_, heeds_rearm (r := .handshake) ?_ ?_ ?_ ?_ (.inr ?_) ?_ rfl⟩).trans
      h'.minds
    · exact ⟨rfl, rfl, id, id⟩
    all_goals rfl
  | lose _ h hu ha => exact h.minds.trans (minds_lose hu ha (h.minds.delay hd))
  | refuse _ h hu ha error => exact h.minds.trans (minds_refuse error hu ha)
  | connect a =>
    exact minds_beginConnect hw.toBounded false a (fun _ ↦ by decide) (.single (.cancel _))
  | disconnect =>
    refine ⟨_, heeds_close (.single (.cancel _)) (.single (.cancel _)) (.single (.cancel _)) ?_
      (.inr rfl) rfl id (List.append_assoc _ _ _)⟩
    exact kept_of_not fun hwait ↦ by cases hwait.2
  | disconnectAndWait =>
    refine ⟨_, heeds_close (.single (.cancel _)) (.single (.cancel _)) (.single (.cancel _)) ?_
      (.inr rfl) rfl id rfl⟩
    exact kept_of_not fun hwait ↦ by cases hwait.2
  | reconnectExpires t ht =>
    exact ⟨_, heeds_goOn (goesOn_expire ht) (goesOn_refl _ w) (goesOn_refl _ w)⟩
  | idleExpires t ht =>
    exact ⟨_, heeds_goOn (goesOn_refl _ w) (goesOn_expire ht) (goesOn_refl _ w)⟩
  | reconnectWait q a => exact minds_reconnectWait hw q a
  | idleSkip q hf =>
    refine ⟨_, heeds_goOn (goesOn_refl _ w) (goesOn_dequeue ?_) (goesOn_refl _ w)⟩
    rintro ⟨hs, -⟩ hq hcap
    have hlost : (Event.idleWait q).fate w = .lost := if_pos ⟨hq, (hw.opened hs).wanted, hcap⟩
    cases hlost.symm.trans hf
  | idleClose q _ _ _ hu ha =>
    let v := { w with idleTimer := w.idleTimer.dequeue q }.emitError
      "closing idle Android TV connection after 16 seconds without traffic"
    refine Minds.of_idle (Minds.trans ?_ (minds_lose (w := v) hu ha hd)) (.single (.dequeue _ q))
      (handleConnectionLoss_closes v).1
    exact (Minds.refl _).log (by simp)
  | voiceExpires t ht =>
    exact ⟨_, heeds_goOn (goesOn_refl _ w) (goesOn_refl _ w) (goesOn_expire ht)⟩
  | voiceSkip q h =>
    refine ⟨_, heeds_goOn (goesOn_refl _ w) (goesOn_refl _ w) (goesOn_dequeue ?_)⟩
    intro hwait hq
    exact absurd ⟨hq, hwait⟩ h

end Step

end World

structure Timed where
  world : World
  now : ℕ := 0
  reconnectAt : ℕ := 0
  idleAt : ℕ := 0
  voiceAt : ℕ := 0
  stamped : List (ℕ × ℕ × Record) := []

namespace Timed

def ofOptions (o : Options) : Timed := { world := World.ofOptions o }

/-- The clock does not go back, and no timer is late. -/
def Prompt (s : Timed) (time : ℕ) : Prop :=
  s.now ≤ time ∧ s.world.reconnectTimer.Permits s.reconnectAt s.now time ∧
    s.world.idleTimer.Permits s.idleAt s.now time ∧ s.world.voiceTimer.Permits s.voiceAt s.now time

instance (s : Timed) (time : ℕ) : Decidable (s.Prompt time) :=
  inferInstanceAs (Decidable (_ ∧ _))

def step (s : Timed) (x : ℕ × Event) : Option Timed :=
  if s.Prompt x.1 then
    (s.world.step x.2).map fun w ↦
      { world := w
        now := x.1
        reconnectAt := s.world.reconnectTimer.restamp w.reconnectTimer s.reconnectAt x.1
        idleAt := s.world.idleTimer.restamp w.idleTimer s.idleAt x.1
        voiceAt := s.world.voiceTimer.restamp w.voiceTimer s.voiceAt x.1
        stamped := s.stamped ++ (w.trace.drop s.world.trace.length).map (Prod.mk x.1) }
  else none

structure Attentive (s : Timed) : Prop where
  ready : s.world.Ready
  delay : s.world.impl.reconnectDelay ≤ 30000
  records : s.stamped.map Prod.snd = s.world.trace
  reconnecting : World.reconnecting.Watched s.world s.stamped s.reconnectAt s.now
  established : World.established.Watched s.world s.stamped s.idleAt s.now
  voiceAwaited : World.voiceAwaited.Watched s.world s.stamped s.voiceAt s.now

theorem attentive_ofOptions (o : Options) : (ofOptions o).Attentive where
  ready := World.ready_ofOptions o
  delay := (by decide : 100 ≤ 30000)
  records := rfl
  reconnecting := ⟨fun _ _ hw ↦ (by rcases hw with h | h <;> cases h), fun hw ↦ (by cases hw.2)⟩
  established := ⟨fun _ _ hw ↦ (by rcases hw with h | h <;> cases h), fun hw ↦ (by cases hw.1)⟩
  voiceAwaited := ⟨fun _ _ hw ↦ (by rcases hw with h | h <;> cases h), fun hw ↦ (by cases hw)⟩

theorem Attentive.step {s s' : Timed} {x : ℕ × Event} (h : s.Attentive)
    (hs : s.step x = some s') : s'.Attentive := by
  obtain ⟨⟨-, hr, hi, hv⟩, hmap⟩ := (Option.ite_none_right_eq_some ..).mp hs
  obtain ⟨w, hw, rfl⟩ := Option.map_eq_some_iff.mp hmap
  obtain ⟨l, hl⟩ := (h.ready.deed hw).minds h.ready.toInv h.delay
  have hdrop : w.trace.drop s.world.trace.length = l := by rw [hl.trace, List.drop_left]
  simp only [hdrop]
  refine ⟨h.ready.next hw, hl.delay h.delay, ?_, h.reconnecting.step hr hl.reconnectTimer
    hl.reconnecting, h.established.step hi hl.idleTimer hl.established,
    h.voiceAwaited.step hv hl.voiceTimer hl.voiceAwaited⟩
  rw [List.map_append, h.records, List.map_map, hl.trace]
  simp

/-- Nothing waits for ever. As long as timers are not late, an object that
waits to reconnect lost its connection no longer ago than the delay it was then
told, at most half a minute; on a connection whose handshake is done, the last
message queued or frame received that was not empty, or the handshake itself, is
no older than sixteen seconds; and a voice session is awaited for no longer than
two seconds after the search key was sent. -/
theorem waits_are_bounded {o : Options} {es : List (ℕ × Event)} {s : Timed}
    (h : Run step (ofOptions o) es s) :
    s.stamped.map Prod.snd = s.world.trace ∧
    (s.world.impl.stream = none → s.world.impl.state = .reconnecting →
      ∃ time delay, (time, s.world.impl.generation, .reconnectArmed delay) ∈ s.stamped ∧
        delay ≤ 30000 ∧ s.now ≤ time + delay) ∧
    (s.world.impl.stream.isSome = true → s.world.Handshaken →
      ∃ time r, (time, s.world.impl.generation, r) ∈ s.stamped ∧ r.stirs = true ∧
        s.now ≤ time + 16000) ∧
    (s.world.impl.voiceStarting = true →
      ∃ time, (time, s.world.impl.generation, .queued (remoteKey keyCodeSearch .short)) ∈
        s.stamped ∧ s.now ≤ time + 2000) := by
  have hs : s.Attentive := h.invariant (fun _ _ _ ht he ↦ ht.step he) (attentive_ofOptions o)
  refine ⟨hs.records, ?_, ?_, ?_⟩
  · intro hstream hstate
    obtain ⟨delay, ⟨time, r⟩, hx, ⟨hd, rfl⟩, hnow⟩ := hs.reconnecting.bound ⟨hstream, hstate⟩
    exact ⟨time, delay, hx, hd, hnow⟩
  · intro hlive hh
    obtain ⟨delay, ⟨time, g, r⟩, hx, ⟨rfl, rfl, hr⟩, hnow⟩ := hs.established.bound ⟨hlive, hh⟩
    exact ⟨time, r, hx, hr, hnow⟩
  · intro hstart
    obtain ⟨delay, ⟨time, r⟩, hx, ⟨rfl, rfl⟩, hnow⟩ := hs.voiceAwaited.bound hstart
    exact ⟨time, hx, hnow⟩

theorem waits_are_bounded_voice :
    let es : List (ℕ × Event) := (.connect {} :: Event.handshakes 1 ++
      Event.reads 1 Event.voiceConfigure ++ Event.reads 1 Event.startMessage).map (Prod.mk 0) ++
        [(5, .startVoice), (1005, .sendKey 3 .short)]
    ∃ s, Run step (ofOptions { enableVoice := true }) es s ∧
      s.world.impl.voiceStarting = true ∧ s.now = 1005 ∧
      ∃ time, (time, s.world.impl.generation, .queued (remoteKey keyCodeSearch .short)) ∈
        s.stamped ∧ s.now ≤ time + 2000 := by
  intro es
  let s := (exec step (ofOptions { enableVoice := true }) es).get (by decide +kernel)
  have h : Run step (ofOptions { enableVoice := true }) es s := run_of_isSome _
  have hstart : s.world.impl.voiceStarting = true := by decide +kernel
  exact ⟨s, h, hstart, by decide +kernel, (waits_are_bounded h).2.2.2 hstart⟩

end Timed

end AndroidTvRemote
