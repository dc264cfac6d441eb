import AndroidTvRemote.Reactions

namespace AndroidTvRemote

open Wire Protocol SteadyTimer Runs

def Event.superseded (w : World) : Event → Bool
  | reconnectWait q _ => w.reconnectTimer.Superseded q.1
  | idleWait q => w.idleTimer.Superseded q.1
  | voiceWait q => w.voiceTimer.Superseded q.1
  | _ => false

/-- The handler finds nothing it was armed for: the user wants no connection,
the connection is another, no start of a voice session is waited for. -/
def Event.Spent (w : World) : Event → Prop
  | reconnectWait q _ => q.2 = .success → w.impl.userDisconnect = true
  | idleWait q => q.2 = .success → q.1.captured ≠ w.impl.generation
  | voiceWait q => q.2 = .success → w.impl.voiceStarting = false
  | _ => True

namespace World

def dequeued (w : World) : Event → World
  | .reconnectWait q _ => { w with reconnectTimer := w.reconnectTimer.dequeue q }
  | .idleWait q => { w with idleTimer := w.idleTimer.dequeue q }
  | .voiceWait q => { w with voiceTimer := w.voiceTimer.dequeue q }
  | _ => w

theorem generation_beginConnect {w : World} (ha : w.impl.shuttingDown = false)
    (hu : w.impl.userDisconnect = false) (reconnecting : Bool) (a : IdentityAttempt) :
    (w.beginConnect reconnecting a).impl.generation = w.impl.generation + 1 := by
  obtain ⟨n, context, l, -, ⟨error, he⟩ | ⟨k, -, he⟩⟩ := beginConnect_cases reconnecting a ha hu
  all_goals
    rw [he]
    rfl

theorem reconnectWait_dequeued_iff {w : World} (h : w.Inv) (q : Wait Unit × Code)
    (a : IdentityAttempt) :
    { w with reconnectTimer := w.reconnectTimer.dequeue q }.onReconnectWait q.2 a =
      { w with reconnectTimer := w.reconnectTimer.dequeue q } ↔
    (q.2 = .success → w.impl.userDisconnect = true) := by
  unfold onReconnectWait
  split_ifs with hg
  · refine ⟨?_, fun hspent ↦ by cases (hspent hg.1).symm.trans hg.2⟩
    intro heq
    have hgen := generation_beginConnect (w := { w with
      reconnectTimer := w.reconnectTimer.dequeue q }) h.alive hg.2 true a
    rw [heq] at hgen
    exact absurd hgen (Nat.lt_succ_self _).ne
  · refine ⟨?_, fun _ ↦ rfl⟩
    intro _ hq
    simpa [hq] using hg

theorem idleWait_dequeued_iff {w : World} (h : w.Inv) {q : Wait ℕ × Code}
    (hq : q ∈ w.idleTimer.queued) :
    { w with idleTimer := w.idleTimer.dequeue q }.onIdleWait q.1.captured q.2 =
      { w with idleTimer := w.idleTimer.dequeue q } ↔
    (q.2 = .success → q.1.captured ≠ w.impl.generation) := by
  unfold onIdleWait
  split_ifs with hg
  · refine ⟨?_, fun hspent ↦ absurd hg.2.2 (hspent hg.1)⟩
    intro heq
    rw [hg.2.2] at heq
    have hgen := handleConnectionLoss_closes ({ w with
      idleTimer := w.idleTimer.dequeue q }.emitError
        "closing idle Android TV connection after 16 seconds without traffic")
    have hgen' := (congrArg (fun v ↦ v.impl.generation) heq).symm.trans hgen.2
    exact absurd hgen' (Nat.lt_succ_self _).ne
  · refine ⟨fun _ hsuccess hcap ↦ hg ⟨hsuccess, ?_, hcap⟩, fun _ ↦ rfl⟩
    exact (h.opened (h.live_of_idle hq hcap)).wanted

theorem voiceWait_dequeued_iff (w : World) (q : Wait Unit × Code) :
    { w with voiceTimer := w.voiceTimer.dequeue q }.onVoiceWait q.2 =
      { w with voiceTimer := w.voiceTimer.dequeue q } ↔
    (q.2 = .success → w.impl.voiceStarting = false) := by
  unfold onVoiceWait
  split_ifs with hg
  · refine ⟨?_, fun hspent ↦ by cases (hspent hg.1).symm.trans hg.2⟩
    intro heq
    have hstart : false = w.impl.voiceStarting := congrArg (fun v ↦ v.impl.voiceStarting) heq
    cases hstart.trans hg.2
  · refine ⟨?_, fun _ ↦ rfl⟩
    intro _ hq
    simpa [hq] using hg

/-- The handler of a superseded wait does nothing exactly if its guard is off. -/
theorem wait_dequeued_iff {w w' : World} {e : Event} (h : w.Inv) (he : w.step e = some w')
    (hs : e.superseded w = true) : w' = w.dequeued e ↔ e.Spent w := by
  cases happens_of_step he with
  | reconnectWait q a => exact reconnectWait_dequeued_iff h q a
  | idleWait q hq => exact idleWait_dequeued_iff h hq
  | voiceWait q => exact voiceWait_dequeued_iff w q
  | _ => cases hs

/-- The superseded waits of a run all run without effect exactly when none of
them finds the state it was armed for: a reconnect wait a connection the user
wants, an idle wait its own connection, a voice wait a pending start. -/
theorem superseded_waits_spent_iff {o : Options} {es : List Event} {w : World}
    (h : Reaches o es w) :
    (∀ pre e post t t', es = pre ++ e :: post → Reaches o pre t → t.step e = some t' →
        e.superseded t = true → t' = t.dequeued e) ↔
      Along World.step (fun t e ↦ e.superseded t = true → e.Spent t) (World.ofOptions o) es := by
  constructor
  · intro hall
    refine h.along_or.resolve_right ?_
    intro h'
    obtain ⟨pre, e, post, t, t', hes, ht, he, -, hbad⟩ := h'
    rw [Classical.not_imp] at hbad
    have heq := hall pre e post t t' hes ht he hbad.1
    exact hbad.2 ((wait_dequeued_iff (inv_of_reaches ht) he hbad.1).mp heq)
  · intro hA pre e post t t' hes ht he hs
    exact (wait_dequeued_iff (inv_of_reaches ht) he hs).mpr (hA pre e post t hes ht hs)

theorem superseded_waits_spent_after_disconnect :
    let es := [.connect {}, .complete ⟨1, .resolve "" "6466"⟩ { error := some "host not found" },
      .reconnectExpires, .disconnect]
    let e : Event := .reconnectWait (⟨2, 100, ()⟩, .success) {}
    ∃ t t', Reaches {} es t ∧ t.step e = some t' ∧ e.superseded t = true ∧ t' = t.dequeued e := by
  intro es e
  let t := (exec World.step (World.ofOptions {}) es).get (by decide +kernel)
  have h : Reaches {} es t := run_of_isSome (by decide +kernel)
  have he := (Option.some_get (x := t.step e) (by decide +kernel)).symm
  refine ⟨_, _, h, he, by decide +kernel, ?_⟩
  refine (superseded_waits_spent_iff (h.trans (.one he))).mpr ?_ es e [] _ _ rfl h he
    (by decide +kernel)
  refine along_cons (Option.some_get (by decide +kernel)).symm (fun hs ↦ by cases hs) ?_
  refine along_cons (Option.some_get (by decide +kernel)).symm (fun hs ↦ by cases hs) ?_
  refine along_cons (Option.some_get (by decide +kernel)).symm (fun hs ↦ by cases hs) ?_
  refine along_cons (Option.some_get (by decide +kernel)).symm (fun hs ↦ by cases hs) ?_
  refine along_cons he ?_ (along_nil _ _)
  intro _ _
  decide +kernel

/-- Each timer has a run in which a superseded wait acts: a reconnect wait that
had fired when `connect` cancelled it tears down the new attempt, an idle wait
that had fired closes a connection that has just carried traffic, and a voice
wait that had fired ends the start requested after it. -/
theorem superseded_waits_act :
    (∃ t t', Reaches {} [.connect {},
          .complete ⟨1, .resolve "" "6466"⟩ { error := some "host not found" },
          .reconnectExpires, .connect {}] t ∧
        let e : Event := .reconnectWait (⟨2, 100, ()⟩, .success) {}
        t.step e = some t' ∧ e.superseded t = true ∧ t' ≠ t.dequeued e) ∧
    (∃ t t', Reaches {} (.connect {} :: Event.handshakes 1 ++ [.idleExpires] ++
          Event.reads 1 Event.startMessage) t ∧
        let e : Event := .idleWait (⟨1, 16000, 1⟩, .success)
        t.step e = some t' ∧ e.superseded t = true ∧ t' ≠ t.dequeued e) ∧
    ∃ t t', Reaches { enableVoice := true } (.connect {} :: Event.untilStart 1 ++
          Event.reads 1 [0x0A, 0x03, 0x08, 0xFF, 0x04] ++
          [.startVoice, .voiceExpires, .stopVoice, .startVoice]) t ∧
        let e : Event := .voiceWait (⟨1, 2000, ()⟩, .success)
        t.step e = some t' ∧ e.superseded t = true ∧ t' ≠ t.dequeued e := by
  refine ⟨⟨_, _, run_of_isSome (by decide +kernel), (Option.some_get (by decide +kernel)).symm, ?_, ?_⟩,
    ⟨_, _, run_of_isSome (by decide +kernel), (Option.some_get (by decide +kernel)).symm, ?_, ?_⟩,
    ⟨_, _, run_of_isSome (by decide +kernel), (Option.some_get (by decide +kernel)).symm, ?_, ?_⟩⟩
  all_goals decide +kernel

end World

end AndroidTvRemote
