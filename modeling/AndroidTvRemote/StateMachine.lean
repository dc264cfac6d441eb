import AndroidTvRemote.Reactions

namespace AndroidTvRemote.World

open Wire Protocol SteadyTimer Runs

/-- The structural invariant of the connection state machine. -/
theorem state_machine_invariant {o : Options} {es : List Event} {w : World}
    (h : Reaches o es w) :
    (w.impl.stream = none → w.impl.state = .disconnected ∨
      w.impl.state = .reconnecting ∧ w.reconnectTimer.Pending) ∧
    (w.impl.stream.isSome = true → w.impl.state ≠ .disconnected) ∧
    (w.impl.stream.isSome = true → ∃ k, k.isWrite = false ∧
      w.current = [⟨w.impl.generation, k⟩]) ∧
    (w.impl.state = .connected → w.Handshaken ∧ w.HasRead fun m ↦ m.kind = .start) ∧
    ¬ (w.impl.voiceStarting = true ∧ w.impl.voiceSessionId.isSome = true) ∧
    (w.impl.voiceStarting = true ∨ w.impl.voiceSessionId.isSome = true →
      w.impl.state = .connected ∧ w.impl.stream.isSome = true) := by
  have hinv := inv_of_reaches h
  refine ⟨?_, fun hs ↦ (hinv.opened hs).state, ?_, ?_, ?_, ?_⟩
  · intro hn
    exact (hinv.closed hn).state.imp_right fun ⟨hst, _, hp⟩ ↦ ⟨hst, hp⟩
  · intro hs
    obtain ⟨k, hb, -⟩ := hinv.ledger hs
    refine ⟨k, ?_, hb.current⟩
    have hmem : (⟨w.impl.generation, k⟩ : Op) ∈ w.current := by simp [hb.current]
    simpa using (List.mem_filter.mp hmem).2
  · intro hc
    exact (hinv.opened (hinv.live_of_connected hc)).online hc
  · intro h'
    obtain ⟨hv, hv'⟩ := h'
    cases hs : w.impl.stream with
    | none => simp [(hinv.closed hs).voiceStarting] at hv
    | some s => simp [(hinv.opened (by simp [hs])).voice hv] at hv'
  · intro hv
    have hs : w.impl.stream.isSome = true := by
      rw [Option.isSome_iff_ne_none]
      intro hn
      have hc := hinv.closed hn
      simp [hc.voiceStarting, hc.voiceSessionId] at hv
    exact ⟨(hinv.opened hs).voice_online hv, hs⟩

theorem state_machine_invariant_connecting :
    Reaches {} [.connect {}] ((World.ofOptions {}).connect {}) ∧
      ((World.ofOptions {}).connect {}).impl.stream.isSome = true ∧
      ∃ k, k.isWrite = false ∧ ((World.ofOptions {}).connect {}).current =
        [⟨((World.ofOptions {}).connect {}).impl.generation, k⟩] := by
  have h : Reaches {} [.connect {}] ((World.ofOptions {}).connect {}) := .cons rfl (.nil _)
  have hs : ((World.ofOptions {}).connect {}).impl.stream.isSome = true := by decide +kernel
  exact ⟨h, hs, (state_machine_invariant h).2.2.1 hs⟩

end AndroidTvRemote.World

namespace AndroidTvRemote

open Wire Protocol SteadyTimer Runs

def Record.isRevival : Record → Bool
  | opened _ | queued _ | write _ | reconnectArmed _
  | callback (.availabilityChanged true) => true
  | _ => false

def Event.isConnect : Event → Bool
  | connect _ => true
  | _ => false

theorem not_isRevival_of_isReport {c : Callback} (h : c.isReport = true) :
    (Record.callback c).isRevival = false := by
  cases c <;> first | rfl | cases h

namespace World

/-- The user wants no connection, and since an earlier world nothing was
recorded that would need one. -/
structure Resting (v w : World) : Prop where
  unwanted : w.impl.userDisconnect = true
  trace : ∃ l, w.trace = v.trace ++ l ∧ ∀ r ∈ l, r.2.isRevival = false

theorem Resting.record {v w w' : World} (h : Resting v w) {l : List (ℕ × Record)}
    (hu : w'.impl.userDisconnect = true) (ht : w'.trace = w.trace ++ l)
    (hl : ∀ r ∈ l, r.2.isRevival = false) : Resting v w' :=
  ⟨hu, grown_trans h.trace ⟨l, ht, hl⟩⟩

theorem Sound.stream_eq_none {w : World} (h : w.Sound) (hu : w.impl.userDisconnect = true) :
    w.impl.stream = none := by
  by_contra hs
  cases hu.symm.trans (h.opened (Option.isSome_iff_ne_none.mpr hs)).wanted

theorem Resting.inner {v w w' : World} (h : Resting v w) (hs : ¬ w.impl.stream.isSome = true)
    (hm : Inner w w') : Resting v w' := by
  have hu := h.unwanted
  cases hm with
  | report c hc =>
    exact h.record (l := [(w.impl.generation, .callback c)]) hu rfl
      (by simp [not_isRevival_of_isReport hc])
  | tune i hi =>
    exact h.record (l := []) ((congrArg Core.userDisconnect hi).trans hu) (by simp) (by simp)
  | timers | voiceGiveUp => exact h.record (l := []) hu (by simp) (by simp)
  | received _ hs' | reply _ _ hs' | online hs' | voiceStart hs' | voiceBegin _ hs'
  | voicePayload _ _ hs' | voiceEnd _ hs' => exact absurd hs' hs

theorem Resting.move {v w w' : World} (hw : w.Sound) (h : Resting v w) (hm : Move w w') :
    Resting v w' := by
  have hs : ¬ w.impl.stream.isSome = true := by simp [hw.stream_eq_none h.unwanted]
  cases hm with
  | inner hi => exact h.inner hs hi
  | consume | reconnectExpires | reconnectSkip =>
    exact h.record (l := []) h.unwanted (by simp) (by simp)
  | start _ hs' | wrote hs' | handshake hs' | lose hs' | refuse _ hs' => exact absurd hs' hs

theorem Resting.does {v w w' : World} {e : Event} (hw : w.Sound) (h : Resting v w)
    (he : e.isConnect = false) (hd : Does w e w') : Resting v w' := by
  cases hd with
  | moves hm => exact hm.invariant (fun _ _ ↦ Resting.move) hw h
  | send _ hs => simp [hw.stream_eq_none h.unwanted] at hs
  | attempt ha =>
    cases e with
    | connect => cases he
    | reconnectWait q a => simp [Event.attempt, h.unwanted] at ha
    | _ => cases ha
  | disconnect =>
    exact h.record rfl (List.append_assoc _ _ _) (by simp [Record.isRevival])
  | disconnectAndWait => exact h.record rfl rfl (by simp [Record.isRevival])

theorem Resting.run {v w w' : World} {es : List Event} (hw : w.Inv) (h : Resting v w)
    (hes : ∀ e ∈ es, e.isConnect = false) (hr : Run World.step w es w') :
    w'.Inv ∧ Resting v w' := by
  induction hr with
  | nil => exact ⟨hw, h⟩
  | cons he _ ih =>
    apply ih (hw.next he) (h.does hw.toSound (hes _ (by simp)) (hw.step he).1)
    intro e hmem
    exact hes e (by simp [hmem])

/-- After the handler of `disconnect`, or the one `startPairing` waits for, the
object rests until the next `connect`, whatever else runs. -/
theorem rests_until_connect {o : Options} {es es' : List Event} {e : Event} {v u w : World}
    (h : Reaches o es v) (he : e = .disconnect ∨ e = .disconnectAndWait)
    (hstep : v.step e = some u) (hes : ∀ e ∈ es', e.isConnect = false)
    (hr : Run World.step u es' w) :
    w.impl.state = .disconnected ∧ w.impl.stream = none ∧ w.impl.writeQueue = [] ∧
      w.reconnectTimer.armed = none ∧
      ∃ l, w.trace = u.trace ++ l ∧ ∀ r ∈ l, r.2.isRevival = false := by
  have hu : u.impl.userDisconnect = true := by
    rcases he with rfl | rfl
    all_goals
      obtain rfl := Option.some.inj hstep
      rfl
  obtain ⟨hinv, hrest⟩ := Resting.run ((inv_of_reaches h).next hstep)
    (v := u) ⟨hu, [], by simp, by simp⟩ hes hr
  have hn := hinv.stream_eq_none hrest.unwanted
  have hc := hinv.closed hn
  refine ⟨?_, hn, hc.writeQueue, hc.offline hrest.unwanted, hrest.trace⟩
  apply hc.state.resolve_right
  intro h'
  obtain ⟨_, hw, _⟩ := h'
  cases hw.symm.trans hrest.unwanted

theorem rests_until_connect_late_resolve :
    let v := (World.ofOptions {}).connect {}
    let op : Op := ⟨1, .resolve "" "6466"⟩
    Reaches {} [.connect {}] v ∧ v.step .disconnect = some v.disconnect ∧
      Run World.step v.disconnect [.complete op {}, .sendKey 3 .short]
        ((v.disconnect.complete op {}).sendKey 3 .short) ∧
      ((v.disconnect.complete op {}).sendKey 3 .short).impl.state = .disconnected := by
  intro v op
  have h : Reaches {} [.connect {}] v := .cons rfl (.nil _)
  have hop : op ∈ v.disconnect.ops ∧ Completion.Fits {} op.kind := by decide +kernel
  have hr : Run World.step v.disconnect [.complete op {}, .sendKey 3 .short]
      ((v.disconnect.complete op {}).sendKey 3 .short) :=
    .cons (step_complete _ op {} hop) (.cons rfl (.nil _))
  exact ⟨h, rfl, hr, (rests_until_connect h (.inl rfl) rfl (by decide) hr).1⟩

end World

end AndroidTvRemote
