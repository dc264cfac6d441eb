import AndroidTvRemote.Reactions

namespace AndroidTvRemote

open Wire Protocol SteadyTimer Runs

/-- The commands that replace or drop the connection without a word about the
availability of the TV. -/
def Event.leaves : Event → Bool
  | connect _ | disconnectAndWait => true
  | reconnectWait q _ => q.2 = .success
  | _ => false

theorem Event.leaves_of_attempt {w : World} {e : Event} {a : IdentityAttempt}
    (h : e.attempt w = some a) : e.leaves = true := by
  cases e with
  | connect => rfl
  | reconnectWait q a =>
    obtain ⟨⟨hq, -⟩, -⟩ := (Option.ite_none_right_eq_some ..).mp h
    simpa [leaves] using hq
  | _ => cases h

namespace World

/-- The TV was last reported available exactly if the object is connected. -/
def Agrees (w : World) : Prop := w.available = true ↔ w.impl.state = .connected

theorem Agrees.stays {w w' : World} (h : w.Agrees) (hs : Stays w w') : w'.Agrees := by
  unfold Agrees
  rcases hs.available with ⟨hst, hav⟩ | ⟨hst, hav⟩
  · rw [hst, hav]
    exact h
  · simp [hst, hav]

theorem agrees_of_false {w : World} (ha : w.available = false)
    (hs : w.impl.state ≠ .connected) : w.Agrees := by
  simp [Agrees, ha, hs]

theorem Agrees.available_eq_false {w : World} (h : w.Agrees) (hc : w.impl.state ≠ .connected) :
    w.available = false := by
  rw [Bool.eq_false_iff]
  exact fun ha ↦ hc (h.mp ha)

theorem Agrees.lose {w : World} (hw : w.Sound) (h : w.Agrees)
    (hs : w.impl.stream.isSome = true) : (w.handleConnectionLoss w.impl.generation).Agrees := by
  rw [handleConnectionLoss_spec (hw.opened hs).wanted hw.alive]
  simp only
  split_ifs with hauto hc hc
  all_goals
    refine agrees_of_false ((available_append (List.append_assoc _ _ _)).trans ?_) (by simp)
    simp [Record.availability]
  all_goals exact h.available_eq_false hc

theorem Agrees.refuse {w : World} (hw : w.Sound) (h : w.Agrees) (error : String)
    (hs : w.impl.stream.isSome = true) :
    (w.authenticationFailed error w.impl.generation).Agrees := by
  rw [authenticationFailed_spec error (hw.opened hs).wanted hw.alive]
  simp only
  split_ifs with hc
  all_goals
    refine agrees_of_false ((available_append
      ((List.append_assoc _ _ _).trans (List.append_assoc _ _ _))).trans ?_) (by simp)
    simp [Record.availability]
  exact h.available_eq_false hc

theorem Agrees.move {w w' : World} (hw : w.Sound) (h : w.Agrees) (hm : Move w w') :
    w'.Agrees := by
  obtain hs | ⟨hs, rfl | ⟨error, rfl⟩⟩ := hm.stays_or hw
  · exact h.stays hs
  · exact h.lose hw hs
  · exact h.refuse hw error hs

theorem Bounded.available_beginConnect {w : World} (h : w.Bounded)
    (hu : w.impl.userDisconnect = false) (reconnecting : Bool) (a : IdentityAttempt) :
    (w.beginConnect reconnecting a).available = w.available ∧
      (w.beginConnect reconnecting a).impl.state ≠ .connected := by
  obtain ⟨n, context, l, hl, ⟨error, he⟩ | ⟨k, -, he⟩⟩ :=
    beginConnect_cases reconnecting a h.alive hu
  all_goals
    rw [he]
    refine ⟨available_eq rfl fun r hr ↦ ?_, ?_⟩
    · rcases List.mem_append.mp hr with hr | hr
      · obtain ⟨c, b, rfl⟩ := hl r hr
        rfl
      · simp at hr
        rcases hr with rfl | rfl <;> rfl
  · simp
  · cases reconnecting <;> simp

theorem available_disconnectAndWait (w : World) :
    w.disconnectAndWait.available = w.available ∧
      w.disconnectAndWait.impl.state ≠ .connected :=
  ⟨available_eq (l := [_]) rfl (by simp [Record.availability]), by
    simp [disconnectAndWait, setState, emit]⟩

theorem Agrees.does {w w' : World} {e : Event} (hw : w.Sound) (h : w.Agrees)
    (he : w.impl.state = .connected → e.leaves = false) (hd : Does w e w') : w'.Agrees := by
  cases hd with
  | moves hm => exact hm.invariant (fun _ _ ↦ Agrees.move) hw h
  | send _ hs => exact h.stays (stays_queueMessage hw hs _)
  | @attempt _ a ha reconnecting delay t =>
    have hc : w.impl.state ≠ .connected := fun hc ↦ by
      simp [Event.leaves_of_attempt ha] at he
      exact he hc
    obtain ⟨hav, hst⟩ := (hw.toBounded.wanting delay t).available_beginConnect rfl reconnecting a
    exact agrees_of_false (hav.trans (h.available_eq_false hc)) hst
  | disconnect =>
    refine agrees_of_false ((available_append (List.append_assoc _ _ _)).trans ?_) ?_
    · simp [Record.availability]
    · simp [disconnect, setState, emit, emitAvailability]
  | disconnectAndWait =>
    have hc : w.impl.state ≠ .connected := fun hc ↦ by cases he hc
    obtain ⟨hav, hst⟩ := available_disconnectAndWait w
    exact agrees_of_false (hav.trans (h.available_eq_false hc)) hst

/-- A connected object that obeys such a command goes on being reported
available. -/
theorem not_agrees_of_leaves {w w' : World} {e : Event} (hw : w.Inv) (h : w.Agrees)
    (hc : w.impl.state = .connected) (he : e.leaves = true) (hstep : w.step e = some w') :
    ¬ w'.Agrees := by
  have hkeeps : w'.available = w.available ∧ w'.impl.state ≠ .connected := by
    cases happens_of_step hstep with
    | connect a =>
      exact (hw.toBounded.wanting 100 w.reconnectTimer.cancel).available_beginConnect rfl false a
    | disconnectAndWait => exact available_disconnectAndWait w
    | reconnectWait q a =>
      have hq : q.2 = .success := by simpa [Event.leaves] using he
      have hu := (hw.opened (hw.live_of_connected hc)).wanted
      have hb : { w with reconnectTimer := w.reconnectTimer.dequeue q }.Bounded :=
        ⟨hw.alive, hw.ops_le, hw.idle_le, hw.trace_le⟩
      rw [onReconnectWait, if_pos ⟨hq, hu⟩]
      exact hb.available_beginConnect hu true a
    | _ => cases he
  intro h'
  exact hkeeps.2 (h'.mp (hkeeps.1.trans (h.mpr hc)))

/-- The last reported availability agrees with the state all along a run
exactly when no `connect`, `startPairing` or reconnect wait meets a connected
object in it. -/
theorem availability_agrees_iff {o : Options} {es : List Event} {w : World}
    (h : Reaches o es w) :
    (∀ pre post t, es = pre ++ post → Reaches o pre t → t.Agrees) ↔
      Along World.step (fun t e ↦ t.impl.state = .connected → e.leaves = false)
        (World.ofOptions o) es := by
  constructor
  · intro hall
    refine h.along_or.resolve_right ?_
    intro h'
    obtain ⟨pre, e, post, t, t', hes, ht, he, -, hbad⟩ := h'
    simp only [Classical.not_imp, Bool.not_eq_false] at hbad
    have hagrees := hall pre (e :: post) t hes ht
    have hagrees' := hall (pre ++ [e]) post t' (by simp [hes]) (ht.trans (.one he))
    exact not_agrees_of_leaves (inv_of_reaches ht) hagrees hbad.1 hbad.2 he hagrees'
  · intro hA pre post t hes ht
    have hinit : (World.ofOptions o).Agrees := agrees_of_false rfl (by simp [ofOptions, Impl.ofOptions])
    rw [hes] at hA
    exact invariant_along ht hA.of_append hinit fun _ _ _ ↦ Agrees.does

theorem available_while_connecting :
    ∃ w, Reaches {} (.connect {} :: Event.untilStart 1 ++ [.connect {}]) w ∧
      ¬ (w.available = true ↔ w.impl.state = .connected) :=
  ⟨_, run_of_isSome (by decide +kernel), by decide +kernel⟩

theorem availability_agrees_until_start :
    ∃ w, Reaches {} (.connect {} :: Event.untilStart 1) w ∧ w.impl.state = .connected ∧
      ∀ pre post t, .connect {} :: Event.untilStart 1 = pre ++ post →
        Reaches {} pre t → t.Agrees := by
  have h : Reaches {} (.connect {} :: Event.untilStart 1) _ := run_of_isSome (by decide +kernel)
  have hleaves : ∀ e ∈ Event.untilStart 1, e.leaves = false := by decide
  refine ⟨_, h, by decide +kernel, (availability_agrees_iff h).mpr ?_⟩
  refine along_cons rfl (fun hc ↦ by cases hc) ?_
  intro pre e post t hes _ _
  exact hleaves e (by simp [hes])

end World

end AndroidTvRemote
