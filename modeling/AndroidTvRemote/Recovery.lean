import AndroidTvRemote.Lifecycle
import AndroidTvRemote.Reconnect

namespace AndroidTvRemote

open Wire Protocol SteadyTimer Runs Framing

def Event.isCall : Event → Bool
  | connect _ | disconnect | disconnectAndWait | sendKey _ _ | sendText _ | launchApp _ => true
  | startVoice | sendVoiceData _ | stopVoice => true
  | _ => false

def IdentityAttempt.Loads (o : Options) (a : IdentityAttempt) : Prop :=
  a.contextError = none ∧ loadClientIdentity o.certificateFile o.privateKeyFile a = .ok ()

namespace Stage

theorem eq_of_move {s t u : Stage} {m : Move} (h : Run step s [m] u) (hs : s.step m = some t) :
    u = t := h.unique (.one hs)

theorem started_online {s t : Stage} (h : Run step s [.started] t) : t = online := by
  cases h with
  | cons hs hnil =>
    cases hnil
    cases s <;> cases hs <;> rfl

/-- The operation that a live connection in a stage has outstanding. -/
def Outstanding : Stage → OpKind → Prop
  | resolving, k => ∃ host service, k = .resolve host service
  | joining, k => k = .connect
  | greeting, k => k = .handshake
  | listening, k | online, k => k ≠ .handshake
  | resting, _ | waiting, _ => False

theorem outstanding_ofKind (state : ConnectionState) (k : OpKind) :
    Outstanding (ofKind state k) k := by
  cases k with
  | resolve host service => exact ⟨host, service, rfl⟩
  | connect | handshake => rfl
  | readLength | readBody | write =>
    by_cases hc : state = .connected
    · simp [ofKind, hc, Outstanding]
    · simp [ofKind, hc, Outstanding]

end Stage

namespace World

variable {w v : World}

theorem ensureSslContext_loads {a : IdentityAttempt} (ha : a.Loads w.impl.options) :
    (w.ensureSslContext a).2 = .ok () := by
  cases hc : w.impl.sslContext with
  | some c => rw [ensureSslContext_cached hc]
  | none => rw [ensureSslContext_loaded hc ha.1 ha.2]

theorem openMove_loads {a : IdentityAttempt} (ha : a.Loads w.impl.options) :
    w.openMove a = .opened := by
  rw [openMove, ensureSslContext_loads (w := w.closeStream) ha]

/-- Completions and timers alone can bring the object to `Connected`. -/
def Recovers (w : World) : Prop :=
  ∃ es w', (∀ e ∈ es, e.isCall = false) ∧ Run World.step w es w' ∧ w'.impl.state = .connected

theorem recovers_connected (h : w.impl.state = .connected) : w.Recovers :=
  ⟨[], w, by simp, .nil w, h⟩

theorem Recovers.of_step {e : Event} (h : v.Recovers) (he : w.step e = some v)
    (hcall : e.isCall = false) : w.Recovers := by
  obtain ⟨es, w', hes, hrun, hc⟩ := h
  exact ⟨e :: es, w', List.forall_mem_cons.mpr ⟨hcall, hes⟩, .cons he hrun, hc⟩

theorem Staged.outstanding (h : w.Staged) (hs : w.impl.stream.isSome = true) :
    ∃ k : OpKind, (⟨w.impl.generation, k⟩ : Op) ∈ w.ops ∧ w.stage.Outstanding k := by
  obtain ⟨k, hb, -⟩ := h.ledger hs
  have hmem : (⟨w.impl.generation, k⟩ : Op) ∈ w.current := by simp [hb.current]
  refine ⟨k, List.mem_of_mem_filter hmem, ?_⟩
  rw [stage_live hs hb]
  exact Stage.outstanding_ofKind _ k

/-- What the completion of an operation of the current connection makes of the
stage. -/
theorem Staged.completes (h : w.Staged) {k : OpKind}
    (hop : (⟨w.impl.generation, k⟩ : Op) ∈ w.ops) {c : Completion} (hc : c.Fits k) :
    ∃ v, w.step (.complete ⟨w.impl.generation, k⟩ c) = some v ∧
      v = w.complete ⟨w.impl.generation, k⟩ c ∧ v.Staged ∧
      Run Stage.step w.stage (w.completeMove c k).toList v.stage := by
  have he := step_complete w ⟨w.impl.generation, k⟩ c ⟨hop, hc⟩
  have hshow := (h.step he).run
  rw [World.move, if_pos rfl] at hshow
  exact ⟨_, he, rfl, h.next he, hshow⟩

theorem stream_of_stage {s : Stage} (hs : w.stage = s) (hr : s ≠ .resting) (hw : s ≠ .waiting) :
    w.impl.stream.isSome = true := by
  rw [Option.isSome_iff_ne_none]
  intro hnone
  subst hs
  rw [stage_closed hnone] at hr hw
  by_cases hstate : w.impl.state = .reconnecting
  · exact hw (if_pos hstate)
  · exact hr (if_neg hstate)

theorem Staged.recovers_boundary (h : w.Staged) {g : ℕ} (ha : Awaits g (.length []) w) :
    w.Recovers := by
  obtain rfl := ha.generation
  have hlength : advance maxFrameSize (.length []) [3] = .ok ([], .body 3) := by decide +kernel
  obtain ⟨v, he, hv, hstaged, -⟩ := h.completes ha.reading (c := { bytes := [3] })
    ⟨le_rfl, fun _ ↦ rfl⟩
  have hbody := (ha.complete_ok rfl hlength).1
  rw [← hv] at hbody
  have hgen := hbody.generation
  have hop := hbody.reading
  rw [← hgen] at hop
  obtain ⟨u, he', -, -, hrun⟩ := hstaged.completes hop (c := { bytes := Event.startMessage })
    ⟨le_rfl, fun _ ↦ rfl⟩
  have hmove : v.completeMove { bytes := Event.startMessage } (.readBody 3) = some .started :=
    if_pos (by decide +kernel)
  rw [Phase.kind, hmove] at hrun
  have hc := connected_of_online (Stage.started_online hrun)
  exact ((recovers_connected hc).of_step he' rfl).of_step he rfl

theorem Staged.recovers_greeting (h : w.Staged) (hs : w.stage = .greeting) : w.Recovers := by
  have hlive := stream_of_stage hs (by simp) (by simp)
  obtain ⟨k, hop, hk⟩ := h.outstanding hlive
  rw [hs] at hk
  obtain rfl : k = .handshake := hk
  obtain ⟨v, he, hv, hstaged, -⟩ := h.completes hop (c := {}) ⟨le_rfl, fun _ ↦ rfl⟩
  refine (hstaged.recovers_boundary (g := w.impl.generation) ?_).of_step he rfl
  have ha := (awaits_beginReadLength (g := w.impl.generation) (w := { { w with
    ops := w.ops.erase ⟨w.impl.generation, .handshake⟩ }.log .handshake with
      impl.reconnectDelay := 100 }) rfl hlive).1
  rw [hv]
  simp only [World.complete, fill, handler, World.onHandshake, ne_eq, not_true_eq_false, if_false]
  exact ha.calm (calm_of_eq rfl rfl rfl rfl rfl rfl)

theorem Staged.recovers_joining (h : w.Staged) (hs : w.stage = .joining) : w.Recovers := by
  have hlive := stream_of_stage hs (by simp) (by simp)
  obtain ⟨k, hop, hk⟩ := h.outstanding hlive
  rw [hs] at hk
  obtain rfl : k = .connect := hk
  obtain ⟨v, he, -, hstaged, hrun⟩ := h.completes hop (c := {}) ⟨le_rfl, fun _ ↦ rfl⟩
  rw [hs] at hrun
  exact (hstaged.recovers_greeting (Stage.eq_of_move hrun rfl)).of_step he rfl

theorem Staged.recovers_resolving (h : w.Staged) (hs : w.stage = .resolving) : w.Recovers := by
  have hlive := stream_of_stage hs (by simp) (by simp)
  obtain ⟨k, hop, hk⟩ := h.outstanding hlive
  rw [hs] at hk
  obtain ⟨host, service, rfl⟩ := hk
  obtain ⟨v, he, -, hstaged, hrun⟩ := h.completes hop (c := {}) ⟨le_rfl, fun _ ↦ rfl⟩
  rw [hs] at hrun
  exact (hstaged.recovers_joining (Stage.eq_of_move hrun rfl)).of_step he rfl

theorem Staged.recovers_attempt (h : w.Staged) {e : Event} {a : IdentityAttempt}
    (he : w.step e = some v) (hm : w.move e = some (w.openMove a))
    (ha : a.Loads w.impl.options) : v.Recovers := by
  have hrun := (h.step he).run
  rw [hm, openMove_loads ha] at hrun
  refine (h.next he).recovers_resolving (Stage.eq_of_move hrun ?_)
  cases w.stage <;> rfl

theorem Staged.recovers_waiting (h : w.Staged) (hs : w.stage = .waiting) {a : IdentityAttempt}
    (ha : a.Loads w.impl.options) : w.Recovers := by
  have hclosed : w.impl.stream = none := by
    by_contra hne
    obtain ⟨k, -, hk⟩ := h.outstanding (Option.isSome_iff_ne_none.mpr hne)
    rw [hs] at hk
    exact hk
  obtain ⟨hu, wait, -, hwait⟩ : w.impl.userDisconnect = false ∧ w.reconnectTimer.Pending := by
    rcases (h.closed hclosed).state with hd | hr
    · rw [(h.toInv.resting_iff).mpr hd] at hs
      cases hs
    · exact hr.2
  have hqueued : ∀ u : World, u.Staged → u.impl = w.impl →
      (wait, Code.success) ∈ u.reconnectTimer.queued → u.Recovers := by
    intro u hstaged hi hq
    have he : u.step (.reconnectWait (wait, .success) a) = some _ := if_pos hq
    have hm : u.move (.reconnectWait (wait, .success) a) = some (u.openMove a) :=
      if_pos ⟨rfl, hi ▸ hu⟩
    exact (hstaged.recovers_attempt he hm (hi ▸ ha)).of_step he rfl
  rcases hwait with harmed | hq
  · have he : w.step .reconnectExpires = some { w with reconnectTimer := { w.reconnectTimer with
        armed := none
        queued := w.reconnectTimer.queued ++ [(wait, .success)] } } := by
      rw [World.step, Timer.expire, harmed]
      rfl
    exact (hqueued _ (h.next he) rfl (List.mem_append_right _ (List.mem_singleton_self _))).of_step
      he rfl
  · exact hqueued w h rfl hq

theorem Staged.recovers_listening (h : w.Staged) (hready : w.Ready) (hs : w.stage = .listening)
    (ho : w.impl.options.autoReconnect = true) {a : IdentityAttempt}
    (ha : ∀ v : World, v.impl.options = w.impl.options → a.Loads v.impl.options) : w.Recovers := by
  have hlive := stream_of_stage hs (by simp) (by simp)
  obtain ⟨k, hop, hk⟩ := h.outstanding hlive
  rw [hs] at hk
  have hne : k ≠ .handshake := hk
  obtain ⟨v, he, -, hstaged, hrun⟩ := h.completes hop (c := { error := some "" })
    ⟨Nat.zero_le _, fun herror ↦ by cases herror⟩
  have hmove : w.completeMove { error := some "" } k = some (.lost true) := by
    simp only [completeMove, if_neg hne, lossMove, ho]
  rw [hmove, hs] at hrun
  have hoptions : v.impl.options = w.impl.options := (hready.follows (.one he)).options
  exact (hstaged.recovers_waiting (Stage.eq_of_move hrun rfl) (ha v hoptions)).of_step he rfl

/-- The object is never wedged. As long as the client identity can be loaded, a
`connect` in any state, whatever is still going on, can be followed by
`Connected` without a further call; and with `autoReconnect`, so can every state
but `Disconnected` by itself. -/
theorem never_wedged {o : Options} {es : List Event} {w : World} (h : Reaches o es w)
    {a : IdentityAttempt} (ha : a.Loads o) :
    (∃ v, w.step (.connect a) = some v ∧ v.Recovers) ∧
      (o.autoReconnect = true → w.impl.state ≠ .disconnected → w.Recovers) := by
  have hstaged : w.Staged := h.invariant (fun _ _ _ hs he ↦ hs.next he) (staged_ofOptions o)
  have hoptions : w.impl.options = o := ((ready_ofOptions o).follows h).options
  have hconnect : w.step (.connect a) = some (w.connect a) := rfl
  refine ⟨⟨_, hconnect, hstaged.recovers_attempt hconnect rfl (hoptions ▸ ha)⟩, ?_⟩
  intro hauto hstate
  cases hs : w.stage with
  | resting => exact absurd (hstaged.toInv.resting_iff.mp hs) hstate
  | waiting => exact hstaged.recovers_waiting hs (hoptions ▸ ha)
  | resolving => exact hstaged.recovers_resolving hs
  | joining => exact hstaged.recovers_joining hs
  | greeting => exact hstaged.recovers_greeting hs
  | listening =>
    refine hstaged.recovers_listening (ready_of_reaches h) hs (hoptions ▸ hauto) (a := a) ?_
    intro v hv
    rwa [hv, hoptions]
  | online => exact recovers_connected (connected_of_online hs)

theorem never_wedged_mid_frame :
    ∃ w, Reaches {} (.connect {} :: Event.handshakes 1 ++
        [.complete ⟨1, .readLength⟩ { bytes := [200] }]) w ∧ w.impl.state = .connecting ∧
      w.Recovers := by
  have h : Reaches {} (.connect {} :: Event.handshakes 1 ++
      [.complete ⟨1, .readLength⟩ { bytes := [200] }]) _ := run_of_isSome (by decide +kernel)
  have hstate : ((exec World.step (World.ofOptions {}) (.connect {} :: Event.handshakes 1 ++
      [.complete ⟨1, .readLength⟩ { bytes := [200] }])).get (by decide +kernel)).impl.state =
        .connecting := by decide +kernel
  have hloads : IdentityAttempt.Loads {} {} := ⟨rfl, rfl⟩
  refine ⟨_, h, hstate, (never_wedged h hloads).2 rfl ?_⟩
  rw [hstate]
  decide

end World

end AndroidTvRemote
