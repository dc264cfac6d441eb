import AndroidTvRemote.SessionRefinement

namespace AndroidTvRemote

open Wire Protocol SteadyTimer Runs Base128

/-- The members a session depends on that `closeStream` does not reset. -/
@[ext] structure Memory where
  activeFeatures : Int32
  voiceEnabled : Bool
  imeCounter : Int32
  imeFieldCounter : Int32
  deriving DecidableEq

namespace Act

def handshakes (host service : String) : List Act :=
  [.complete (.resolve host service) {}, .complete .connect {}, .complete .handshake {}]

def reads (message : Bytes) : List Act :=
  [.complete .readLength { bytes := [UInt8.ofNat message.length] },
    .complete (.readBody message.length) { bytes := message }]

end Act

namespace Session

def opened (host service : String) (m : Memory) : Session where
  live := true
  connected := false
  voiceEnabled := m.voiceEnabled
  activeFeatures := m.activeFeatures
  imeCounter := m.imeCounter
  imeFieldCounter := m.imeFieldCounter
  voiceStarting := false
  voiceSessionId := none
  readLength := 0
  readShift := 0
  writeQueue := []
  writeInProgress := false
  ops := [.resolve host service]
  sent := []

theorem run_handshakes (host service : String) (m : Memory) :
    Run step (opened host service m) (Act.handshakes host service)
      { opened host service m with ops := [.readLength] } := by
  have hresolve : (opened host service m).step (.complete (.resolve host service) {}) =
      some { opened host service m with ops := [.connect] } := by
    simp [step, opened, Completion.Fits, OpKind.capacity, completed, succeed, start]
  exact .cons hresolve (.cons rfl (.one rfl))

theorem lengthByte_short {s : Session} (hn : s.readLength = 0) (hs : s.readShift = 0)
    {byte : UInt8} (hb : byte.toNat < 128) (hpos : byte.toNat ≠ 0) :
    ∃ n, s.lengthByte byte = { s with readLength := n }.start (.readBody byte.toNat) := by
  let n : UInt64 := s.readLength ||| ((byte &&& 0x7f).toUInt64 <<< UInt64.ofNat s.readShift)
  have hval : n.toNat = byte.toNat := by
    have hgroup : n = (byte &&& 0x7f).toUInt64 := by simp [n, hn, hs]
    rw [hgroup, payload_toNat, Nat.mod_eq_of_lt hb]
  refine ⟨n, ?_⟩
  unfold lengthByte
  simp only
  rw [if_neg (not_not.mpr ((continues_iff byte).mpr hb)), hval,
    if_neg (by simp only [World.maxFrameSize]; omega), if_neg hpos]

theorem run_reads {s : Session} (hl : s.live = true) (hops : s.ops = [.readLength])
    (hn : s.readLength = 0) (hs : s.readShift = 0) {m : Bytes} (hm : m.length ≠ 0)
    (hlen : m.length < 128) :
    ∃ n, Run step s (Act.reads m) ({ s with ops := [], readLength := n }.receive m).readNext := by
  have hbyte : (UInt8.ofNat m.length).toNat = m.length := by
    rw [UInt8.toNat_ofNat']
    omega
  have hready : { s with ops := s.ops.erase .readLength } = { s with ops := [] } := by
    rw [hops]
    rfl
  obtain ⟨n, hshort⟩ := lengthByte_short (s := { s with ops := [] }) hn hs
    (hbyte.trans_lt hlen) (hbyte.trans_ne hm)
  rw [hbyte] at hshort
  refine ⟨n, .cons (t := { s with ops := [.readBody m.length], readLength := n }) ?_ (.one ?_)⟩
  · refine (if_pos ⟨by simp [hops], by simp [Completion.Fits, OpKind.capacity]⟩).trans ?_
    rw [hready]
    exact congrArg some ((if_pos hl).trans hshort)
  · refine (if_pos ⟨by simp, by simp [Completion.Fits, OpKind.capacity]⟩).trans ?_
    refine congrArg some ((if_pos hl).trans ?_)
    simp [succeed]

theorem run_text (host service : String) (m : Memory) :
    ∃ s, Run step (opened host service m) [.sendText [0x61]] s ∧
      s.sent = [frame (remoteText [0x61] m.imeCounter m.imeFieldCounter)] :=
  ⟨_, .one rfl, rfl⟩

theorem run_setActive (host service : String) (m : Memory) :
    ∃ s, Run step (opened host service m)
        (Act.handshakes host service ++ Act.reads [0x12, 0x00]) s ∧
      s.sent = [frame (remoteSetActiveResponse m.activeFeatures)] := by
  obtain ⟨n, hr⟩ := run_reads (s := { opened host service m with ops := [.readLength] })
    rfl rfl rfl rfl (m := [0x12, 0x00]) (by decide) (by decide)
  refine ⟨_, (run_handshakes host service m).trans hr, ?_⟩
  have hparse : parseRemote [0x12, 0x00] = { kind := .setActive } := by decide +kernel
  simp only [receive, hparse]
  rfl

theorem run_voice (host service : String) (m : Memory) :
    ∃ s, Run step (opened host service m)
        ((Act.handshakes host service ++ Act.reads Event.startMessage) ++ [.startVoice]) s ∧
      s.sent = if m.voiceEnabled then [frame (remoteKey keyCodeSearch .short)] else [] := by
  obtain ⟨n, hr⟩ := run_reads (s := { opened host service m with ops := [.readLength] })
    rfl rfl rfl rfl (m := Event.startMessage) (by decide) (by decide)
  refine ⟨_, ((run_handshakes host service m).trans hr).trans (.one rfl), ?_⟩
  have hparse : parseRemote Event.startMessage = { kind := .start } := by decide +kernel
  simp only [receive, hparse]
  cases hv : m.voiceEnabled with
  | true => simp [startVoice, readNext, start, opened, hv, send, beginWrite]
  | false => simp [startVoice, readNext, start, opened, hv]

end Session

namespace World

def memory (w : World) : Memory where
  activeFeatures := w.impl.activeFeatures
  voiceEnabled := w.impl.voiceEnabled
  imeCounter := w.impl.imeCounter
  imeFieldCounter := w.impl.imeFieldCounter

/-- `beginConnect` has just opened a new stream, after any history of an
object with these options. -/
def JustOpened (o : Options) (w : World) : Prop :=
  ∃ es t e, Reaches o es t ∧ (e.attempt t).isSome = true ∧ t.step e = some w ∧
    w.impl.stream.isSome = true

/-- Handlers run one after the other, and none of them begins to connect. -/
def Continues (w : World) (es : List Event) (u : World) : Prop :=
  Run World.step w es u ∧ Along World.step (fun v e ↦ e.attempt v = none) w es

/-- Whenever the same happens on the connections of two objects, they queue
the same frames on them. -/
def SameFrames (w₁ w₂ : World) : Prop :=
  ∀ es₁ es₂ u₁ u₂, w₁.Continues es₁ u₁ → w₂.Continues es₂ u₂ →
    es₁.filterMap (Event.act w₁.impl.generation) =
      es₂.filterMap (Event.act w₂.impl.generation) →
    u₁.pushed w₁.impl.generation = u₂.pushed w₂.impl.generation

theorem Move.options {w w' : World} (h : w.Sound) (hm : Move w w') :
    w'.impl.options = w.impl.options := by
  obtain hs | he := hm.stays_or_ends h
  · exact congrArg Link.options hs.link
  · obtain ⟨state, delay, t, l, -, -⟩ := he
    rfl

theorem options_of_reaches {o : Options} {es : List Event} {w : World} (h : Reaches o es w) :
    w.impl.options = o := by
  apply invariant_of_reaches (P := fun w ↦ w.impl.options = o) h rfl
  intro w e w' hw ho hd
  cases hd with
  | moves hm =>
    exact hm.invariant (P := fun v ↦ v.impl.options = o)
      (fun _ _ hv hp hm ↦ (hm.options hv).trans hp) hw ho
  | send _ hs => exact (congrArg Link.options (stays_queueMessage hw hs _).link).trans ho
  | attempt _ reconnecting delay t =>
    obtain ⟨n, context, l, -, ⟨error, he⟩ | ⟨k, -, he⟩⟩ :=
      beginConnect_cases reconnecting _ (hw.toBounded.wanting delay t).alive rfl
    all_goals
      rw [he]
      exact ho
  | disconnect | disconnectAndWait => exact ho

theorem Bounded.session_beginConnect {w : World} (h : w.Bounded)
    (hu : w.impl.userDisconnect = false) (reconnecting : Bool) (a : IdentityAttempt)
    (hs : (w.beginConnect reconnecting a).impl.stream.isSome = true) :
    (w.beginConnect reconnecting a).session (w.impl.generation + 1) =
      Session.opened w.impl.options.host (toString w.impl.options.apiPort)
        (w.beginConnect reconnecting a).memory := by
  have hp : (w.beginConnect reconnecting a).pushed (w.impl.generation + 1) = [] := by
    rw [((h.renewed_beginConnect hu reconnecting a).silent.frames _).1]
    exact h.frames_eq_nil (Nat.lt_succ_self _) _
  have hold : w.kinds (w.impl.generation + 1) = [] := by
    refine List.filterMap_eq_nil_iff.mpr fun op hop ↦ if_neg ?_
    exact (Nat.lt_succ_of_le (h.ops_le op hop)).ne
  refine session_eq hp ?_
  obtain ⟨n, context, l, -, ⟨error, he⟩ | ⟨k, -, he⟩⟩ :=
    beginConnect_cases reconnecting a h.alive hu
  · rw [he] at hs
    cases hs
  · have hkinds : (w.beginConnect reconnecting a).kinds (w.impl.generation + 1) =
        [.resolve w.impl.options.host (toString w.impl.options.apiPort)] := by
      rw [he, kinds, List.filterMap_append]
      refine (congrArg (· ++ _) hold).trans ?_
      simp
    have hstate : (w.beginConnect reconnecting a).impl.state ≠ .connected := by
      rw [he]
      cases reconnecting <;> simp
    simp only [World.session, hkinds, hstate, decide_false]
    rw [he]
    rfl

theorem JustOpened.session {o : Options} {w : World} (h : JustOpened o w) :
    w.session w.impl.generation = Session.opened o.host (toString o.apiPort) w.memory := by
  obtain ⟨es, t, e, ht, ha, he, hs⟩ := h
  obtain rfl := options_of_reaches ht
  obtain ⟨a, ha⟩ := Option.isSome_iff_exists.mp ha
  obtain ⟨reconnecting, delay, tm, rfl⟩ := step_attempt ha he
  have hb := (inv_of_reaches ht).toBounded.wanting delay tm
  rw [(hb.renewed_beginConnect rfl reconnecting a).generation]
  exact hb.session_beginConnect rfl reconnecting a hs

theorem JustOpened.onConnection {o : Options} {w : World} (h : JustOpened o w) :
    OnConnection w.impl.generation w := by
  obtain ⟨es, t, e, ht, -, he, hs⟩ := h
  refine ⟨(inv_of_reaches ht).next he, fun _ ↦ rfl, ?_⟩
  intro hn
  simp [hn] at hs

theorem OnConnection.shown {g : ℕ} {w u : World} {es : List Event} (h : OnConnection g w)
    (hc : w.Continues es u) :
    Run Session.step (w.session g) (es.filterMap (Event.act g)) (u.session g) :=
  hc.1.shown (OnConnection.simulated g) hc.2 h

theorem OnConnection.taken {g : ℕ} {w : World} {s : Session} {acts : List Act}
    (h : OnConnection g w) (hr : Run Session.step (w.session g) acts s)
    (hacts : ∀ a ∈ acts, a.isTimeout = false) :
    ∃ es u, w.Continues es u ∧ es.filterMap (Event.act g) = acts ∧ u.session g = s := by
  obtain ⟨es, u, hrun, halong, hes, hu⟩ := hr.taken (OnConnection.simulated g)
    (fun _ _ _ _ ha hs ↦ act_possible ha hs) hacts h rfl
  exact ⟨es, u, ⟨hrun, halong⟩, hes, hu⟩

theorem JustOpened.sameFrames {o : Options} {w₁ w₂ : World} (h₁ : JustOpened o w₁)
    (h₂ : JustOpened o w₂) (hm : w₁.memory = w₂.memory) : SameFrames w₁ w₂ := by
  intro es₁ es₂ u₁ u₂ hc₁ hc₂ hacts
  have hr₁ := h₁.onConnection.shown hc₁
  have hr₂ := h₂.onConnection.shown hc₂
  rw [h₁.session, hm, ← h₂.session, hacts] at hr₁
  exact congrArg Session.sent (hr₁.unique hr₂)

theorem SameFrames.agree {o : Options} {w₁ w₂ : World} (h : SameFrames w₁ w₂)
    (h₁ : JustOpened o w₁) (h₂ : JustOpened o w₂) {acts : List Act} {f : Memory → List Bytes}
    (hacts : ∀ a ∈ acts, a.isTimeout = false)
    (hrun : ∀ m, ∃ s, Run Session.step (Session.opened o.host (toString o.apiPort) m) acts s ∧
      s.sent = f m) :
    f w₁.memory = f w₂.memory := by
  obtain ⟨s₁, hr₁, hs₁⟩ := hrun w₁.memory
  obtain ⟨s₂, hr₂, hs₂⟩ := hrun w₂.memory
  rw [← h₁.session] at hr₁
  rw [← h₂.session] at hr₂
  obtain ⟨es₁, u₁, hc₁, hes₁, rfl⟩ := h₁.onConnection.taken hr₁ hacts
  obtain ⟨es₂, u₂, hc₂, hes₂, rfl⟩ := h₂.onConnection.taken hr₂ hacts
  rw [← hs₁, ← hs₂]
  exact h es₁ es₂ u₁ u₂ hc₁ hc₂ (hes₁.trans hes₂.symm)

theorem SameFrames.memory {o : Options} {w₁ w₂ : World} (h : SameFrames w₁ w₂)
    (h₁ : JustOpened o w₁) (h₂ : JustOpened o w₂) : w₁.memory = w₂.memory := by
  have htext := h.agree h₁ h₂ (by simp [Act.isTimeout]) (Session.run_text _ _)
  have hactive := h.agree h₁ h₂ (by simp [Act.handshakes, Act.reads, Act.isTimeout])
    (Session.run_setActive _ _)
  have hvoice := h.agree h₁ h₂ (by simp [Act.handshakes, Act.reads, Act.isTimeout])
    (Session.run_voice _ _)
  obtain ⟨hime, hfield⟩ := remoteText_inj (frame_injective (List.singleton_inj.mp htext))
  have hfeatures :=
    remoteSetActiveResponse_injective (frame_injective (List.singleton_inj.mp hactive))
  refine Memory.ext hfeatures ?_ hime hfield
  cases hb₁ : w₁.memory.voiceEnabled <;> cases hb₂ : w₂.memory.voiceEnabled <;>
    simp [hb₁, hb₂] at hvoice ⊢

/-- A new connection is independent of the earlier ones exactly as far as the
members are that `closeStream` leaves as they are. -/
theorem new_connection_independent_iff {o : Options} {w₁ w₂ : World} (h₁ : JustOpened o w₁)
    (h₂ : JustOpened o w₂) : SameFrames w₁ w₂ ↔ w₁.memory = w₂.memory :=
  ⟨fun h ↦ h.memory h₁ h₂, h₁.sameFrames h₂⟩

theorem new_connection_independent_after_traffic :
    let narrow : Bytes := [0x0A, 0x02, 0x08, 0x01]
    let edit : Bytes := [0xAA, 0x01, 0x04, 0x08, 0x03, 0x10, 0x04]
    ∃ t₁ t₂,
      Reaches {} (.connect {} :: (Event.handshakes 1 ++ Event.reads 1 narrow ++
        Event.reads 1 edit)) t₁ ∧
      Reaches {} (.connect {} :: (Event.handshakes 1 ++ Event.reads 1 edit ++ .connect {} ::
        (Event.handshakes 2 ++ Event.reads 2 narrow))) t₂ ∧
      let w₁ := t₁.connect {}
      let w₂ := t₂.connect {}
      JustOpened {} w₁ ∧ JustOpened {} w₂ ∧ w₁.memory ≠ (World.ofOptions {}).memory ∧
        SameFrames w₁ w₂ := by
  intro narrow edit
  let t₁ := (exec World.step (World.ofOptions {}) (.connect {} :: (Event.handshakes 1 ++
    Event.reads 1 narrow ++ Event.reads 1 edit))).get (by decide +kernel)
  let t₂ := (exec World.step (World.ofOptions {}) (.connect {} :: (Event.handshakes 1 ++
    Event.reads 1 edit ++ .connect {} :: (Event.handshakes 2 ++ Event.reads 2 narrow)))).get
      (by decide +kernel)
  have ht₁ : Reaches {} _ t₁ := run_of_isSome _
  have ht₂ : Reaches {} _ t₂ := run_of_isSome _
  refine ⟨t₁, t₂, ht₁, ht₂, ?_⟩
  intro w₁ w₂
  have h₁ : JustOpened {} w₁ := ⟨_, t₁, .connect {}, ht₁, rfl, rfl, by decide +kernel⟩
  have h₂ : JustOpened {} w₂ := ⟨_, t₂, .connect {}, ht₂, rfl, rfl, by decide +kernel⟩
  have hmemory : w₁.memory = w₂.memory := by decide +kernel
  exact ⟨h₁, h₂, by decide +kernel, (new_connection_independent_iff h₁ h₂).mpr hmemory⟩

/-- A TV that supports nothing but pings narrows the features, and they stay
so when another answers that supports them all. -/
theorem features_stay_narrowed :
    ∃ t, Reaches {} (.connect {} :: (Event.handshakes 1 ++ Event.reads 1 [0x0A, 0x02, 0x08, 0x01]))
        t ∧
      let w₁ := (World.ofOptions {}).connect {}
      let w₂ := t.connect {}
      JustOpened {} w₁ ∧ JustOpened {} w₂ ∧ ¬ SameFrames w₁ w₂ := by
  let answer (g : ℕ) := Event.handshakes g ++ Event.reads g [0x0A, 0x03, 0x08, 0xFF, 0x07]
  have hanswer : ∀ g, ∀ e ∈ answer g, ∀ v, e.attempt v = none := by
    simp [answer, Event.handshakes, Event.reads, Event.attempt]
  have hcontinues : ∀ g w, (h : (exec World.step w (answer g)).isSome = true) →
      w.Continues (answer g) ((exec World.step w (answer g)).get h) := by
    intro g w h
    refine ⟨run_of_isSome h, ?_⟩
    intro pre e post t he _
    exact hanswer g e (by simp [he]) t
  refine ⟨_, run_of_isSome (by decide +kernel), ?_⟩
  intro w₁ w₂
  refine ⟨⟨[], _, .connect {}, .nil _, rfl, rfl, by decide +kernel⟩,
    ⟨_, _, .connect {}, run_of_isSome _, rfl, rfl, by decide +kernel⟩, ?_⟩
  intro hsame
  have hframes := hsame (answer 1) (answer 2) _ _ (hcontinues 1 w₁ (by decide +kernel))
    (hcontinues 2 w₂ (by decide +kernel)) (by decide +kernel)
  revert hframes
  decide +kernel

end World

end AndroidTvRemote
