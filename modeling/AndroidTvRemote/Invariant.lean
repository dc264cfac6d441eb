import AndroidTvRemote.Moves

namespace AndroidTvRemote.World

open Wire Protocol SteadyTimer

/-- Without a stream the object holds nothing of a connection: whatever is
outstanding belongs to an earlier generation, and either nothing is going on
or a reconnect wait is about to open the next stream. -/
structure Closed (w : World) : Prop where
  ops_lt : ∀ op ∈ w.ops, op.generation < w.impl.generation
  idle_lt : w.idleTimer.Captures (· < w.impl.generation)
  voiceStarting : w.impl.voiceStarting = false
  voiceSessionId : w.impl.voiceSessionId = none
  writeQueue : w.impl.writeQueue = []
  writeInProgress : w.impl.writeInProgress = false
  state : w.impl.state = .disconnected ∨
    w.impl.state = .reconnecting ∧ w.impl.userDisconnect = false ∧ w.reconnectTimer.Pending
  offline : w.impl.userDisconnect = true → w.reconnectTimer.armed = none

/-- With a stream the object wants the connection and describes it. -/
structure Opened (w : World) : Prop where
  wanted : w.impl.userDisconnect = false
  context : w.impl.sslContext.isSome = true
  state : w.impl.state ≠ .disconnected
  busy : w.impl.writeInProgress = !w.impl.writeQueue.isEmpty
  online : w.impl.state = .connected → w.Handshaken ∧ w.HasRead fun m ↦ m.kind = .start
  voice : w.impl.voiceStarting = true → w.impl.voiceSessionId = none
  voice_online : w.impl.voiceStarting = true ∨ w.impl.voiceSessionId.isSome = true →
    w.impl.state = .connected

structure Bounded (w : World) : Prop where
  alive : w.impl.shuttingDown = false
  ops_le : ∀ op ∈ w.ops, op.generation ≤ w.impl.generation
  idle_le : w.idleTimer.Captures (· ≤ w.impl.generation)
  trace_le : ∀ r ∈ w.trace, r.1 ≤ w.impl.generation

theorem Bounded.wanting {w : World} (h : w.Bounded) (delay : ℕ) (t : Timer Unit) :
    (w.wanting delay t).Bounded :=
  ⟨h.alive, h.ops_le, h.idle_le, h.trace_le⟩

/-- What holds before and after every move, also inside a handler. -/
structure Sound (w : World) : Prop extends Bounded w where
  closed : w.impl.stream = none → w.Closed
  opened : w.impl.stream.isSome = true → w.Opened

theorem Sound.live_of_op {w : World} (h : w.Sound) {op : Op} (hop : op ∈ w.ops)
    (hg : op.generation = w.impl.generation) : w.impl.stream.isSome = true := by
  rw [Option.isSome_iff_ne_none]
  intro hn
  exact ((h.closed hn).ops_lt op hop).ne hg

theorem Sound.live_of_idle {w : World} (h : w.Sound) {q : Wait ℕ × Code}
    (hq : q ∈ w.idleTimer.queued) (hg : q.1.captured = w.impl.generation) :
    w.impl.stream.isSome = true := by
  rw [Option.isSome_iff_ne_none]
  intro hn
  exact ((h.closed hn).idle_lt.2 q hq).ne hg

theorem sound_ofOptions (o : Options) : (World.ofOptions o).Sound where
  alive := rfl
  ops_le _ h := by cases h
  idle_le := Timer.captures_new _
  trace_le _ h := by cases h
  closed _ :=
    { ops_lt := fun _ h ↦ by cases h
      idle_lt := Timer.captures_new _
      voiceStarting := rfl
      voiceSessionId := rfl
      writeQueue := rfl
      writeInProgress := rfl
      state := .inl rfl
      offline := fun _ ↦ rfl }
  opened h := by cases h

/-- The records of a world are those of another and some later ones of the
same generation. -/
def Extends (w w' : World) : Prop :=
  ∃ l, w'.trace = w.trace ++ l ∧ ∀ r ∈ l, r.1 = w.impl.generation

theorem Extends.refl (w : World) : w.Extends w := ⟨[], by simp, by simp⟩

theorem extends_log (w : World) (r : Record) : w.Extends (w.log r) :=
  ⟨[(w.impl.generation, r)], rfl, by simp⟩

theorem Handshaken.extends {w w' : World} (h : w.Handshaken) (he : w.Extends w')
    (hg : w'.impl.generation = w.impl.generation) : w'.Handshaken := by
  obtain ⟨l, ht, -⟩ := he
  rw [Handshaken, ht, hg]
  exact List.mem_append_left l h

theorem HasRead.extends {w w' : World} {P : RemoteIncoming → Prop} (h : w.HasRead P)
    (he : w.Extends w') (hg : w'.impl.generation = w.impl.generation) : w'.HasRead P := by
  obtain ⟨l, ht, -⟩ := he
  obtain ⟨m, hm, hp⟩ := h
  refine ⟨m, ?_, hp⟩
  rw [ht, hg]
  exact List.mem_append_left l hm

theorem Extends.trace_le {w w' : World} (he : w.Extends w')
    (hg : w'.impl.generation = w.impl.generation)
    (h : ∀ r ∈ w.trace, r.1 ≤ w.impl.generation) : ∀ r ∈ w'.trace, r.1 ≤ w'.impl.generation := by
  obtain ⟨l, ht, hl⟩ := he
  intro r hr
  rw [ht] at hr
  rw [hg]
  rcases List.mem_append.mp hr with hr | hr
  · exact h r hr
  · exact (hl r hr).le

theorem Sound.congr {w w' : World} (h : w.Sound) (hcore : w'.impl.core = w.impl.core)
    (hops : w'.ops = w.ops) (hrec : w'.reconnectTimer = w.reconnectTimer)
    (hidle : ∀ P : ℕ → Prop, w.idleTimer.Captures P →
      (w.impl.stream.isSome = true → P w.impl.generation) → w'.idleTimer.Captures P)
    (htrace : w.Extends w') : w'.Sound := by
  simp only [Impl.core, Core.mk.injEq] at hcore
  obtain ⟨-, hstate, halive, hssl, hstream, huser, hvs, hvid, hgen, hq, hp⟩ := hcore
  refine ⟨⟨?_, ?_, ?_, htrace.trace_le hgen h.trace_le⟩, ?_, ?_⟩
  · rw [halive]; exact h.alive
  · rw [hops, hgen]; exact h.ops_le
  · rw [hgen]; exact hidle _ h.idle_le (fun _ ↦ le_rfl)
  · intro hs
    rw [hstream] at hs
    have hc := h.closed hs
    constructor
    · rw [hops, hgen]; exact hc.ops_lt
    · rw [hgen]; exact hidle _ hc.idle_lt (fun hs' ↦ by simp [hs] at hs')
    · rw [hvs]; exact hc.voiceStarting
    · rw [hvid]; exact hc.voiceSessionId
    · rw [hq]; exact hc.writeQueue
    · rw [hp]; exact hc.writeInProgress
    · rw [hstate, huser, hrec]; exact hc.state
    · rw [huser, hrec]; exact hc.offline
  · intro hs
    rw [hstream] at hs
    have ho := h.opened hs
    constructor
    · rw [huser]; exact ho.wanted
    · rw [hssl]; exact ho.context
    · rw [hstate]; exact ho.state
    · rw [hp, hq]; exact ho.busy
    · intro hc
      obtain ⟨hh, hr⟩ := ho.online (hstate ▸ hc)
      exact ⟨hh.extends htrace hgen, hr.extends htrace hgen⟩
    · rw [hvs, hvid]; exact ho.voice
    · rw [hvs, hvid, hstate]; exact ho.voice_online

theorem Opened.of_eq {w w' : World} (h : w.Opened) (hi : w'.impl = w.impl)
    (ht : w'.trace = w.trace) : w'.Opened := by
  obtain ⟨impl, ops, contexts, reconnectTimer, idleTimer, voiceTimer, trace⟩ := w'
  obtain rfl : impl = w.impl := hi
  obtain rfl : trace = w.trace := ht
  exact ⟨h.wanted, h.context, h.state, h.busy, h.online, h.voice, h.voice_online⟩

theorem Sound.log {w : World} (h : w.Sound) (r : Record) : (w.log r).Sound :=
  h.congr rfl rfl rfl (fun _ hP _ ↦ hP) (extends_log w r)

theorem Sound.queueMessage {w : World} (h : w.Sound) (m : Bytes)
    (hs : w.impl.stream.isSome = true) : (w.queueMessage m).Sound := by
  have ho := h.opened hs
  have hext : w.Extends (w.queueMessage m) := by
    rw [queueMessage_spec m hs ho.busy]
    refine ⟨_, rfl, ?_⟩
    intro r hr
    rcases List.mem_cons.mp hr with rfl | hr
    · rfl
    · split at hr
      · obtain rfl := List.mem_singleton.mp hr
        rfl
      · cases hr
  rw [queueMessage_spec m hs ho.busy] at hext ⊢
  refine ⟨⟨h.alive, ?_, h.idle_le.arm idleTimeout le_rfl, hext.trace_le rfl h.trace_le⟩, ?_, ?_⟩
  · intro op hop
    rcases List.mem_append.mp hop with hop | hop
    · exact h.ops_le op hop
    · split at hop
      · obtain rfl := List.mem_singleton.mp hop
        exact le_rfl
      · cases hop
  · intro hn
    simp only at hn
    simp [hn] at hs
  · intro _
    exact {
      wanted := ho.wanted
      context := ho.context
      state := ho.state
      busy := by simp
      online := fun hc ↦
        ⟨(ho.online hc).1.extends hext rfl, (ho.online hc).2.extends hext rfl⟩
      voice := ho.voice
      voice_online := ho.voice_online }

theorem Sound.setVoice {w : World} (h : w.Sound) (starting : Bool) (session : Option Int32)
    (hex : starting = true → session = none)
    (hon : starting = true ∨ session.isSome = true →
      w.impl.stream.isSome = true ∧ w.impl.state = .connected) :
    { w with impl.voiceStarting := starting, impl.voiceSessionId := session }.Sound where
  alive := h.alive
  ops_le := h.ops_le
  idle_le := h.idle_le
  trace_le := h.trace_le
  closed hs := by
    have hs : w.impl.stream = none := hs
    have hc := h.closed hs
    exact {
      ops_lt := hc.ops_lt
      idle_lt := hc.idle_lt
      voiceStarting := by
        by_contra hv
        simpa [hs] using hon (.inl (by simpa using hv))
      voiceSessionId := by
        by_contra hv
        simpa [hs] using hon (.inr (Option.isSome_iff_ne_none.mpr hv))
      writeQueue := hc.writeQueue
      writeInProgress := hc.writeInProgress
      state := hc.state
      offline := hc.offline }
  opened hs :=
    have ho := h.opened hs
    { wanted := ho.wanted
      context := ho.context
      state := ho.state
      busy := ho.busy
      online := ho.online
      voice := hex
      voice_online := fun hv ↦ (hon hv).2 }

theorem Sound.online {w : World} (h : w.Sound) (hs : w.impl.stream.isSome = true)
    (hh : w.Handshaken) (hr : w.HasRead fun m ↦ m.kind = .start) :
    ((w.setState .connected).emitAvailability true).Sound := by
  have ho := h.opened hs
  have hset : { w with impl.state := .connected }.Sound :=
    { alive := h.alive
      ops_le := h.ops_le
      idle_le := h.idle_le
      trace_le := h.trace_le
      closed := fun hn ↦ by
        have hn : w.impl.stream = none := hn
        simp [hn] at hs
      opened := fun _ ↦
        { wanted := ho.wanted
          context := ho.context
          state := by simp
          busy := ho.busy
          online := fun _ ↦ ⟨hh, hr⟩
          voice := ho.voice
          voice_online := fun _ ↦ rfl } }
  exact (hset.log _).log _

theorem Sound.inner {w w' : World} (h : w.Sound) (hm : Inner w w') : w'.Sound := by
  cases hm with
  | report c _ => exact h.log _
  | tune i hi => exact h.congr hi rfl rfl (fun _ hP _ ↦ hP) (.refl w)
  | timers idle voice hidle => exact h.congr rfl rfl rfl hidle (.refl w)
  | received m _ _ => exact h.log _
  | reply m _ hs _ => exact h.queueMessage m hs
  | online hs hh hr => exact h.online hs hh hr
  | voiceStart hs hc _ hn =>
    exact (h.setVoice true w.impl.voiceSessionId (fun _ ↦ hn) (fun _ ↦ ⟨hs, hc⟩)).queueMessage _ hs
  | voiceBegin s hs hv _ =>
    have hc := (h.opened hs).voice_online (.inl hv)
    exact ((h.setVoice false (some s) (by simp) (fun _ ↦ ⟨hs, hc⟩)).queueMessage _ hs).log _
  | voicePayload s samples hs _ => exact h.queueMessage _ hs
  | voiceEnd s hs hv =>
    have hq := h.queueMessage (remoteVoiceEnd s) hs
    have hkeep : (w.queueMessage (remoteVoiceEnd s)).impl.stream.isSome = true := by
      rw [queueMessage_spec _ hs (h.opened hs).busy]; exact hs
    exact (hq.setVoice _ none (fun _ ↦ rfl) (fun hv' ↦ ⟨hkeep, (hq.opened hkeep).voice_online
      (.inl (by simpa using hv'))⟩)).log _
  | voiceGiveUp =>
    apply h.setVoice false w.impl.voiceSessionId (by simp)
    intro hv
    have hv : w.impl.voiceSessionId.isSome = true := by simpa using hv
    cases hs : w.impl.stream with
    | none => simp [(h.closed hs).voiceSessionId] at hv
    | some _ => exact ⟨by simp, (h.opened (by simp [hs])).voice_online (.inr hv)⟩

theorem Bounded.closing {w w' : World} (h : w.Bounded)
    (halive : w'.impl.shuttingDown = w.impl.shuttingDown)
    (hgen : w'.impl.generation = w.impl.generation + 1) (hstream : w'.impl.stream = none)
    (hops : w'.ops = w.ops)
    (hidle : ∀ P : ℕ → Prop, w.idleTimer.Captures P → w'.idleTimer.Captures P)
    (hvoice : w'.impl.voiceStarting = false ∧ w'.impl.voiceSessionId = none)
    (hqueue : w'.impl.writeQueue = [] ∧ w'.impl.writeInProgress = false)
    {l : List (ℕ × Record)} (htrace : w'.trace = w.trace ++ l)
    (hl : ∀ r ∈ l, r.1 ≤ w.impl.generation + 1)
    (hstate : w'.impl.state = .disconnected ∨
      w'.impl.state = .reconnecting ∧ w'.impl.userDisconnect = false ∧ w'.reconnectTimer.Pending)
    (hoffline : w'.impl.userDisconnect = true → w'.reconnectTimer.armed = none) : w'.Sound := by
  have hlt : ∀ op ∈ w'.ops, op.generation < w'.impl.generation := by
    intro op hop
    rw [hops] at hop
    rw [hgen]
    exact Nat.lt_succ_of_le (h.ops_le op hop)
  have hcap : w'.idleTimer.Captures (· < w'.impl.generation) := by
    rw [hgen]
    exact hidle _ (h.idle_le.mono fun c hc ↦ Nat.lt_succ_of_le hc)
  refine ⟨⟨?_, fun op hop ↦ (hlt op hop).le, hcap.mono fun c hc ↦ hc.le, ?_⟩, ?_, ?_⟩
  · rw [halive]; exact h.alive
  · intro r hr
    rw [htrace] at hr
    rw [hgen]
    rcases List.mem_append.mp hr with hr | hr
    · exact (h.trace_le r hr).trans (Nat.le_succ _)
    · exact hl r hr
  · intro _
    exact ⟨hlt, hcap, hvoice.1, hvoice.2, hqueue.1, hqueue.2, hstate, hoffline⟩
  · intro hs
    simp [hstream] at hs

theorem Sound.ends {w w' : World} (h : w.Sound) (hs : w.impl.stream.isSome = true)
    (he : Ends w w') : w'.Sound := by
  obtain ⟨state, delay, t, l, hstate, hl⟩ := he
  have hu := (h.opened hs).wanted
  refine h.toBounded.closing rfl rfl rfl rfl (fun _ hP ↦ hP) ⟨rfl, rfl⟩ ⟨rfl, rfl⟩ rfl
    (fun r hr ↦ (hl r hr).1) ?_ ?_
  · exact hstate.imp_right fun ⟨hst, hp⟩ ↦ ⟨hst, hu, hp⟩
  · intro hu'
    cases hu.symm.trans hu'

theorem Bounded.disconnectAndWait {w : World} (h : w.Bounded) : w.disconnectAndWait.Sound :=
  h.closing (l := [(w.impl.generation + 1, _)]) rfl rfl rfl rfl (fun _ hP ↦ hP.cancel) ⟨rfl, rfl⟩
    ⟨rfl, rfl⟩ rfl (by simp) (.inl rfl) (fun _ ↦ rfl)

theorem Sound.disconnect {w : World} (h : w.Sound) : w.disconnect.Sound :=
  h.toBounded.disconnectAndWait.log _

theorem news_le {n : ℕ} {l l' : List (ℕ × Record)}
    (hl : ∀ r ∈ l, ∃ k b, r = (n, Record.identity k b)) (hl' : ∀ r ∈ l', r.1 ≤ n) :
    ∀ r ∈ l ++ l', r.1 ≤ n := by
  intro r hr
  rcases List.mem_append.mp hr with hr | hr
  · obtain ⟨k, b, rfl⟩ := hl r hr
    exact le_rfl
  · exact hl' r hr

theorem Bounded.beginConnect {w : World} (h : w.Bounded) (hu : w.impl.userDisconnect = false)
    (reconnecting : Bool) (a : IdentityAttempt) : (w.beginConnect reconnecting a).Sound := by
  obtain ⟨n, context, l, hl, ⟨error, he⟩ | ⟨k, rfl, he⟩⟩ :=
    beginConnect_cases reconnecting a h.alive hu
  · rw [he]
    exact h.closing rfl rfl rfl rfl (fun _ hP ↦ hP) ⟨rfl, rfl⟩ ⟨rfl, rfl⟩ rfl
      (news_le hl (by simp)) (.inl rfl) (fun hu' ↦ by cases hu.symm.trans hu')
  · rw [he]
    refine ⟨⟨h.alive, ?_, h.idle_le.mono fun c hc ↦ Nat.le_succ_of_le hc,
      ?_⟩, fun hn ↦ (by cases hn), ?_⟩
    · intro op hop
      rcases List.mem_append.mp hop with hop | hop
      · exact Nat.le_succ_of_le (h.ops_le op hop)
      · obtain rfl := List.mem_singleton.mp hop
        exact le_rfl
    · intro r hr
      rcases List.mem_append.mp hr with hr | hr
      · exact Nat.le_succ_of_le (h.trace_le r hr)
      · exact news_le hl (by simp) r hr
    · intro _
      exact {
        wanted := hu
        context := rfl
        state := by cases reconnecting <;> simp
        busy := rfl
        online := fun hc ↦ by cases reconnecting <;> simp at hc
        voice := fun hv ↦ by cases hv
        voice_online := fun hv ↦ by simp [closeStream] at hv }

theorem Sound.reconnectSkip {w : World} (h : w.Sound) (q : Wait Unit × Code)
    (hq : q.2 = .aborted ∨ w.impl.userDisconnect = true) :
    { w with reconnectTimer := w.reconnectTimer.dequeue q }.Sound := by
  refine ⟨⟨h.alive, h.ops_le, h.idle_le, h.trace_le⟩, ?_, ?_⟩
  · intro hs
    have hc := h.closed hs
    refine ⟨hc.ops_lt, hc.idle_lt, hc.voiceStarting, hc.voiceSessionId, hc.writeQueue,
      hc.writeInProgress, ?_, hc.offline⟩
    refine hc.state.imp_right fun ⟨hst, hu, hp⟩ ↦ ⟨hst, hu, hp.dequeue ?_⟩
    exact hq.resolve_right (by simp [hu])
  · intro hs
    exact (h.opened hs).of_eq rfl rfl

theorem Sound.reconnectExpires {w : World} (h : w.Sound) {t : Timer Unit}
    (ht : w.reconnectTimer.expire = some t) : { w with reconnectTimer := t }.Sound := by
  refine ⟨⟨h.alive, h.ops_le, h.idle_le, h.trace_le⟩, ?_, ?_⟩
  · intro hs
    have hc := h.closed hs
    refine ⟨hc.ops_lt, hc.idle_lt, hc.voiceStarting, hc.voiceSessionId, hc.writeQueue,
      hc.writeInProgress, hc.state.imp_right fun ⟨hst, hu, hp⟩ ↦ ⟨hst, hu, hp.expire ht⟩,
      ?_⟩
    intro hu
    have harm := hc.offline hu
    rw [Timer.expire, harm] at ht
    cases ht
  · intro hs
    exact (h.opened hs).of_eq rfl rfl

theorem Sound.addOps {w : World} (h : w.Sound) (hs : w.impl.stream.isSome = true) (l : List Op)
    (hl : ∀ op ∈ l, op.generation ≤ w.impl.generation) : { w with ops := w.ops ++ l }.Sound := by
  refine ⟨⟨h.alive, ?_, h.idle_le, h.trace_le⟩, ?_, fun _ ↦ (h.opened hs).of_eq rfl rfl⟩
  · intro op hop
    rcases List.mem_append.mp hop with hop | hop
    · exact h.ops_le op hop
    · exact hl op hop
  · intro hn
    have hn : w.impl.stream = none := hn
    simp [hn] at hs

theorem Sound.consume {w : World} (h : w.Sound) (op : Op) :
    { w with ops := w.ops.erase op }.Sound := by
  refine ⟨⟨h.alive, fun o ho ↦ h.ops_le o (List.mem_of_mem_erase ho), h.idle_le, h.trace_le⟩,
    ?_, ?_⟩
  · intro hs
    have hc := h.closed hs
    exact ⟨fun o ho ↦ hc.ops_lt o (List.mem_of_mem_erase ho), hc.idle_lt, hc.voiceStarting,
      hc.voiceSessionId, hc.writeQueue, hc.writeInProgress, hc.state, hc.offline⟩
  · intro hs
    exact (h.opened hs).of_eq rfl rfl

theorem Sound.wrote {w : World} (h : w.Sound) (hs : w.impl.stream.isSome = true) :
    { w with impl.writeQueue := w.impl.writeQueue.tail }.beginWrite.Sound := by
  have ho := h.opened hs
  rw [wrote_spec hs]
  have hset : { w with
      impl.writeQueue := w.impl.writeQueue.tail
      impl.writeInProgress := !w.impl.writeQueue.tail.isEmpty }.Sound :=
    ⟨⟨h.alive, h.ops_le, h.idle_le, h.trace_le⟩,
      fun hn ↦ by have hn : w.impl.stream = none := hn; simp [hn] at hs,
      fun _ ↦ ⟨ho.wanted, ho.context, ho.state, rfl, ho.online, ho.voice, ho.voice_online⟩⟩
  cases hq : w.impl.writeQueue.tail with
  | nil => simpa [hq] using hset
  | cons f q =>
    have hadd := (hset.log (.write f)).addOps (by exact hs) [⟨w.impl.generation, .write f⟩]
      (by simp)
    simpa [hq, World.log] using hadd

theorem Sound.move {w w' : World} (h : w.Sound) (hm : Move w w') : w'.Sound := by
  cases hm with
  | inner hi => exact h.inner hi
  | consume op _ => exact h.consume op
  | start k hs _ _ => exact h.addOps hs _ (by simp)
  | wrote hs _ => exact h.wrote hs
  | handshake _ => exact h.log _
  | lose hs => exact h.ends hs (ends_lose (h.opened hs).wanted h.alive)
  | refuse error hs => exact h.ends hs (ends_refuse error (h.opened hs).wanted h.alive)
  | reconnectExpires t ht => exact h.reconnectExpires ht
  | reconnectSkip q hq => exact h.reconnectSkip q hq

theorem Sound.moves {w w' : World} (h : w.Sound) (hm : Moves w w') : w'.Sound := by
  induction hm with
  | refl => exact h
  | tail _ hm ih => exact ih.move hm

theorem Moves.invariant {P : World → Prop} (hP : ∀ w w', w.Sound → P w → Move w w' → P w')
    {w w' : World} (hm : Moves w w') (h : w.Sound) (hw : P w) : P w' := by
  have hboth : w'.Sound ∧ P w' := by
    induction hm with
    | refl => exact ⟨h, hw⟩
    | tail _ hm ih => exact ⟨ih.1.move hm, hP _ _ ih.1 ih.2 hm⟩
  exact hboth.2

theorem Sound.does {w w' : World} {e : Event} (h : w.Sound) (hd : Does w e w') : w'.Sound := by
  cases hd with
  | moves hm => exact h.moves hm
  | send _ hs => exact h.queueMessage _ hs
  | attempt _ reconnecting delay t => exact (h.toBounded.wanting delay t).beginConnect rfl _ _
  | disconnect => exact h.disconnect
  | disconnectAndWait => exact h.toBounded.disconnectAndWait

end AndroidTvRemote.World
