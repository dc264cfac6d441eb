import AndroidTvRemote.Ledger

namespace AndroidTvRemote.World

open Wire Protocol SteadyTimer Relation

theorem Reacts.after {w w' w'' : World} (h : Reacts w' w'') (hm : Moves w w') : Reacts w w'' :=
  ⟨hm.trans h.moves, h.ledger⟩

/-- The handler of the one operation outstanding besides the write is about to
run. -/
structure Due (w : World) : Prop extends Sound w where
  live : w.impl.stream.isSome = true
  booked : w.Booked []

theorem Due.inners {w w' : World} (h : w.Due) (hm : Inners w w') : w'.Due := by
  obtain ⟨hsound, hs, hb⟩ := hm.frame h.toSound
  exact ⟨hsound, hs.stream ▸ h.live, hb _ h.booked⟩

theorem Due.start {w : World} (h : w.Due) {k : OpKind} (hk : k.isWrite = false)
    (hr : k.isRead = true → w.Handshaken) : Reacts w (w.start ⟨w.impl.generation, k⟩) :=
  ⟨.single (.start k h.live hk hr), fun _ ↦ ⟨k, h.booked.start hk, hr⟩⟩

theorem Due.startOnStream {w : World} (h : w.Due) {generation : ℕ}
    (hg : generation = w.impl.generation) {k : OpKind} (hk : k.isWrite = false)
    (hr : k.isRead = true → w.Handshaken) :
    Reacts w (w.startOnStream ⟨generation, k⟩) := by
  subst hg
  obtain ⟨s, hs⟩ := Option.isSome_iff_exists.mp h.live
  simp only [World.startOnStream, hs]
  exact h.start hk hr

theorem Due.tune {w : World} (h : w.Due) {i : Impl} (hi : i.core = w.impl.core) :
    { w with impl := i }.Due := h.inners (.single (.tune i hi))

theorem Due.readOneLengthByte {w : World} (h : w.Due) {generation : ℕ}
    (hg : generation = w.impl.generation) (hh : w.Handshaken) :
    Reacts w (w.readOneLengthByte generation) := by
  subst hg
  have hn : w.impl.stream.isNone = false := by simpa using h.live
  simp only [World.readOneLengthByte, hn, ne_eq, not_true_eq_false, decide_false, Bool.or_self,
    Bool.false_eq_true, if_false]
  exact h.start rfl fun _ ↦ hh

theorem Due.beginReadLength {w : World} (h : w.Due) {generation : ℕ}
    (hg : generation = w.impl.generation) (hh : w.Handshaken) :
    Reacts w (w.beginReadLength generation) := by
  subst hg
  have hn : w.impl.stream.isNone = false := by simpa using h.live
  simp only [World.beginReadLength, hn, ne_eq, not_true_eq_false, decide_false, Bool.or_self,
    Bool.false_eq_true, if_false]
  exact .after ((h.tune (by exact rfl)).readOneLengthByte rfl hh) (.single (.inner (.tune _ rfl)))

theorem beginReadLength_live (w : World) (generation : ℕ) (hs : w.impl.stream.isSome = true) :
    (w.beginReadLength generation).impl.stream.isSome = true := by
  unfold World.beginReadLength readOneLengthByte
  split_ifs <;> exact hs

theorem reacts_lose {w : World} (hs : w.impl.stream.isSome = true) :
    Reacts w (w.handleConnectionLoss w.impl.generation) :=
  ⟨.single (.lose hs), ledger_of_none (handleConnectionLoss_closes w).1⟩

theorem emitError_lose {w : World} (error : String) {generation : ℕ}
    (hg : generation = w.impl.generation) (hs : w.impl.stream.isSome = true) :
    Reacts w ((w.emitError error).handleConnectionLoss generation) := by
  subst hg
  have hr : Reacts (w.emitError error) _ := reacts_lose hs
  exact hr.after (.single (.inner (.report _ rfl)))

theorem Sound.connectionFailed {w : World} (h : w.Sound) (hs : w.impl.stream.isSome = true)
    (prefixText error : String) :
    Reacts w (w.connectionFailed prefixText error w.impl.generation) := by
  rw [connectionFailed_spec prefixText error (h.opened hs).wanted h.alive]
  exact emitError_lose _ rfl hs

theorem Sound.refuse {w : World} (h : w.Sound) (hs : w.impl.stream.isSome = true)
    (error : String) : Reacts w (w.authenticationFailed error w.impl.generation) := by
  refine ⟨.single (.refuse error hs), ledger_of_none ?_⟩
  rw [authenticationFailed_spec error (h.opened hs).wanted h.alive]
  rfl

theorem inners_resetIdleTimer {w : World} (hs : w.impl.stream.isSome = true) :
    Inners w w.resetIdleTimer :=
  .single (.timers _ w.voiceTimer fun _ hP hg ↦ hP.arm idleTimeout (hg hs))

theorem Due.onResolve {w : World} (h : w.Due) (c : Completion) :
    Reacts w (w.onResolve w.impl.generation c) := by
  simp only [World.onResolve, ne_eq, not_true_eq_false, if_false]
  split
  · exact h.connectionFailed h.live _ _
  · exact h.startOnStream rfl rfl (fun hr ↦ by cases hr)

theorem Due.onConnect {w : World} (h : w.Due) (c : Completion) :
    Reacts w (w.onConnect w.impl.generation c) := by
  simp only [World.onConnect, ne_eq, not_true_eq_false, if_false]
  split
  · exact h.connectionFailed h.live _ _
  · exact h.startOnStream rfl rfl (fun hr ↦ by cases hr)

theorem Due.onHandshake {w : World} (h : w.Due) (c : Completion) :
    Reacts w (w.onHandshake w.impl.generation c) := by
  simp only [World.onHandshake, ne_eq, not_true_eq_false, if_false]
  split
  · exact h.refuse h.live _
  · have hm : Move w (w.log .handshake) := .handshake h.live
    have hh : (w.log .handshake).Handshaken := by simp [Handshaken]
    have hd : (w.log .handshake).Due := ⟨h.toSound.move hm, h.live, h.booked.of_eq rfl rfl rfl⟩
    have ht : Inners (w.log .handshake) { w.log .handshake with impl.reconnectDelay := 100 } :=
      .single (.tune _ rfl)
    have hr := (hd.inners ht).beginReadLength rfl hh
    have hinv : World.Inv _ := ⟨(hd.inners ht).toSound.moves hr.moves, hr.ledger⟩
    have hreset := hinv.inners (inners_resetIdleTimer (beginReadLength_live _ _ h.live))
    exact hreset.after (((ReflTransGen.single hm).trans ht.moves).trans hr.moves)

theorem inners_handleMessage {w : World} (hs : w.impl.stream.isSome = true) (hh : w.Handshaken)
    (m : Bytes) : Inners w (w.handleMessage m) := by
  refine ReflTransGen.head (.received m hs hh) ?_
  have hh' : (w.log (.received m)).Handshaken := hh.extends (extends_log w _) rfl
  have hmem : (w.impl.generation, Record.received m) ∈ (w.log (.received m)).trace := by simp
  unfold handleMessage
  simp only
  split
  next =>
    refine ReflTransGen.tail ?_ (.reply _ (.configure _) hs (List.mem_append_left _ hh'))
    refine ReflTransGen.tail ?_ (.report _ rfl)
    exact .single (.tune _ rfl)
  next => exact .single (.reply _ (.setActive _) hs hh')
  next =>
    refine ReflTransGen.tail ?_ (.report _ rfl)
    exact .single (.tune _ rfl)
  next => exact .single (.tune _ rfl)
  next =>
    refine ReflTransGen.tail ?_ (.report _ rfl)
    exact .single (.tune _ rfl)
  next hk =>
    refine ReflTransGen.tail ?_ (.report _ rfl)
    refine ReflTransGen.tail ?_ (.online hs hh' ⟨m, hmem, hk⟩)
    exact .single (.tune _ rfl)
  next => exact .single (.reply _ (.ping _) hs hh')
  next => exact .single (.report _ rfl)
  next hk =>
    split
    next hv =>
      refine ReflTransGen.head (.timers w.idleTimer w.voiceTimer.cancel fun _ hP _ ↦ hP) ?_
      exact .single (.voiceBegin _ hs hv ⟨m, hmem, hk, rfl⟩)
    next => exact .refl
  next => exact .refl

theorem Due.handleMessage {w : World} (h : w.Due) {generation : ℕ}
    (hg : generation = w.impl.generation) (hh : w.Handshaken) (m : Bytes) :
    Reacts w ((w.handleMessage m).beginReadLength generation) := by
  have hm := inners_handleMessage h.live hh m
  obtain ⟨-, hs, -⟩ := hm.frame h.toSound
  exact .after ((h.inners hm).beginReadLength (hg.trans hs.generation.symm) (hs.handshaken hh))
    hm.moves

theorem Due.onReadLength {w : World} (h : w.Due) (hh : w.Handshaken) (c : Completion) :
    Reacts w (w.onReadLength w.impl.generation c) := by
  simp only [World.onReadLength, ne_eq, not_true_eq_false, if_false]
  split
  · exact h.connectionFailed h.live _ _
  have htune : ∀ i : Impl, i.core = w.impl.core → Moves w { w with impl := i } :=
    fun i hi ↦ .single (.inner (.tune i hi))
  split
  · split
    · exact .after (emitError_lose _ rfl h.live) (htune _ rfl)
    · exact .after ((h.tune (by exact rfl)).readOneLengthByte rfl hh) (htune _ rfl)
  · split
    · exact .after (emitError_lose _ rfl h.live) (htune _ rfl)
    · split
      · refine .after (Due.handleMessage ?_ rfl ?_ _) (htune _ rfl)
        · exact h.tune rfl
        · exact hh
      · exact .after ((h.tune (by exact rfl)).startOnStream rfl rfl fun _ ↦ hh) (htune _ rfl)

theorem Due.onReadBody {w : World} (h : w.Due) (hh : w.Handshaken) (c : Completion) :
    Reacts w (w.onReadBody w.impl.generation c) := by
  simp only [World.onReadBody, ne_eq, not_true_eq_false, if_false]
  split
  · exact h.connectionFailed h.live _ _
  · have ht := inners_resetIdleTimer h.live
    exact .after ((h.inners ht).handleMessage rfl hh _) ht.moves

theorem Inv.complete_stale {w : World} (h : w.Inv) {op : Op} (hop : op ∈ w.ops)
    (hg : op.generation ≠ w.impl.generation) (c : Completion) : Reacts w (w.complete op c) := by
  obtain ⟨byte, body, hf⟩ := fill_eq op c { w with ops := w.ops.erase op }
  rw [World.complete_stale hg c, hf]
  refine ⟨ReflTransGen.head (.consume op hop) (.single (.inner (.tune _ rfl))), ?_⟩
  intro hs
  obtain ⟨k, hb, hr⟩ := h.ledger hs
  exact ⟨k, (hb.consume_stale hg).of_eq rfl rfl rfl, hr⟩

/-- The stream is closed with its queue, so a failed write need not clear the flag. -/
theorem Sound.writeFailed {w : World} (h : w.Sound) (hs : w.impl.stream.isSome = true)
    (error : String) :
    { w with impl.writeInProgress := false }.connectionFailed "write failed" error
      w.impl.generation = w.connectionFailed "write failed" error w.impl.generation := by
  have hu := (h.opened hs).wanted
  have hfail := connectionFailed_spec (w := { w with impl.writeInProgress := false })
    "write failed" error hu h.alive
  have hspec := (handleConnectionLoss_spec
    (w := { w with impl.writeInProgress := false }.emitError ("write failed" ++ ": " ++ error))
    hu h.alive).trans (handleConnectionLoss_spec (w := w.emitError _) hu h.alive).symm
  exact (hfail.trans hspec).trans (connectionFailed_spec "write failed" error hu h.alive).symm

theorem Inv.complete_write {w : World} (h : w.Inv) {f : Bytes}
    (hop : (⟨w.impl.generation, .write f⟩ : Op) ∈ w.ops) (hs : w.impl.stream.isSome = true)
    (c : Completion) : Reacts w (w.complete ⟨w.impl.generation, .write f⟩ c) := by
  have hc : Move w { w with ops := w.ops.erase ⟨w.impl.generation, .write f⟩ } := .consume _ hop
  have hsound := h.toSound.move hc
  simp only [complete, handler, fill, onWrite, ne_eq, not_true_eq_false, if_false]
  split
  next error _ =>
    have hr := hsound.connectionFailed hs "write failed" error
    rw [← hsound.writeFailed hs error] at hr
    exact hr.after (.single hc)
  next =>
    obtain ⟨k, hb, hr⟩ := h.ledger hs
    have hmem : (⟨w.impl.generation, .write f⟩ : Op) ∈ w.writes := by simp [writes, hop]
    have hbusy : w.impl.writeInProgress = true := by
      rw [(h.opened hs).busy]
      rw [hb.writes] at hmem
      cases hq : w.impl.writeQueue with
      | nil => simp [hq] at hmem
      | cons => rfl
    refine ⟨.tail (.single hc) (.wrote hs hbusy), fun _ ↦ ⟨k, hb.wrote hs hmem, ?_⟩⟩
    intro hk
    have hspec := wrote_spec (w := { w with ops := w.ops.erase ⟨w.impl.generation, .write f⟩ }) hs
    refine hspec ▸ ?_
    exact List.mem_append_left _ (hr hk)

theorem Inv.complete_current {w : World} (h : w.Inv) {k : OpKind} (hk : k.isWrite = false)
    (hop : (⟨w.impl.generation, k⟩ : Op) ∈ w.ops) (hs : w.impl.stream.isSome = true)
    (c : Completion) : Reacts w (w.complete ⟨w.impl.generation, k⟩ c) := by
  obtain ⟨k', hb, hr⟩ := h.ledger hs
  obtain rfl : k = k' := by
    have hmem : (⟨w.impl.generation, k⟩ : Op) ∈ w.current := by simp [current, hop, hk]
    simpa [hb.current] using hmem
  obtain ⟨byte, body, hf⟩ := fill_eq ⟨w.impl.generation, k⟩ c
    { w with ops := w.ops.erase ⟨w.impl.generation, k⟩ }
  have hm : Moves w { w with
      ops := w.ops.erase ⟨w.impl.generation, k⟩
      impl.lengthByte := byte
      impl.readBody := body } :=
    ReflTransGen.head (.consume _ hop) (.single (.inner (.tune _ rfl)))
  have hd := World.Due.mk (h.toSound.moves hm) hs ((hb.consume hk).of_eq rfl rfl rfl)
  refine Reacts.after ?_ hm
  unfold complete handler
  rw [hf]
  cases k with
  | resolve => exact hd.onResolve c
  | connect => exact hd.onConnect c
  | handshake => exact hd.onHandshake c
  | readLength => exact hd.onReadLength (hr rfl) c
  | readBody => exact hd.onReadBody (hr rfl) c
  | write => cases hk

theorem Inv.complete {w : World} (h : w.Inv) {op : Op} (hop : op ∈ w.ops) (c : Completion) :
    Reacts w (w.complete op c) := by
  by_cases hg : op.generation = w.impl.generation
  · have hs := h.live_of_op hop hg
    obtain ⟨g, k⟩ := op
    obtain rfl : g = w.impl.generation := hg
    cases hk : k.isWrite with
    | false => exact h.complete_current hk hop hs c
    | true =>
      cases k with
      | write f => exact h.complete_write hop hs c
      | _ => cases hk
  · exact h.complete_stale hop hg c

theorem Sound.live_of_connected {w : World} (h : w.Sound) (hc : w.impl.state = .connected) :
    w.impl.stream.isSome = true := by
  rw [Option.isSome_iff_ne_none]
  intro hn
  obtain hd | ⟨hr, -⟩ := (h.closed hn).state
  · cases hc.symm.trans hd
  · cases hc.symm.trans hr

theorem Sound.live_of_session {w : World} (h : w.Sound) {s : Int32}
    (hv : w.impl.voiceSessionId = some s) : w.impl.stream.isSome = true := by
  rw [Option.isSome_iff_ne_none]
  intro hn
  cases hv.symm.trans (h.closed hn).voiceSessionId

theorem Sound.startVoice {w : World} (h : w.Sound) : Inners w w.startVoice := by
  unfold World.startVoice
  split_ifs with he hv hc
  · exact .single (.report _ rfl)
  · exact .single (.report _ rfl)
  · exact .single (.report _ rfl)
  · simp only [Bool.or_eq_true, not_or, Bool.not_eq_true, Option.isSome_eq_false_iff,
      Option.isNone_iff_eq_none] at hv
    have hc : w.impl.state = .connected := not_not.mp hc
    refine ReflTransGen.tail ?_ (.timers _ _ fun _ hP _ ↦ hP)
    exact .single (.voiceStart (h.live_of_connected hc) hc hv.1 hv.2)

theorem inners_sendVoiceChunks {w : World} (h : w.Sound) {s : Int32}
    (hv : w.impl.voiceSessionId = some s) (data : Bytes) (offset : ℕ) :
    Inners w (w.sendVoiceChunks s data offset) := by
  fun_induction sendVoiceChunks s data offset w with
  | case1 offset w hlt ih =>
    have hs := h.live_of_session hv
    refine ReflTransGen.head (.voicePayload s _ hs hv) (ih (h.queueMessage _ hs) ?_)
    rw [queueMessage_spec _ hs (h.opened hs).busy]
    exact hv
  | case2 => exact .refl

theorem Sound.sendVoiceData {w : World} (h : w.Sound) (pcm : Bytes) :
    Inners w (w.sendVoiceData pcm) := by
  unfold World.sendVoiceData
  split
  next => exact .refl
  next s hv => exact inners_sendVoiceChunks h hv pcm 0

theorem Sound.stopVoice {w : World} (h : w.Sound) : Inners w w.stopVoice := by
  have ht : Inners w { w with
      voiceTimer := w.voiceTimer.cancel
      impl.voiceStarting := false } :=
    ReflTransGen.head (.timers w.idleTimer w.voiceTimer.cancel fun _ hP _ ↦ hP)
      (.single .voiceGiveUp)
  unfold World.stopVoice
  simp only
  split
  next => exact ht
  next s hv => exact ht.tail (.voiceEnd s (h.live_of_session hv) hv)

theorem Inv.idleWait {w : World} (h : w.Inv) (q : Wait ℕ × Code) (hq : q ∈ w.idleTimer.queued) :
    Reacts w ({ w with idleTimer := w.idleTimer.dequeue q }.onIdleWait q.1.captured q.2) := by
  have ht : Inners w { w with idleTimer := w.idleTimer.dequeue q } :=
    .single (.timers _ w.voiceTimer fun _ hP _ ↦ hP.dequeue q)
  unfold onIdleWait
  split_ifs with hg
  · have hs := h.live_of_idle hq hg.2.2
    exact .after (emitError_lose _ hg.2.2 hs) ht.moves
  · exact h.inners ht

theorem Inv.voiceWait {w : World} (h : w.Inv) (q : Wait Unit × Code) :
    Reacts w ({ w with voiceTimer := w.voiceTimer.dequeue q }.onVoiceWait q.2) := by
  have ht : Inners w { w with voiceTimer := w.voiceTimer.dequeue q } :=
    .single (.timers w.idleTimer _ fun _ hP _ ↦ hP)
  unfold onVoiceWait
  split_ifs with hg
  · exact h.inners ((ht.tail .voiceGiveUp).tail (.report _ rfl))
  · exact h.inners ht

theorem Bounded.ledger_beginConnect {w : World} (h : w.Bounded)
    (hu : w.impl.userDisconnect = false) (reconnecting : Bool) (a : IdentityAttempt) :
    (w.beginConnect reconnecting a).Ledger := by
  obtain ⟨n, context, l, -, ⟨error, he⟩ | ⟨k, rfl, he⟩⟩ :=
    beginConnect_cases reconnecting a h.alive hu
  · rw [he]
    exact ledger_of_none rfl
  · rw [he]
    have hb := booked_nil (w := { w.closeStream with trace := [] })
      (fun op hop ↦ Nat.lt_succ_of_le (h.ops_le op hop)) rfl
    exact fun _ ↦ ⟨.resolve _ _, (hb.start rfl).of_eq rfl rfl rfl, fun hr ↦ by cases hr⟩

theorem Inv.attempt {w w' : World} (h : w.Inv) {e : Event} {a : IdentityAttempt}
    (ha : e.attempt w = some a) (he : w.step e = some w') : Does w e w' ∧ w'.Ledger := by
  obtain ⟨reconnecting, delay, t, rfl⟩ := step_attempt ha he
  exact ⟨.attempt ha reconnecting delay t,
    (h.toBounded.wanting delay t).ledger_beginConnect rfl reconnecting a⟩

theorem Inv.reconnectSkip {w : World} (h : w.Inv) (q : Wait Unit × Code)
    (hq : q.2 = .aborted ∨ w.impl.userDisconnect = true) :
    Reacts w { w with reconnectTimer := w.reconnectTimer.dequeue q } := by
  refine ⟨.single (.reconnectSkip q hq), ?_⟩
  intro hs
  obtain ⟨k, hk, hr⟩ := h.ledger hs
  exact ⟨k, hk.of_eq rfl rfl rfl, hr⟩

theorem Inv.send {w : World} (h : w.Inv) {e : Event} {m : Bytes} (hm : e.message w = some m) :
    Does w e (w.queueMessage m) ∧ (w.queueMessage m).Ledger := by
  cases hs : w.impl.stream with
  | none =>
    rw [queueMessage_none w m hs]
    exact ⟨.moves .refl, h.ledger⟩
  | some s =>
    have hs : w.impl.stream.isSome = true := by simp [hs]
    have hstays := stays_queueMessage h.toSound hs m
    obtain ⟨k, hb, hr⟩ := h.ledger hs
    exact ⟨.send hm hs, fun _ ↦
      ⟨k, hb.queueMessage (h.opened hs) hs m, fun hk ↦ hstays.handshaken (hr hk)⟩⟩

theorem Reacts.does {w w' : World} (h : Reacts w w') (e : Event) : Does w e w' ∧ w'.Ledger :=
  ⟨.moves h.moves, h.ledger⟩

theorem Inv.step {w w' : World} {e : Event} (h : w.Inv) (he : w.step e = some w') :
    Does w e w' ∧ w'.Ledger := by
  cases happens_of_step he with
  | connect a => exact h.attempt rfl he
  | disconnect => exact ⟨.disconnect, ledger_of_none rfl⟩
  | disconnectAndWait => exact ⟨.disconnectAndWait, ledger_of_none rfl⟩
  | sendKey | sendText | launchApp => exact h.send rfl
  | startVoice => exact (h.inners h.startVoice).does _
  | sendVoiceData pcm => exact (h.inners (h.sendVoiceData pcm)).does _
  | stopVoice => exact (h.inners h.stopVoice).does _
  | complete op c hop => exact (h.complete hop c).does _
  | reconnectExpires t ht =>
    refine ⟨.moves (.single (.reconnectExpires t ht)), ?_⟩
    intro hs
    obtain ⟨k, hk, hr⟩ := h.ledger hs
    exact ⟨k, hk.of_eq rfl rfl rfl, hr⟩
  | idleExpires t ht =>
    exact (h.inners (.single (.timers t w.voiceTimer fun _ hP _ ↦ hP.expire ht))).does _
  | voiceExpires t =>
    exact (h.inners (.single (.timers w.idleTimer t fun _ hP _ ↦ hP))).does _
  | reconnectWait q a =>
    by_cases hg : q.2 = .success ∧ w.impl.userDisconnect = false
    · exact h.attempt (if_pos hg) he
    · rw [onReconnectWait, if_neg hg]
      refine (h.reconnectSkip q ?_).does _
      cases hq : q.2 with
      | success => exact .inr (by simpa [hq] using hg)
      | aborted => exact .inl rfl
  | idleWait q hq => exact (h.idleWait q hq).does _
  | voiceWait q => exact (h.voiceWait q).does _

theorem Inv.next {w w' : World} {e : Event} (h : w.Inv) (he : w.step e = some w') : w'.Inv :=
  ⟨h.toSound.does (h.step he).1, (h.step he).2⟩

theorem inv_ofOptions (o : Options) : (World.ofOptions o).Inv :=
  ⟨sound_ofOptions o, ledger_of_none rfl⟩

theorem Inv.run {w w' : World} {es : List Event} (h : w.Inv)
    (hr : Runs.Run World.step w es w') : w'.Inv :=
  hr.invariant (fun _ _ _ hw he ↦ hw.next he) h

theorem inv_of_reaches {o : Options} {es : List Event} {w : World} (h : Reaches o es w) : w.Inv :=
  (inv_ofOptions o).run h

/-- The rule for what every event preserves under a condition. -/
theorem invariant_along {P : World → Prop} {C : World → Event → Prop} {o : Options}
    {es : List Event} {w : World} (hr : Reaches o es w)
    (hC : Runs.Along World.step C (World.ofOptions o) es) (hinit : P (World.ofOptions o))
    (hdoes : ∀ w e w', w.Sound → P w → C w e → Does w e w' → P w') : P w := by
  have h := hr.invariant_along (I := fun w ↦ w.Inv ∧ P w)
    (fun s e t ⟨hi, hp⟩ hc he ↦ ⟨hi.next he, hdoes s e t hi.toSound hp hc (hi.step he).1⟩)
    hC ⟨inv_ofOptions o, hinit⟩
  exact h.2

theorem invariant_of_reaches {P : World → Prop} {o : Options} {es : List Event} {w : World}
    (hr : Reaches o es w) (hinit : P (World.ofOptions o))
    (hdoes : ∀ w e w', w.Sound → P w → Does w e w' → P w') : P w :=
  invariant_along (C := fun _ _ ↦ True) hr (fun _ _ _ _ _ _ ↦ trivial) hinit
    fun w e w' hw hp _ hd ↦ hdoes w e w' hw hp hd

theorem Inv.trace_grows {w w' : World} {es : List Event} (h : w.Inv)
    (hr : Runs.Run World.step w es w') : w.trace <+: w'.trace := by
  induction hr with
  | nil => exact List.prefix_refl _
  | cons he _ ih => exact ((h.step he).1.trace_grows h.toSound).trans (ih (h.next he))

theorem Inv.generation_le {w w' : World} {es : List Event} (h : w.Inv)
    (hr : Runs.Run World.step w es w') : w.impl.generation ≤ w'.impl.generation := by
  induction hr with
  | nil => exact le_rfl
  | cons he _ ih => exact ((h.step he).1.generation_le h.toSound).trans (ih (h.next he))

end AndroidTvRemote.World
