import AndroidTvRemote.Dialogue

namespace AndroidTvRemote

open Wire Protocol SteadyTimer Runs

/-- The records of what a shutdown must not bring about: another connection or
a wait for one, and the use of a stream that is gone. -/
def Record.isOpening : Record → Bool
  | identity _ _ | opened _ | reconnectArmed _ | nullDereference => true
  | _ => false

/-- The records that an object without a stream can still add: errors, and what
`disconnect` reports. -/
def Record.isFarewell : Record → Bool
  | callback (.error _) | callback (.connectionState .disconnected) => true
  | callback (.availabilityChanged available) => !available
  | _ => false

namespace World

def destroy (w : World) : World := { w with impl.shuttingDown := true }

/-- `connectionFailed` where the destructor sets the flag behind its own load of
it, but before `handleConnectionLoss` loads it. -/
def connectionFailedLate (prefixText error : String) (generation : ℕ) (w : World) : World :=
  if generation ≠ w.impl.generation || w.impl.userDisconnect || w.impl.shuttingDown then w.destroy
  else (w.emitError (prefixText ++ ": " ++ error)).destroy.handleConnectionLoss generation

/-- The completion handlers where the destructor sets the flag behind their
first load of it. Only those that go through `connectionFailed` load it again. -/
def handlerLate (op : Op) (c : Completion) (w : World) : World :=
  if op.generation ≠ w.impl.generation then w.destroy
  else match op.kind, c.error with
  | .handshake, _ | _, none => (w.handler op c).destroy
  | .resolve _ _, some error =>
    w.connectionFailedLate "DNS/host resolution failed" error op.generation
  | .connect, some error => w.connectionFailedLate "TCP connection failed" error op.generation
  | .readLength, some error | .readBody _, some error =>
    w.connectionFailedLate "read failed" error op.generation
  | .write _, some error =>
    { w with impl.writeInProgress := false }.connectionFailedLate "write failed" error op.generation

/-- The handler of an event, with the flag set while it runs, after it has loaded
it so many times. -/
def overtaken (w : World) (e : Event) : ℕ → Option World
  | 0 => w.destroy.step e
  | 1 =>
    match e with
    | .complete op c =>
      if op ∈ w.ops ∧ c.Fits op.kind then
        some (({ w with ops := w.ops.erase op }.fill op c).handlerLate op c)
      else none
    | e => (w.step e).map destroy
  | _ + 2 => (w.step e).map destroy

def shutDown (w : World) : World :=
  let w := { w with impl.userDisconnect := true }
  let w := w.closeStream
  { w with
    reconnectTimer := w.reconnectTimer.cancel
    idleTimer := w.idleTimer.cancel
    voiceTimer := w.voiceTimer.cancel }

/-- Where the handlers can take an object that is shutting down: it stays on its
stream or loses it, and starts nothing but operations on that stream. -/
structure Settles (w v : World) : Prop where
  shuttingDown : v.impl.shuttingDown = w.impl.shuttingDown
  contexts : v.contexts = w.contexts
  stream : v.impl.generation = w.impl.generation ∧ v.impl.stream = w.impl.stream ∨
    w.impl.generation < v.impl.generation ∧ v.impl.stream = none
  ops : ∀ op ∈ v.ops, op ∈ w.ops ∨
    w.impl.stream.isSome = true ∧ op.generation = w.impl.generation
  reconnect : ∀ wait, v.reconnectTimer.armed = some wait → w.reconnectTimer.armed = some wait
  idle : ∀ P : ℕ → Prop, w.idleTimer.Captures P →
    (w.impl.stream.isSome = true → P w.impl.generation) → v.idleTimer.Captures P
  trace : ∃ l, v.trace = w.trace ++ l ∧ ∀ r ∈ l, r.2.isOpening = false

namespace Settles

variable {w v u : World}

theorem refl (w : World) : Settles w w where
  shuttingDown := rfl
  contexts := rfl
  stream := .inl ⟨rfl, rfl⟩
  ops _ h := .inl h
  reconnect _ h := h
  idle _ h _ := h
  trace := ⟨[], by simp, by simp⟩

theorem live (h : Settles w v) (hs : v.impl.stream.isSome = true) :
    w.impl.stream.isSome = true ∧ v.impl.generation = w.impl.generation := by
  rcases h.stream with ⟨hg, he⟩ | ⟨-, hn⟩
  · exact ⟨he ▸ hs, hg⟩
  · simp [hn] at hs

theorem trans (h : Settles w v) (h' : Settles v u) : Settles w u where
  shuttingDown := h'.shuttingDown.trans h.shuttingDown
  contexts := h'.contexts.trans h.contexts
  stream := by
    rcases h'.stream with ⟨hg', hs'⟩ | ⟨hg', hs'⟩
    · rw [hg', hs']
      exact h.stream
    · rcases h.stream with ⟨hg, -⟩ | ⟨hg, -⟩
      · exact .inr ⟨hg ▸ hg', hs'⟩
      · exact .inr ⟨hg.trans hg', hs'⟩
  ops op hop := by
    rcases h'.ops op hop with hop | ⟨hs, hg⟩
    · exact h.ops op hop
    · obtain ⟨hlive, hgen⟩ := h.live hs
      exact .inr ⟨hlive, hg.trans hgen⟩
  reconnect wait hw := h.reconnect wait (h'.reconnect wait hw)
  idle P hP hc := by
    apply h'.idle P (h.idle P hP hc)
    intro hs
    obtain ⟨hlive, hgen⟩ := h.live hs
    exact hgen ▸ hc hlive
  trace := grown_trans h.trace h'.trace

section Chain

variable (h : Settles w v)

include h

theorem set {i : Impl} {t : Timer Unit} (ha : i.shuttingDown = v.impl.shuttingDown)
    (hg : i.generation = v.impl.generation) (hs : i.stream = v.impl.stream) :
    Settles w { v with impl := i, voiceTimer := t } :=
  h.trans { refl v with shuttingDown := ha, stream := .inl ⟨hg, hs⟩ }

theorem log {r : Record} (hr : r.isOpening = false) : Settles w (v.log r) :=
  h.trans { refl v with trace := ⟨[(v.impl.generation, r)], rfl, by simp [hr]⟩ }

theorem emit (c : Callback) : Settles w (v.emit c) := h.log rfl

theorem setState (state : ConnectionState) : Settles w (v.setState state) :=
  (h.set (i := { v.impl with state := state }) rfl rfl rfl).emit _

theorem setIdleTimer {t : Timer ℕ} (ht : ∀ P : ℕ → Prop, v.idleTimer.Captures P →
    (v.impl.stream.isSome = true → P v.impl.generation) → t.Captures P) :
    Settles w { v with idleTimer := t } := h.trans { refl v with idle := ht }

theorem setReconnectTimer {t : Timer Unit}
    (ht : ∀ wait, t.armed = some wait → v.reconnectTimer.armed = some wait) :
    Settles w { v with reconnectTimer := t } := h.trans { refl v with reconnect := ht }

theorem resetIdleTimer (hs : v.impl.stream.isSome = true) : Settles w v.resetIdleTimer :=
  h.setIdleTimer fun _ hP hc ↦ hP.arm idleTimeout (hc hs)

theorem start {op : Op} (hs : v.impl.stream.isSome = true)
    (hg : op.generation = v.impl.generation) : Settles w (v.start op) := by
  refine h.trans { refl v with ops := ?_ }
  intro o ho
  rcases List.mem_append.mp ho with ho | ho
  · exact .inl ho
  · obtain rfl := List.mem_singleton.mp ho
    exact .inr ⟨hs, hg⟩

theorem startOnStream {op : Op} (hs : v.impl.stream.isSome = true)
    (hg : op.generation = v.impl.generation) : Settles w (v.startOnStream op) := by
  obtain ⟨s, he⟩ := Option.isSome_iff_exists.mp hs
  simp only [World.startOnStream, he]
  exact h.start hs hg

theorem closeStream : Settles w v.closeStream :=
  h.trans { refl v with stream := .inr ⟨Nat.lt_succ_self _, rfl⟩ }

theorem erase (op : Op) : Settles w { v with ops := v.ops.erase op } :=
  h.trans { refl v with ops := fun _ ho ↦ .inl (List.mem_of_mem_erase ho) }

theorem beginWrite : Settles w v.beginWrite := by
  unfold World.beginWrite
  split
  next front rest hs hq =>
    have hlog : Settles w ({ v with impl.writeInProgress := true }.log (.write front)) := by
      refine log ?_ rfl
      exact h.set rfl rfl rfl
    exact hlog.start (Option.isSome_iff_exists.mpr ⟨_, hs⟩) rfl
  next => exact h.set rfl rfl rfl

theorem queueMessage (m : Bytes) : Settles w (v.queueMessage m) := by
  cases hs : v.impl.stream with
  | none =>
    rw [queueMessage_none v m hs]
    exact h
  | some s =>
    have hlive : v.impl.stream.isSome = true := by simp [hs]
    have hpush : Settles w ({ v.resetIdleTimer with
        impl.writeQueue := v.impl.writeQueue ++ [frame m] }.log (.queued m)) := by
      refine log ?_ rfl
      exact (h.resetIdleTimer hlive).set rfl rfl rfl
    rw [queueMessage_eq v m hlive]
    simp only
    split
    · exact hpush
    · exact hpush.beginWrite

theorem readOneLengthByte (g : ℕ) : Settles w (v.readOneLengthByte g) := by
  unfold World.readOneLengthByte
  split_ifs with hc
  · exact h
  · simp only [Bool.or_eq_true, not_or, Option.isNone_iff_eq_none, decide_eq_true_eq,
      not_not] at hc
    exact h.start (Option.isSome_iff_ne_none.mpr hc.1) hc.2

theorem beginReadLength (g : ℕ) : Settles w (v.beginReadLength g) := by
  unfold World.beginReadLength
  split_ifs
  · exact h
  · refine readOneLengthByte ?_ g
    exact h.set rfl rfl rfl

theorem handleMessage (m : Bytes) : Settles w (v.handleMessage m) := by
  have hlog : Settles w (v.log (.received m)) := h.log rfl
  unfold World.handleMessage
  simp only
  split
  next =>
    refine queueMessage (emit ?_ _) _
    exact hlog.set rfl rfl rfl
  next => exact hlog.queueMessage _
  next =>
    refine emit ?_ _
    exact hlog.set rfl rfl rfl
  next => exact hlog.set rfl rfl rfl
  next =>
    refine emit ?_ _
    exact hlog.set rfl rfl rfl
  next =>
    refine emit (emit (setState ?_ _) _) _
    exact hlog.set rfl rfl rfl
  next => exact hlog.queueMessage _
  next => exact hlog.emit _
  next =>
    split
    · refine emit (queueMessage ?_ _) _
      exact hlog.set rfl rfl rfl
    · exact hlog
  next => exact hlog

theorem startVoice : Settles w v.startVoice := by
  unfold World.startVoice
  split_ifs
  · exact h.emit _
  · exact h.emit _
  · exact h.emit _
  · have hset : Settles w { v with impl.voiceStarting := true } := h.set rfl rfl rfl
    exact (hset.queueMessage _).set rfl rfl rfl

theorem sendVoiceData (pcm : Bytes) : Settles w (v.sendVoiceData pcm) := by
  unfold World.sendVoiceData
  split
  · exact h
  next s hs =>
    clear hs
    fun_induction sendVoiceChunks s pcm 0 v with
    | case1 offset v hlt ih => exact ih (h.queueMessage _)
    | case2 offset v hlt => exact h

theorem stopVoice : Settles w v.stopVoice := by
  have hset : Settles w { v with
      voiceTimer := v.voiceTimer.cancel
      impl.voiceStarting := false } := h.set rfl rfl rfl
  unfold World.stopVoice
  simp only
  split
  · exact hset
  · refine emit ?_ _
    exact (hset.queueMessage _).set rfl rfl rfl

theorem shutDown : Settles w v.shutDown := by
  have hset : Settles w { v with impl.userDisconnect := true }.closeStream := by
    refine closeStream ?_
    exact h.set rfl rfl rfl
  have htimers := (hset.setReconnectTimer (t := v.reconnectTimer.cancel)
    fun _ hn ↦ (by cases hn)).setIdleTimer (t := v.idleTimer.cancel) fun _ hP _ ↦ hP.cancel
  exact htimers.set rfl rfl rfl

theorem disconnectAndWait : Settles w v.disconnectAndWait := h.shutDown.setState _

variable (ha : v.impl.shuttingDown = true)

include ha

theorem lose (g : ℕ) : Settles w (v.handleConnectionLoss g) := by
  unfold World.handleConnectionLoss
  split
  · exact h
  · have hclose : Settles w (v.log .lost).closeStream := (h.log rfl).closeStream
    simp only
    split_ifs with hc ht ht
    all_goals first
      | exact (hclose.emit _).setState _
      | exact hclose.setState _
      | simp [World.log, World.closeStream, emitAvailability, World.emit, ha] at ht

theorem connectionFailed (prefixText error : String) (g : ℕ) :
    Settles w (v.connectionFailed prefixText error g) := by
  rw [World.connectionFailed, if_pos (by simp [ha])]
  exact h

theorem authenticationFailed (error : String) (g : ℕ) :
    Settles w (v.authenticationFailed error g) := by
  rw [World.authenticationFailed, if_pos (by simp [ha])]
  exact h

theorem beginConnect (reconnecting : Bool) (a : IdentityAttempt) :
    Settles w (v.beginConnect reconnecting a) := by
  rw [World.beginConnect, if_pos (by simp [ha])]
  exact h

end Chain

end Settles

structure Ending (w : World) : Prop where
  shuttingDown : w.impl.shuttingDown = true
  ops_le : ∀ op ∈ w.ops, op.generation ≤ w.impl.generation
  live : ∀ op ∈ w.ops, op.generation = w.impl.generation → w.impl.stream.isSome = true
  idle_le : w.idleTimer.Captures (· ≤ w.impl.generation)

theorem Sound.destroy {w : World} (h : w.Sound) : w.destroy.Ending :=
  ⟨rfl, h.ops_le, fun _ hop hg ↦ h.live_of_op hop hg, h.idle_le⟩

section Steps

variable {w v : World}

theorem Settles.generation_le (h : Settles w v) : w.impl.generation ≤ v.impl.generation := by
  rcases h.stream with ⟨hg, -⟩ | ⟨hg, -⟩
  · exact hg.ge
  · exact hg.le

theorem Ending.settles (h : w.Ending) (hs : Settles w v) : v.Ending where
  shuttingDown := hs.shuttingDown.trans h.shuttingDown
  ops_le op hop := by
    rcases hs.ops op hop with hop | ⟨-, hg⟩
    · exact (h.ops_le op hop).trans hs.generation_le
    · exact hg.le.trans hs.generation_le
  live op hop hg := by
    have hle : op.generation ≤ w.impl.generation ∧
        (op.generation = w.impl.generation → w.impl.stream.isSome = true) := by
      rcases hs.ops op hop with hop | ⟨hlive, he⟩
      · exact ⟨h.ops_le op hop, h.live op hop⟩
      · exact ⟨he.le, fun _ ↦ hlive⟩
    rcases hs.stream with ⟨hgen, hstream⟩ | ⟨hlt, -⟩
    · rw [hstream]
      exact hle.2 (hg.trans hgen)
    · omega
  idle_le := hs.idle _ (h.idle_le.mono fun _ hc ↦ hc.trans hs.generation_le)
    fun _ ↦ hs.generation_le

theorem Settles.handler {k : OpKind} {c : Completion} (h : Settles w v)
    (ha : v.impl.shuttingDown = true) (hs : v.impl.stream.isSome = true) :
    Settles w (v.handler ⟨v.impl.generation, k⟩ c) := by
  cases k with
  | resolve | connect =>
    simp only [World.handler, onResolve, onConnect, ne_eq, not_true_eq_false, if_false]
    split
    · exact h.connectionFailed ha _ _ _
    · exact h.startOnStream hs rfl
  | handshake =>
    simp only [World.handler, onHandshake, ne_eq, not_true_eq_false, if_false]
    split
    · exact h.authenticationFailed ha _ _
    · have hset : Settles w { v.log .handshake with impl.reconnectDelay := 100 } :=
        (h.log rfl).set rfl rfl rfl
      exact (hset.beginReadLength _).resetIdleTimer (beginReadLength_live _ _ hs)
  | readLength =>
    simp only [World.handler, onReadLength, ne_eq, not_true_eq_false, if_false]
    split
    · exact h.connectionFailed ha _ _ _
    · have hread : ∀ length shift, Settles w { v with
          impl.readLength := length
          impl.readShift := shift } := fun length shift ↦ h.set rfl rfl rfl
      split_ifs
      · refine lose (emit ?_ _) (by exact ha) _
        exact hread _ _
      · refine beginReadLength (handleMessage ?_ _) _
        exact h.set rfl rfl rfl
      · refine startOnStream ?_ (by exact hs) rfl
        exact h.set rfl rfl rfl
      · refine lose (emit ?_ _) (by exact ha) _
        exact hread _ _
      · exact (hread _ _).readOneLengthByte _
  | readBody size =>
    simp only [World.handler, onReadBody, ne_eq, not_true_eq_false, if_false]
    split
    · exact h.connectionFailed ha _ _ _
    · exact ((h.resetIdleTimer hs).handleMessage _).beginReadLength _
  | write f =>
    simp only [World.handler, onWrite, ne_eq, not_true_eq_false, if_false]
    split
    · refine connectionFailed ?_ (by exact ha) _ _ _
      exact h.set rfl rfl rfl
    · refine beginWrite ?_
      exact h.set rfl rfl rfl

theorem fill_destroy (w : World) (op : Op) (c : Completion) :
    (w.fill op c).destroy = w.destroy.fill op c := by
  unfold World.fill
  split <;> rfl

theorem Settles.fill (w : World) (op : Op) (c : Completion) :
    Settles w ({ w with ops := w.ops.erase op }.fill op c) := by
  obtain ⟨byte, body, hf⟩ := fill_eq op c { w with ops := w.ops.erase op }
  rw [hf]
  exact (Settles.erase (.refl w) op).set rfl rfl rfl

theorem Ending.settles_complete (h : w.Ending) {op : Op} {c : Completion} (hop : op ∈ w.ops) :
    Settles w (w.complete op c) := by
  have hfill := Settles.fill w op c
  by_cases hg : op.generation = w.impl.generation
  · obtain ⟨-, hgen, hstream, -, halive, -⟩ := fill_keeps op c w
    have hs := h.live op hop hg
    obtain ⟨g, k⟩ := op
    obtain rfl : g = w.impl.generation := hg
    unfold World.complete
    rw [← hstream] at hs
    generalize fill ⟨w.impl.generation, k⟩ c
      { w with ops := w.ops.erase ⟨w.impl.generation, k⟩ } = v at *
    rw [← hgen]
    exact hfill.handler (halive.trans h.shuttingDown) hs
  · rw [World.complete_stale hg]
    exact hfill

theorem Ending.settles_step (h : w.Ending) {e : Event} (he : w.step e = some v) : Settles w v := by
  have hw := Settles.refl w
  have ha := h.shuttingDown
  cases happens_of_step he with
  | connect a =>
    refine Settles.beginConnect ?_ (by exact ha) false a
    have hcancel := hw.setReconnectTimer (t := w.reconnectTimer.cancel) fun _ hn ↦ (by cases hn)
    exact hcancel.set rfl rfl rfl
  | disconnect => exact hw.disconnectAndWait.emit _
  | disconnectAndWait => exact hw.disconnectAndWait
  | sendKey | sendText | launchApp => exact hw.queueMessage _
  | startVoice => exact hw.startVoice
  | sendVoiceData pcm => exact hw.sendVoiceData pcm
  | stopVoice => exact hw.stopVoice
  | complete op c hop => exact h.settles_complete hop
  | reconnectExpires t ht =>
    refine hw.setReconnectTimer ?_
    obtain ⟨wait, -, rfl⟩ := Option.map_eq_some_iff.mp ht
    intro _ hn
    cases hn
  | idleExpires t ht => exact hw.setIdleTimer fun _ hP _ ↦ hP.expire ht
  | voiceExpires t ht => exact hw.set rfl rfl rfl
  | reconnectWait q a =>
    have hdequeue : Settles w { w with reconnectTimer := w.reconnectTimer.dequeue q } :=
      hw.setReconnectTimer fun _ hn ↦ hn
    unfold onReconnectWait
    split_ifs
    · exact hdequeue.beginConnect ha true a
    · exact hdequeue
  | idleWait q =>
    have hdequeue : Settles w { w with idleTimer := w.idleTimer.dequeue q } :=
      hw.setIdleTimer fun _ hP _ ↦ hP.dequeue q
    unfold onIdleWait
    split_ifs
    · exact (hdequeue.emit _).lose ha _
    · exact hdequeue
  | voiceWait q =>
    unfold onVoiceWait
    split_ifs
    · refine Settles.emit ?_ _
      exact hw.set rfl rfl rfl
    · exact hw.set rfl rfl rfl

end Steps

section Overtaken

variable {w v : World}

theorem Sound.settles_destroy (h : w.Sound) (hs : Settles w.destroy v) : v.Ending :=
  h.destroy.settles hs

theorem Settles.connectionFailedLate (h : Settles w.destroy v.destroy) (prefixText error : String)
    (g : ℕ) : Settles w.destroy (v.connectionFailedLate prefixText error g) := by
  unfold World.connectionFailedLate
  split_ifs
  · exact h
  · exact (h.emit _).lose rfl g

theorem Inv.overtaken (h : w.Inv) {e : Event} {loads : ℕ} (he : w.overtaken e loads = some v) :
    v.Ending := by
  have hmap : (w.step e).map destroy = some v → v.Ending := by
    intro hv
    obtain ⟨u, hu, rfl⟩ := Option.map_eq_some_iff.mp hv
    exact (h.next hu).toSound.destroy
  match loads with
  | 0 => exact h.toSound.settles_destroy (h.toSound.destroy.settles_step he)
  | _ + 2 => exact hmap he
  | 1 =>
    cases e with
    | complete op c =>
      obtain ⟨⟨hop, hc⟩, hv⟩ := (Option.ite_none_right_eq_some ..).mp he
      obtain rfl := Option.some.inj hv
      have hplain : (w.complete op c).destroy.Ending :=
        (h.next (step_complete w op c ⟨hop, hc⟩)).toSound.destroy
      have hfill : Settles w.destroy ({ w with ops := w.ops.erase op }.fill op c).destroy := by
        rw [fill_destroy]
        exact .fill w.destroy op c
      unfold World.complete at hplain
      generalize { w with ops := w.ops.erase op }.fill op c = u at hplain hfill
      unfold handlerLate
      split_ifs with hg
      · exact h.toSound.settles_destroy hfill
      obtain ⟨g, k⟩ := op
      cases k with
      | handshake => exact hplain
      | resolve | connect | readLength | readBody =>
        cases c.error with
        | none => exact hplain
        | some error => exact h.toSound.settles_destroy (hfill.connectionFailedLate _ error g)
      | write =>
        cases c.error with
        | none => exact hplain
        | some error =>
          refine h.toSound.settles_destroy (Settles.connectionFailedLate ?_ _ error g)
          exact hfill.set rfl rfl rfl
    | _ => exact hmap he

end Overtaken

structure Over (w : World) : Prop where
  shuttingDown : w.impl.shuttingDown = true
  stream : w.impl.stream = none
  voiceSessionId : w.impl.voiceSessionId = none
  ops_lt : ∀ op ∈ w.ops, op.generation < w.impl.generation
  idle_lt : w.idleTimer.Captures (· < w.impl.generation)

theorem Ending.shutDown {w : World} (h : w.Ending) : w.shutDown.Over where
  shuttingDown := h.shuttingDown
  stream := rfl
  voiceSessionId := rfl
  ops_lt op hop := Nat.lt_succ_of_le (h.ops_le op hop)
  idle_lt := (h.idle_le.mono fun _ hc ↦ Nat.lt_succ_of_le hc).cancel

/-- Nothing was added to the records of a world but farewells. -/
def Fades (w v : World) : Prop :=
  ∃ l, v.trace = w.trace ++ l ∧ ∀ r ∈ l, r.2.isFarewell = true

section Over

variable {w v : World}

theorem Fades.of_eq (h : v.trace = w.trace) : Fades w v := ⟨[], by simp [h], by simp⟩

theorem Over.ending (h : w.Over) : w.Ending where
  shuttingDown := h.shuttingDown
  ops_le op hop := (h.ops_lt op hop).le
  live op hop hg := absurd hg (h.ops_lt op hop).ne
  idle_le := h.idle_lt.mono fun _ hc ↦ hc.le

theorem Over.settles (h : w.Over) (hs : Settles w v) (hv : v.impl.voiceSessionId = none) :
    v.Over ∧ ∀ op ∈ v.ops, op ∈ w.ops := by
  have hnone : w.impl.stream.isSome = false := by simp [h.stream]
  have hops : ∀ op ∈ v.ops, op ∈ w.ops := by
    intro op hop
    rcases hs.ops op hop with hop | ⟨hlive, -⟩
    · exact hop
    · cases hnone.symm.trans hlive
  refine ⟨⟨hs.shuttingDown.trans h.shuttingDown, ?_, hv, ?_, ?_⟩, hops⟩
  · rcases hs.stream with ⟨-, he⟩ | ⟨-, he⟩
    · exact he.trans h.stream
    · exact he
  · intro op hop
    exact (h.ops_lt op (hops op hop)).trans_le hs.generation_le
  · apply (hs.idle _ h.idle_lt _).mono
    · exact fun _ hc ↦ hc.trans_le hs.generation_le
    · intro hlive
      cases hnone.symm.trans hlive

/-- Of the handlers that still run, only those of `disconnect` and of a voice
request have anything to say. -/
theorem Over.fades (h : w.Over) {e : Event} (he : w.step e = some v) :
    v.impl.voiceSessionId = none ∧ Fades w v := by
  have hsame : w.impl.voiceSessionId = none ∧ Fades w w := ⟨h.voiceSessionId, .of_eq rfl⟩
  have ha : w.impl.shuttingDown = true := h.shuttingDown
  have hconnect : ∀ v : World, v.impl.shuttingDown = true → ∀ b a, v.beginConnect b a = v := by
    intro v hv b a
    rw [beginConnect, if_pos (by simp [hv])]
  cases happens_of_step he with
  | connect a =>
    have hskip : w.connect a = { w with
        impl.userDisconnect := false
        impl.reconnectDelay := 100
        reconnectTimer := w.reconnectTimer.cancel } := hconnect _ (by exact ha) _ _
    rw [hskip]
    exact hsame
  | disconnect =>
    exact ⟨rfl, [(w.impl.generation + 1, _), (w.impl.generation + 1, _)],
      List.append_assoc _ _ _, by simp [Record.isFarewell]⟩
  | disconnectAndWait => exact ⟨rfl, [(w.impl.generation + 1, _)], rfl, by simp [Record.isFarewell]⟩
  | sendKey | sendText | launchApp =>
    show (w.queueMessage _).impl.voiceSessionId = none ∧ Fades w (w.queueMessage _)
    rw [queueMessage_none w _ h.stream]
    exact hsame
  | startVoice =>
    have herror : ∀ error, (w.emitError error).impl.voiceSessionId = none ∧
        Fades w (w.emitError error) := fun error ↦
      ⟨h.voiceSessionId, [(w.impl.generation, _)], rfl, by simp [Record.isFarewell]⟩
    unfold World.startVoice
    split_ifs
    · exact herror _
    · exact herror _
    · exact herror _
    · simp only
      rw [queueMessage_none _ _ (by exact h.stream)]
      exact hsame
  | sendVoiceData pcm =>
    rw [sendVoiceData, h.voiceSessionId]
    exact hsame
  | stopVoice =>
    rw [stopVoice_none h.voiceSessionId]
    exact hsame
  | complete op c hop =>
    obtain ⟨byte, body, hf⟩ := fill_eq op c { w with ops := w.ops.erase op }
    rw [World.complete_stale (h.ops_lt op hop).ne, hf]
    exact hsame
  | reconnectExpires | idleExpires | voiceExpires => exact hsame
  | reconnectWait q a =>
    unfold onReconnectWait
    split_ifs
    · rw [hconnect _ (by exact ha)]
      exact hsame
    · exact hsame
  | idleWait q hq =>
    have hstale := (h.idle_lt.2 q hq).ne
    rw [onIdleWait, if_neg fun hc ↦ hstale hc.2.2]
    exact hsame
  | voiceWait q =>
    unfold onVoiceWait
    split_ifs
    · exact ⟨h.voiceSessionId, [(w.impl.generation, _)], rfl, by simp [Record.isFarewell]⟩
    · exact hsame

end Over

end World

/-- How far the destructor has come. After `io_.stop()` no handler runs. -/
inductive Lifetime.Phase
  | alive
  | dying
  | finished
  | stopped
  deriving DecidableEq, Repr

structure Lifetime where
  world : World
  phase : Lifetime.Phase

namespace Lifetime

/-- A handler of the I/O thread, or a part of the destructor: it sets the flag
and posts its handler, the handler runs, the I/O context is stopped. The flag
may be set while a handler runs. -/
inductive Act
  | handler (event : Event)
  | overtaken (event : Event) (loads : ℕ)
  | destroy
  | shutDown
  | stop

def ofOptions (o : Options) : Lifetime := ⟨World.ofOptions o, .alive⟩

/-- The context may be stopped before the posted handler has run. -/
def step (x : Lifetime) : Act → Option Lifetime
  | .handler e =>
    if x.phase = .stopped then none else (x.world.step e).map fun w ↦ { x with world := w }
  | .overtaken e loads =>
    if x.phase = .alive then (x.world.overtaken e loads).map fun w ↦ ⟨w, .dying⟩ else none
  | .destroy => if x.phase = .alive then some ⟨x.world.destroy, .dying⟩ else none
  | .shutDown => if x.phase = .dying then some ⟨x.world.shutDown, .finished⟩ else none
  | .stop =>
    if x.phase = .dying ∨ x.phase = .finished then some { x with phase := .stopped } else none

structure Kept (x : Lifetime) : Prop where
  alive : x.phase = .alive → x.world.Inv
  ending : x.phase ≠ .alive → x.world.Ending
  ended : x.phase = .finished → x.world.Over

structure Passes (x y : Lifetime) : Prop where
  phase : y.phase ≠ .alive
  settles : World.Settles x.world y.world
  ended : x.world.Over → y.world.Over ∧ (∀ op ∈ y.world.ops, op ∈ x.world.ops) ∧
    World.Fades x.world y.world

variable {x y z : Lifetime}

theorem Passes.trans (h : Passes x y) (h' : Passes y z) : Passes x z := by
  refine ⟨h'.phase, h.settles.trans h'.settles, ?_⟩
  intro hx
  obtain ⟨hy, hops, hfades⟩ := h.ended hx
  obtain ⟨hz, hops', hfades'⟩ := h'.ended hy
  exact ⟨hz, fun op hop ↦ hops op (hops' op hop), grown_trans hfades hfades'⟩

theorem Kept.step {a : Act} (h : x.Kept) (ha : x.step a = some y) :
    y.Kept ∧ (x.phase ≠ .alive → Passes x y) := by
  cases a with
  | handler e =>
    obtain ⟨-, hmap⟩ := (Option.ite_none_left_eq_some ..).mp ha
    obtain ⟨w, he, rfl⟩ := Option.map_eq_some_iff.mp hmap
    refine ⟨⟨fun hp ↦ (h.alive hp).next he, ?_, ?_⟩, ?_⟩
    · intro hp
      exact (h.ending hp).settles ((h.ending hp).settles_step he)
    · intro hp
      have hover := h.ended hp
      exact (hover.settles (hover.ending.settles_step he) (hover.fades he).1).1
    · intro hp
      refine ⟨hp, (h.ending hp).settles_step he, ?_⟩
      intro hover
      obtain ⟨hv, hfades⟩ := hover.fades he
      obtain ⟨hy, hops⟩ := hover.settles (hover.ending.settles_step he) hv
      exact ⟨hy, hops, hfades⟩
  | overtaken e loads =>
    obtain ⟨hp, hmap⟩ := (Option.ite_none_right_eq_some ..).mp ha
    obtain ⟨w, he, rfl⟩ := Option.map_eq_some_iff.mp hmap
    exact ⟨⟨fun hn ↦ (by cases hn), fun _ ↦ (h.alive hp).overtaken he, fun hn ↦ (by cases hn)⟩,
      fun hn ↦ absurd hp hn⟩
  | destroy =>
    obtain ⟨hp, hy⟩ := (Option.ite_none_right_eq_some ..).mp ha
    obtain rfl := Option.some.inj hy
    exact ⟨⟨fun hn ↦ (by cases hn), fun _ ↦ (h.alive hp).toSound.destroy, fun hn ↦ (by cases hn)⟩,
      fun hn ↦ absurd hp hn⟩
  | shutDown =>
    obtain ⟨hp, hy⟩ := (Option.ite_none_right_eq_some ..).mp ha
    obtain rfl := Option.some.inj hy
    have hending := h.ending (by simp [hp])
    have hsettles := (World.Settles.refl x.world).shutDown
    refine ⟨⟨fun hn ↦ (by cases hn), fun _ ↦ hending.settles hsettles, fun _ ↦ hending.shutDown⟩, ?_⟩
    intro _
    exact ⟨by simp, hsettles, fun _ ↦ ⟨hending.shutDown, fun _ hop ↦ hop, .of_eq rfl⟩⟩
  | stop =>
    obtain ⟨hp, hy⟩ := (Option.ite_none_right_eq_some ..).mp ha
    obtain rfl := Option.some.inj hy
    have halive : x.phase ≠ .alive := by rcases hp with hp | hp <;> simp [hp]
    refine ⟨⟨fun hn ↦ (by cases hn), fun _ ↦ h.ending halive, fun hn ↦ (by cases hn)⟩, ?_⟩
    intro _
    exact ⟨by simp, .refl _, fun hover ↦ ⟨hover, fun _ hop ↦ hop, .of_eq rfl⟩⟩

theorem Kept.run {acts : List Act} (h : x.Kept) (hr : Run Lifetime.step x acts y) :
    y.Kept ∧ (x.phase ≠ .alive → Passes x y) := by
  induction hr with
  | nil x =>
    refine ⟨h, fun hp ↦ ⟨hp, .refl _, fun hover ↦ ⟨hover, fun _ hop ↦ hop, .of_eq rfl⟩⟩⟩
  | cons ha _ ih =>
    obtain ⟨hy, hpass⟩ := h.step ha
    obtain ⟨hz, hpass'⟩ := ih hy
    refine ⟨hz, fun hp ↦ ?_⟩
    exact (hpass hp).trans (hpass' (hpass hp).phase)

end Lifetime

end AndroidTvRemote
