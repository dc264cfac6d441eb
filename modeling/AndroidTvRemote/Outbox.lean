import AndroidTvRemote.Reactions
import AndroidTvRemote.SendQueue

namespace AndroidTvRemote

open Wire Protocol SteadyTimer Runs

namespace Record

def pushedFrame : Record → Option Bytes
  | queued payload => some (frame payload)
  | _ => none

def writtenFrame : Record → Option Bytes
  | write frame => some frame
  | _ => none

def isTraffic (r : Record) : Bool := r.pushedFrame.isSome || r.writtenFrame.isSome

end Record

namespace World

def frames (f : Record → Option Bytes) (g : ℕ) (w : World) : List Bytes :=
  w.trace.filterMap fun r ↦ if r.1 = g then f r.2 else none

abbrev pushed (g : ℕ) (w : World) : List Bytes := w.frames Record.pushedFrame g

abbrev written (g : ℕ) (w : World) : List Bytes := w.frames Record.writtenFrame g

/-- The queue of the current connection, as the history shows it. -/
def outbox (w : World) : SendQueue Bytes where
  queue := w.impl.writeQueue
  busy := w.impl.writeInProgress
  pushed := w.pushed w.impl.generation
  written := w.written w.impl.generation

theorem frames_append {f : Record → Option Bytes} {w w' : World} {l : List (ℕ × Record)}
    (ht : w'.trace = w.trace ++ l) (g : ℕ) : w'.frames f g = w.frames f g ++
      l.filterMap fun r ↦ if r.1 = g then f r.2 else none := by
  rw [frames, ht, List.filterMap_append]
  rfl

def Silent (w w' : World) : Prop :=
  ∃ l, w'.trace = w.trace ++ l ∧ ∀ r ∈ l, r.2.isTraffic = false

theorem silent_of_trace {w w' : World} (h : w'.trace = w.trace) : Silent w w' :=
  ⟨[], by simp [h], by simp⟩

theorem silent_log (w : World) {r : Record} (h : r.isTraffic = false) : Silent w (w.log r) :=
  ⟨[(w.impl.generation, r)], rfl, by simp [h]⟩

theorem Silent.frames {w w' : World} (h : Silent w w') (g : ℕ) :
    w'.pushed g = w.pushed g ∧ w'.written g = w.written g := by
  obtain ⟨l, ht, hl⟩ := h
  have hnil : ∀ f : Record → Option Bytes, (∀ r, r.isTraffic = false → f r = none) →
      (l.filterMap fun r ↦ if r.1 = g then f r.2 else none) = [] := by
    intro f hf
    apply List.filterMap_eq_nil_iff.mpr
    intro r hr
    simp [hf r.2 (hl r hr)]
  constructor
  · rw [pushed, frames_append ht, hnil _ fun r hr ↦ by simpa using (Bool.or_eq_false_iff.mp hr).1,
      List.append_nil]
  · rw [written, frames_append ht, hnil _ fun r hr ↦ by simpa using (Bool.or_eq_false_iff.mp hr).2,
      List.append_nil]

theorem Bounded.frames_eq_nil {w : World} (h : w.Bounded) {g : ℕ} (hg : w.impl.generation < g)
    (f : Record → Option Bytes) : w.frames f g = [] := by
  apply List.filterMap_eq_nil_iff.mpr
  intro r hr
  simp [((h.trace_le r hr).trans_lt hg).ne]

structure Quiet (w w' : World) : Prop where
  generation : w'.impl.generation = w.impl.generation
  stream : w'.impl.stream = w.impl.stream
  writeQueue : w'.impl.writeQueue = w.impl.writeQueue
  writeInProgress : w'.impl.writeInProgress = w.impl.writeInProgress
  silent : Silent w w'

structure Renewed (w w' : World) : Prop where
  generation : w'.impl.generation = w.impl.generation + 1
  writeQueue : w'.impl.writeQueue = []
  writeInProgress : w'.impl.writeInProgress = false
  silent : Silent w w'

/-- All that can happen to the queue. -/
inductive Traffic (w : World) : World → Prop
  | quiet {w' : World} (h : Quiet w w') : Traffic w w'
  | queue {v w' : World} (m : Bytes) (hbefore : Quiet w v) (hsound : v.Sound)
      (hs : v.impl.stream.isSome = true) (hh : v.Handshaken)
      (hafter : Quiet (v.queueMessage m) w') : Traffic w w'
  | wrote (hs : w.impl.stream.isSome = true) (hb : w.impl.writeInProgress = true) :
      Traffic w { w with impl.writeQueue := w.impl.writeQueue.tail }.beginWrite
  | renewed {w' : World} (h : Renewed w w') : Traffic w w'

theorem Quiet.refl (w : World) : Quiet w w := ⟨rfl, rfl, rfl, rfl, silent_of_trace rfl⟩

theorem quiet_log (w : World) {r : Record} (h : r.isTraffic = false) : Quiet w (w.log r) :=
  ⟨rfl, rfl, rfl, rfl, silent_log w h⟩

theorem Inner.traffic {w w' : World} (h : w.Sound) (hm : Inner w w') : Traffic w w' := by
  cases hm with
  | report c hc => exact .quiet (quiet_log w rfl)
  | received m => exact .quiet (quiet_log w rfl)
  | tune i hi =>
    exact .quiet ⟨congrArg Core.generation hi, congrArg Core.stream hi,
      congrArg Core.writeQueue hi, congrArg Core.writeInProgress hi, silent_of_trace rfl⟩
  | timers | voiceGiveUp => exact .quiet ⟨rfl, rfl, rfl, rfl, silent_of_trace rfl⟩
  | online =>
    exact .quiet ⟨rfl, rfl, rfl, rfl, _, List.append_assoc _ _ _, by
      simp [Record.isTraffic, Record.pushedFrame, Record.writtenFrame]⟩
  | reply m _ hs hh => exact .queue m (.refl w) h hs hh (.refl _)
  | voiceStart hs hc _ hn =>
    have hv := h.setVoice true w.impl.voiceSessionId (fun _ ↦ hn) (fun _ ↦ ⟨hs, hc⟩)
    exact .queue (v := { w with impl.voiceStarting := true }) _
      ⟨rfl, rfl, rfl, rfl, silent_of_trace rfl⟩ hv hs ((h.opened hs).online hc).1 (.refl _)
  | voiceBegin s hs hv _ =>
    have hc := (h.opened hs).voice_online (.inl hv)
    have hv := h.setVoice false (some s) (by simp) (fun _ ↦ ⟨hs, hc⟩)
    exact .queue (v := { w with impl.voiceStarting := false, impl.voiceSessionId := some s }) _
      ⟨rfl, rfl, rfl, rfl, silent_of_trace rfl⟩ hv hs ((h.opened hs).online hc).1
      (quiet_log _ rfl)
  | voicePayload s samples hs hv =>
    have hc := (h.opened hs).voice_online (.inr (by simp [hv]))
    exact .queue _ (.refl w) h hs ((h.opened hs).online hc).1 (.refl _)
  | voiceEnd s hs hv =>
    have hc := (h.opened hs).voice_online (.inr (by simp [hv]))
    refine .queue (remoteVoiceEnd s) (.refl w) h hs ((h.opened hs).online hc).1 ?_
    exact ⟨rfl, rfl, rfl, rfl, silent_log { w.queueMessage (remoteVoiceEnd s) with
      impl.voiceSessionId := none } rfl⟩

theorem not_isTraffic_of_isClosing {r : Record} (h : r.isClosing = true) :
    r.isTraffic = false := by
  cases r <;> first | rfl | cases h

theorem Ends.renewed {w w' : World} (h : Ends w w') : Renewed w w' := by
  obtain ⟨state, delay, t, l, -, hl⟩ := h
  exact ⟨rfl, rfl, rfl, l, rfl, fun r hr ↦ not_isTraffic_of_isClosing (hl r hr).2⟩

theorem Move.traffic {w w' : World} (h : w.Sound) (hm : Move w w') : Traffic w w' := by
  cases hm with
  | inner hi => exact hi.traffic h
  | consume | start | reconnectExpires | reconnectSkip =>
    exact .quiet ⟨rfl, rfl, rfl, rfl, silent_of_trace rfl⟩
  | wrote hs hb => exact .wrote hs hb
  | handshake => exact .quiet (quiet_log w rfl)
  | lose hs => exact .renewed (ends_lose (h.opened hs).wanted h.alive).renewed
  | refuse error hs => exact .renewed (ends_refuse error (h.opened hs).wanted h.alive).renewed

theorem Bounded.renewed_beginConnect {w : World} (h : w.Bounded)
    (hu : w.impl.userDisconnect = false) (reconnecting : Bool) (a : IdentityAttempt) :
    Renewed w (w.beginConnect reconnecting a) := by
  obtain ⟨n, context, l, hl, ⟨error, he⟩ | ⟨k, -, he⟩⟩ :=
    beginConnect_cases reconnecting a h.alive hu
  all_goals
    rw [he]
    refine ⟨rfl, rfl, rfl, _, rfl, ?_⟩
    intro r hr
    rcases List.mem_append.mp hr with hr | hr
    · obtain ⟨c, b, rfl⟩ := hl r hr
      rfl
    · simp at hr
      rcases hr with rfl | rfl <;> rfl

theorem outbox_queueMessage {w : World} (hb : w.impl.writeInProgress = !w.impl.writeQueue.isEmpty)
    (hs : w.impl.stream.isSome = true) (m : Bytes) :
    (w.queueMessage m).outbox = w.outbox.push (frame m) := by
  rw [queueMessage_spec m hs hb]
  cases hq : w.impl.writeQueue with
  | nil =>
    have hp : w.impl.writeInProgress = false := by simp [hb, hq]
    simp [outbox, frames, SendQueue.push, SendQueue.begin, hp, hq, Record.pushedFrame,
      Record.writtenFrame]
  | cons f q =>
    have hp : w.impl.writeInProgress = true := by simp [hb, hq]
    simp [outbox, frames, SendQueue.push, hp, hq, Record.pushedFrame, Record.writtenFrame]

theorem outbox_wrote {w : World} (hs : w.impl.stream.isSome = true) :
    { w with impl.writeQueue := w.impl.writeQueue.tail }.beginWrite.outbox =
      w.outbox.complete := by
  rw [wrote_spec hs]
  cases hq : w.impl.writeQueue.tail with
  | nil => simp [outbox, frames, SendQueue.complete, SendQueue.begin, hq]
  | cons f q =>
    simp [outbox, frames, SendQueue.complete, SendQueue.begin, hq, Record.pushedFrame,
      Record.writtenFrame]

/-- The queue is in order, and so was that of every earlier connection. -/
structure Delivers (w : World) : Prop where
  orderly : w.outbox.Orderly
  prefixed : ∀ g, w.written g <+: w.pushed g

theorem Stays.frames_of_ne {w w' : World} (h : Stays w w') {g : ℕ} (hg : g ≠ w.impl.generation)
    (f : Record → Option Bytes) : w'.frames f g = w.frames f g := by
  obtain ⟨l, ht, -⟩ := h.trace
  rw [frames_append ht]
  refine (congrArg _ (List.filterMap_eq_nil_iff.mpr ?_)).trans (List.append_nil _)
  intro r hr
  obtain ⟨r', -, rfl⟩ := List.mem_map.mp hr
  exact if_neg hg.symm

theorem Delivers.stays {w w' : World} (h : w.Delivers) (hs : Stays w w')
    (ho : w'.outbox.Orderly) : w'.Delivers := by
  refine ⟨ho, ?_⟩
  intro g
  by_cases hg : g = w.impl.generation
  · rw [hg, ← hs.generation]
    exact ho.written_first
  · rw [written, pushed, hs.frames_of_ne hg, hs.frames_of_ne hg]
    exact h.prefixed g

theorem Delivers.quiet {w w' : World} (h : w.Delivers) (hq : Quiet w w') : w'.Delivers := by
  have hout : w'.outbox = w.outbox := by
    simp only [outbox, hq.generation, hq.writeQueue, hq.writeInProgress, hq.silent.frames]
  refine ⟨hout ▸ h.orderly, ?_⟩
  intro g
  rw [(hq.silent.frames g).1, (hq.silent.frames g).2]
  exact h.prefixed g

theorem Delivers.queueMessage {w : World} (hw : w.Sound) (h : w.Delivers)
    (hs : w.impl.stream.isSome = true) (m : Bytes) : (w.queueMessage m).Delivers := by
  refine h.stays (stays_queueMessage hw hs m) ?_
  rw [outbox_queueMessage (hw.opened hs).busy hs m]
  exact h.orderly.push _

theorem Delivers.renewed {w w' : World} (hw : w.Sound) (h : w.Delivers) (hr : Renewed w w') :
    w'.Delivers := by
  have hlt : w.impl.generation < w.impl.generation + 1 := Nat.lt_succ_self _
  have hout : w'.outbox = {} := by
    simp only [outbox, hr.generation, hr.writeQueue, hr.writeInProgress, hr.silent.frames,
      hw.toBounded.frames_eq_nil hlt]
  refine ⟨hout ▸ SendQueue.orderly_new, ?_⟩
  intro g
  rw [(hr.silent.frames g).1, (hr.silent.frames g).2]
  exact h.prefixed g

theorem Delivers.traffic {w w' : World} (hw : w.Sound) (h : w.Delivers) (ht : Traffic w w') :
    w'.Delivers := by
  cases ht with
  | quiet hq => exact h.quiet hq
  | queue m hbefore hsound hs _ hafter =>
    exact ((h.quiet hbefore).queueMessage hsound hs m).quiet hafter
  | wrote hs hb => exact h.stays (stays_wrote hs) (outbox_wrote hs ▸ h.orderly.complete hb)
  | renewed hr => exact h.renewed hw hr

theorem Delivers.does {w w' : World} {e : Event} (hw : w.Sound) (h : w.Delivers)
    (hd : Does w e w') : w'.Delivers := by
  cases hd with
  | moves hm => exact hm.invariant (fun _ _ hv hp hm ↦ hp.traffic hv (hm.traffic hv)) hw h
  | send _ hs => exact h.queueMessage hw hs _
  | @attempt _ a _ reconnecting delay t =>
    have hr := (hw.toBounded.wanting delay t).renewed_beginConnect rfl reconnecting a
    exact h.renewed hw ⟨hr.generation, hr.writeQueue, hr.writeInProgress, hr.silent⟩
  | disconnect =>
    exact h.renewed hw ⟨rfl, rfl, rfl, _, List.append_assoc _ _ _, by
      simp [Record.isTraffic, Record.pushedFrame, Record.writtenFrame]⟩
  | disconnectAndWait =>
    exact h.renewed hw ⟨rfl, rfl, rfl, _, rfl, by
      simp [Record.isTraffic, Record.pushedFrame, Record.writtenFrame]⟩

theorem delivers_of_reaches {o : Options} {es : List Event} {w : World} (h : Reaches o es w) :
    w.Delivers :=
  invariant_of_reaches h ⟨SendQueue.orderly_new, fun _ ↦ List.nil_prefix⟩ fun _ _ _ ↦ Delivers.does

theorem Inv.writes_eq {w : World} (h : w.Inv) : w.writes =
    (w.impl.writeQueue.head?.map fun f ↦ (⟨w.impl.generation, .write f⟩ : Op)).toList := by
  cases hs : w.impl.stream with
  | none =>
    have hc := h.closed hs
    exact (booked_nil hc.ops_lt hc.writeQueue).writes
  | some s =>
    obtain ⟨k, hb, -⟩ := h.ledger (by simp [hs])
    exact hb.writes

/-- Outgoing frames are neither lost, duplicated, reordered nor carried over:
the writes of a generation are the first of its pushes, the one outstanding is
of the front of the queue, and it is outstanding as long as there is a front. -/
theorem writes_follow_pushes {o : Options} {es : List Event} {w : World} (h : Reaches o es w) :
    (∀ g, w.written g <+: w.pushed g) ∧
    w.writes.length ≤ 1 ∧
    (∀ op ∈ w.writes, ∃ front rest, w.impl.writeQueue = front :: rest ∧
      op = ⟨w.impl.generation, .write front⟩) ∧
    (w.impl.writeQueue ≠ [] ↔ w.impl.writeInProgress = true) ∧
    (w.impl.writeInProgress = true ↔ w.writes ≠ []) := by
  have hd := delivers_of_reaches h
  have hw := (inv_of_reaches h).writes_eq
  have hb : w.impl.writeInProgress = !w.impl.writeQueue.isEmpty := hd.orderly.busy_iff
  refine ⟨hd.prefixed, ?_⟩
  rw [hw, hb]
  cases w.impl.writeQueue with
  | nil => simp
  | cons front rest => simp

theorem writes_follow_pushes_two_keys :
    let w := (((World.ofOptions {}).connect {}).sendKey 3 .short).sendKey 4 .short
    Reaches {} [.connect {}, .sendKey 3 .short, .sendKey 4 .short] w ∧
      w.pushed 1 = [frame (remoteKey 3 .short), frame (remoteKey 4 .short)] ∧
      w.written 1 <+: w.pushed 1 := by
  intro w
  have h : Reaches {} [.connect {}, .sendKey 3 .short, .sendKey 4 .short] w :=
    .cons rfl (.cons rfl (.cons rfl (.nil _)))
  exact ⟨h, by decide +kernel, (writes_follow_pushes h).1 1⟩

end World

end AndroidTvRemote
