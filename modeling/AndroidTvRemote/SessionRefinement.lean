import AndroidTvRemote.Outbox
import AndroidTvRemote.Session

namespace AndroidTvRemote

open Wire Protocol SteadyTimer Runs

/-- What an event is to the connection of a generation. The expiry of a timer
queues a wait; what counts is that wait, and only if it was not cancelled. -/
def Event.act (g : ℕ) : Event → Option Act
  | complete op c => if op.generation = g then some (.complete op.kind c) else none
  | sendKey key direction => some (.sendKey key direction)
  | sendText text => some (.sendText text)
  | launchApp appLink => some (.launchApp appLink)
  | startVoice => some .startVoice
  | sendVoiceData pcm => some (.sendVoiceData pcm)
  | stopVoice => some .stopVoice
  | disconnect | disconnectAndWait => some .disconnect
  | idleWait q => if q.2 = .success ∧ q.1.captured = g then some .idleTimeout else none
  | voiceWait q => if q.2 = .success then some .voiceTimeout else none
  | connect _ | reconnectExpires | idleExpires | voiceExpires | reconnectWait _ _ => none

namespace World

def kinds (g : ℕ) (w : World) : List OpKind :=
  w.ops.filterMap fun op ↦ if op.generation = g then some op.kind else none

def session (g : ℕ) (w : World) : Session where
  live := w.impl.stream.isSome
  connected := w.impl.state = .connected
  voiceEnabled := w.impl.voiceEnabled
  activeFeatures := w.impl.activeFeatures
  imeCounter := w.impl.imeCounter
  imeFieldCounter := w.impl.imeFieldCounter
  voiceStarting := w.impl.voiceStarting
  voiceSessionId := w.impl.voiceSessionId
  readLength := w.impl.readLength
  readShift := w.impl.readShift
  writeQueue := w.impl.writeQueue
  writeInProgress := w.impl.writeInProgress
  ops := w.kinds g
  sent := w.pushed g

/-- The connection of the generation is the current one, or it is gone and
none has followed it. -/
structure Tracks (g : ℕ) (w : World) : Prop where
  current_of_live : w.impl.stream.isSome = true → w.impl.generation = g
  lt_of_gone : w.impl.stream = none → g < w.impl.generation

structure OnConnection (g : ℕ) (w : World) : Prop extends Inv w, Tracks g w

section Primitives

variable {g : ℕ} {w : World}

theorem pushed_log {r : Record} (hr : r.pushedFrame = none) : (w.log r).pushed g = w.pushed g := by
  rw [pushed, frames_append (log_trace w r)]
  simp [hr]

theorem session_eq {s : Session} {l : List Bytes} (hp : w.pushed g = l)
    (h : { w.session g with sent := l } = s) : w.session g = s := by
  rw [← h, ← hp]
  rfl

theorem session_log {r : Record} (hr : r.pushedFrame = none) :
    (w.log r).session g = w.session g := session_eq (pushed_log hr) rfl

theorem session_ite {c c' : Prop} [Decidable c] [Decidable c'] {v v' : World} {s s' : Session}
    (hc : c ↔ c') (hthen : c → v.session g = s) (helse : ¬ c → v'.session g = s') :
    (if c then v else v').session g = if c' then s else s' := by
  by_cases h : c
  · rw [if_pos h, if_pos (hc.mp h), hthen h]
  · rw [if_neg h, if_neg (mt hc.mpr h), helse h]

theorem session_start (k : OpKind) : (w.start ⟨g, k⟩).session g = (w.session g).start k := by
  have hk : (w.start ⟨g, k⟩).kinds g = w.kinds g ++ [k] := by
    simp [kinds, World.start, List.filterMap_append]
  simp only [session, hk]
  rfl

theorem session_beginWrite (hs : w.impl.stream.isSome = true) (hg : w.impl.generation = g) :
    w.beginWrite.session g = (w.session g).beginWrite := by
  cases hq : w.impl.writeQueue with
  | nil =>
    rw [beginWrite_nil w hq, Session.beginWrite_nil (s := w.session g) hq]
    rfl
  | cons front rest =>
    rw [beginWrite_cons w hs hq, hg, session_start, session_log rfl,
      Session.beginWrite_cons (s := w.session g) hq]
    rfl

theorem session_queueMessage (hg : w.impl.stream.isSome = true → w.impl.generation = g)
    (m : Bytes) : (w.queueMessage m).session g = (w.session g).send m := by
  cases hs : w.impl.stream with
  | none =>
    have hdead : (w.session g).live = false := by simp [session, hs]
    rw [queueMessage_none w m hs, Session.send_of_not_live hdead]
  | some stream =>
    have hlive : w.impl.stream.isSome = true := by simp [hs]
    let v := { w.resetIdleTimer with
      impl.writeQueue := w.impl.writeQueue ++ [frame m] }.log (.queued m)
    have hp : v.pushed g = w.pushed g ++ [frame m] := by
      have ht : v.trace = w.trace ++ [(w.impl.generation, .queued m)] := rfl
      rw [pushed, frames_append ht]
      simp [hg hlive, Record.pushedFrame]
    have hpush : v.session g = { w.session g with
        writeQueue := w.impl.writeQueue ++ [frame m]
        sent := w.pushed g ++ [frame m] } := by
      simp only [session, hp]
      rfl
    have hbegin : v.beginWrite.session g = (v.session g).beginWrite :=
      session_beginWrite hlive (hg hlive)
    have hsend := Session.send_of_live (s := w.session g) hlive m
    rw [queueMessage_eq w m hlive]
    cases hb : w.impl.writeInProgress with
    | true =>
      simp only [if_true]
      exact hpush.trans (hsend.trans (if_pos hb)).symm
    | false =>
      simp only [Bool.false_eq_true, if_false]
      refine Eq.trans ?_ (hsend.trans (if_neg (by simp [session, hb]))).symm
      exact hbegin.trans (congrArg Session.beginWrite hpush)

theorem session_handleMessage (hg : w.impl.stream.isSome = true → w.impl.generation = g)
    (m : Bytes) : (w.handleMessage m).session g = (w.session g).receive m := by
  have hpush : (w.log (.received m)).pushed g = w.pushed g := pushed_log rfl
  unfold handleMessage Session.receive
  simp only
  cases hk : (parseRemote m).kind with
  | configure =>
    refine (session_queueMessage ?_ _).trans (congrArg (Session.send _) ?_)
    · exact hg
    · exact (session_log rfl).trans (session_eq hpush rfl)
  | setActive =>
    refine (session_queueMessage ?_ _).trans (congrArg (Session.send _) ?_)
    · exact hg
    · exact session_eq hpush rfl
  | imeKeyInject => exact (session_log rfl).trans (session_eq hpush rfl)
  | imeBatchEdit => exact session_eq hpush rfl
  | volume => exact (session_log rfl).trans (session_eq hpush rfl)
  | start =>
    refine (session_log rfl).trans ((session_log rfl).trans ((session_log rfl).trans ?_))
    exact session_eq hpush rfl
  | ping =>
    refine (session_queueMessage ?_ _).trans (congrArg (Session.send _) ?_)
    · exact hg
    · exact session_eq hpush rfl
  | error => exact (session_log rfl).trans (session_eq hpush rfl)
  | voiceBegin =>
    refine session_ite Iff.rfl ?_ (fun _ ↦ session_eq hpush rfl)
    intro _
    refine (session_log rfl).trans ((session_queueMessage ?_ _).trans (congrArg (Session.send _) ?_))
    · exact hg
    · exact session_eq hpush rfl
  | unknown => exact session_eq hpush rfl

/-- The object keeps of a closed connection what its session keeps. -/
theorem Ends.session_eq {w' : World} (h : Ends w w') : w'.session g = (w.session g).close := by
  have hp := (h.renewed.silent.frames g).1
  obtain ⟨state, delay, t, l, hstate, -⟩ := h
  have hoff : state ≠ .connected := by
    rcases hstate with rfl | ⟨rfl, -⟩ <;> simp
  refine World.session_eq hp ?_
  simp only [session, hoff, decide_false]
  rfl

theorem Sound.session_lose (h : w.Sound) (hs : w.impl.stream.isSome = true) :
    (w.handleConnectionLoss w.impl.generation).session g = (w.session g).close :=
  (ends_lose (h.opened hs).wanted h.alive).session_eq

theorem Sound.session_refuse (h : w.Sound) (error : String) (hs : w.impl.stream.isSome = true) :
    (w.authenticationFailed error w.impl.generation).session g = (w.session g).close :=
  (ends_refuse error (h.opened hs).wanted h.alive).session_eq

theorem Sound.session_connectionFailed (h : w.Sound) (hs : w.impl.stream.isSome = true)
    (prefixText error : String) :
    (w.connectionFailed prefixText error w.impl.generation).session g = (w.session g).close := by
  rw [connectionFailed_spec prefixText error (h.opened hs).wanted h.alive]
  exact ((h.log _).session_lose hs).trans (congrArg Session.close (session_log rfl))

theorem session_startOnStream (hs : w.impl.stream.isSome = true) (k : OpKind) :
    (w.startOnStream ⟨g, k⟩).session g = (w.session g).start k := by
  obtain ⟨s, hs⟩ := Option.isSome_iff_exists.mp hs
  simp only [startOnStream, hs]
  exact session_start k

theorem session_readOneLengthByte (hs : w.impl.stream.isSome = true)
    (hg : w.impl.generation = g) :
    (w.readOneLengthByte g).session g = (w.session g).start .readLength := by
  subst hg
  have hn : w.impl.stream.isNone = false := by simpa using hs
  simp only [readOneLengthByte, hn, ne_eq, not_true_eq_false, decide_false, Bool.or_self,
    Bool.false_eq_true, if_false]
  exact session_start _

theorem session_beginReadLength (hs : w.impl.stream.isSome = true) (hg : w.impl.generation = g) :
    (w.beginReadLength g).session g = (w.session g).readNext := by
  subst hg
  have hn : w.impl.stream.isNone = false := by simpa using hs
  simp only [beginReadLength, hn, ne_eq, not_true_eq_false, decide_false, Bool.or_self,
    Bool.false_eq_true, if_false]
  exact session_readOneLengthByte (w := { w with impl.readLength := 0, impl.readShift := 0 }) hs rfl

theorem session_receive (hs : w.impl.stream.isSome = true) (hg : w.impl.generation = g)
    (h : w.Sound) (hh : w.Handshaken) (m : Bytes) :
    ((w.handleMessage m).beginReadLength g).session g = ((w.session g).receive m).readNext := by
  have hstays := ((inners_handleMessage hs hh m).frame h).2.1
  refine (session_beginReadLength (hstays.stream ▸ hs) (hstays.generation.trans hg)).trans ?_
  exact congrArg Session.readNext (session_handleMessage (fun _ ↦ hg) m)

end Primitives

section Completions

variable {w : World} (h : w.Sound) (hs : w.impl.stream.isSome = true) (c : Completion)

include h hs

theorem session_onResolve (host service : String) :
    (w.onResolve w.impl.generation c).session w.impl.generation =
      (w.session w.impl.generation).completed (.resolve host service) c := by
  simp only [onResolve, ne_eq, not_true_eq_false, if_false]
  refine Eq.trans ?_ (if_pos hs).symm
  cases c.error with
  | some error => exact h.session_connectionFailed hs _ error
  | none => exact session_startOnStream hs _

theorem session_onConnect :
    (w.onConnect w.impl.generation c).session w.impl.generation =
      (w.session w.impl.generation).completed .connect c := by
  simp only [onConnect, ne_eq, not_true_eq_false, if_false]
  refine Eq.trans ?_ (if_pos hs).symm
  cases c.error with
  | some error => exact h.session_connectionFailed hs _ error
  | none => exact session_startOnStream hs _

theorem session_onHandshake :
    (w.onHandshake w.impl.generation c).session w.impl.generation =
      (w.session w.impl.generation).completed .handshake c := by
  simp only [onHandshake, ne_eq, not_true_eq_false, if_false]
  refine Eq.trans ?_ (if_pos hs).symm
  cases c.error with
  | some error => exact h.session_refuse error hs
  | none =>
    have hlog : (w.log .handshake).session w.impl.generation = w.session w.impl.generation :=
      session_log rfl
    exact (session_beginReadLength (w := { w.log .handshake with impl.reconnectDelay := 100 })
      hs rfl).trans (congrArg Session.readNext hlog)

theorem Sound.session_giveUp (error : String) :
    ((w.emitError error).handleConnectionLoss w.impl.generation).session w.impl.generation =
      (w.session w.impl.generation).close :=
  ((h.log _).session_lose hs).trans (congrArg Session.close (session_log rfl))

theorem session_onReadLength (hh : w.Handshaken)
    (hbyte : c.error = none → w.impl.lengthByte = c.bytes.headD 0) :
    (w.onReadLength w.impl.generation c).session w.impl.generation =
      (w.session w.impl.generation).completed .readLength c := by
  simp only [onReadLength, ne_eq, not_true_eq_false, if_false]
  refine Eq.trans ?_ (if_pos hs).symm
  cases he : c.error with
  | some error => exact h.session_connectionFailed hs _ error
  | none =>
    have htune : ∀ i : Impl, i.core = w.impl.core → { w with impl := i }.Sound :=
      fun i hi ↦ h.inner (.tune i hi)
    simp only [Session.succeed, ← hbyte he, Session.lengthByte]
    let n := w.impl.readLength |||
      ((w.impl.lengthByte &&& 0x7f).toUInt64 <<< UInt64.ofNat w.impl.readShift)
    let read := { w with impl.readLength := n }
    let more := { read with impl.readShift := w.impl.readShift + 7 }
    let body := { read with impl.readBody := List.replicate n.toNat 0 }
    refine session_ite Iff.rfl ?_ ?_
    · intro _
      refine session_ite Iff.rfl ?_ ?_
      · intro _
        exact Sound.session_giveUp (w := more) (htune _ rfl) hs _
      · intro _
        exact session_readOneLengthByte (w := more) hs rfl
    · intro _
      refine session_ite Iff.rfl ?_ ?_
      · intro _
        exact Sound.session_giveUp (w := read) (htune _ rfl) hs _
      · intro _
        have hempty : (List.replicate n.toNat (0 : UInt8)).isEmpty = true ↔ n.toNat = 0 := by simp
        refine session_ite hempty ?_ ?_
        · intro _
          exact session_receive (w := body) hs rfl (htune _ rfl) hh []
        · intro _
          refine (session_startOnStream (w := body) hs _).trans ?_
          simp only [List.length_replicate]
          rfl

theorem session_onReadBody (hh : w.Handshaken) (size : ℕ)
    (hbody : c.error = none → w.impl.readBody = c.bytes) :
    (w.onReadBody w.impl.generation c).session w.impl.generation =
      (w.session w.impl.generation).completed (.readBody size) c := by
  simp only [onReadBody, ne_eq, not_true_eq_false, if_false]
  refine Eq.trans ?_ (if_pos hs).symm
  cases he : c.error with
  | some error => exact h.session_connectionFailed hs _ error
  | none =>
    have hreset := ((inners_resetIdleTimer hs).frame h).1
    exact hbody he ▸ session_receive (w := w.resetIdleTimer) hs rfl hreset hh _

theorem session_onWrite (f : Bytes) :
    (w.onWrite w.impl.generation c).session w.impl.generation =
      (w.session w.impl.generation).completed (.write f) c := by
  simp only [onWrite, ne_eq, not_true_eq_false, if_false]
  refine Eq.trans ?_ (if_pos hs).symm
  cases c.error with
  | some error =>
    simp only [h.writeFailed hs error]
    exact h.session_connectionFailed hs _ error
  | none =>
    exact session_beginWrite (w := { w with impl.writeQueue := w.impl.writeQueue.tail }) hs rfl

theorem session_handler {k : OpKind} (hf : c.Fits k) (hh : k.isRead = true → w.Handshaken)
    (hbyte : k = .readLength → c.error = none → w.impl.lengthByte = c.bytes.headD 0)
    (hbody : ∀ n, k = .readBody n → c.error = none → w.impl.readBody = c.bytes) :
    (w.handler ⟨w.impl.generation, k⟩ c).session w.impl.generation =
      (w.session w.impl.generation).completed k c := by
  cases k with
  | resolve host service => exact session_onResolve h hs c host service
  | connect => exact session_onConnect h hs c
  | handshake => exact session_onHandshake h hs c
  | readLength => exact session_onReadLength h hs c (hh rfl) (hbyte rfl)
  | readBody n => exact session_onReadBody h hs c (hh rfl) n (hbody n rfl)
  | write f => exact session_onWrite h hs c f

end Completions

section Acts

variable {g : ℕ} {w : World}

theorem mem_kinds {k : OpKind} : k ∈ w.kinds g ↔ (⟨g, k⟩ : Op) ∈ w.ops := by
  constructor
  · intro hk
    obtain ⟨op, hop, heq⟩ := List.mem_filterMap.mp hk
    obtain ⟨g', k'⟩ := op
    obtain ⟨hgen, hkind⟩ := (Option.ite_none_right_eq_some ..).mp heq
    obtain rfl : g' = g := hgen
    obtain rfl : k' = k := Option.some.inj hkind
    exact hop
  · intro hop
    exact List.mem_filterMap.mpr ⟨_, hop, if_pos rfl⟩

theorem kinds_erase (k : OpKind) :
    { w with ops := w.ops.erase ⟨g, k⟩ }.kinds g = (w.kinds g).erase k := by
  unfold kinds
  induction w.ops with
  | nil => rfl
  | cons op ops ih =>
    by_cases heq : op = ⟨g, k⟩
    · subst heq
      simp
    · rw [List.erase_cons_tail (by simpa using heq)]
      by_cases hgen : op.generation = g
      · have hk : op.kind ≠ k := by
          rintro rfl
          exact heq (by rw [← hgen])
        simp only [List.filterMap_cons, hgen, if_true, ih]
        rw [List.erase_cons_tail (by simpa using hk)]
      · simp only [List.filterMap_cons, hgen, if_false, ih]

theorem kinds_erase_of_ne {op : Op} (hg : op.generation ≠ g) :
    { w with ops := w.ops.erase op }.kinds g = w.kinds g := by
  unfold kinds
  induction w.ops with
  | nil => rfl
  | cons op' ops ih =>
    by_cases heq : op' = op
    · subst heq
      simp [hg]
    · rw [List.erase_cons_tail (by simpa using heq)]
      simp only [List.filterMap_cons, ih]

theorem session_consume (k : OpKind) :
    { w with ops := w.ops.erase ⟨g, k⟩ }.session g =
      { w.session g with ops := (w.session g).ops.erase k } := by
  simp only [session, kinds_erase]
  rfl

theorem session_fill (op : Op) (c : Completion) : (w.fill op c).session g = w.session g := by
  obtain ⟨byte, body, hf⟩ := fill_eq op c w
  rw [hf]
  rfl

theorem OnConnection.session_complete (h : OnConnection g w) {k : OpKind} {c : Completion}
    (hop : (⟨g, k⟩ : Op) ∈ w.ops) (hf : c.Fits k) :
    (w.complete ⟨g, k⟩ c).session g =
      { w.session g with ops := (w.session g).ops.erase k }.completed k c := by
  have hv : ({ w with ops := w.ops.erase ⟨g, k⟩ }.fill ⟨g, k⟩ c).session g =
      { w.session g with ops := (w.session g).ops.erase k } :=
    (session_fill _ c).trans (session_consume k)
  cases hs : w.impl.stream with
  | none =>
    rw [complete_stale (h.lt_of_gone hs).ne c, hv]
    exact (if_neg (by simp [session, hs])).symm
  | some stream =>
    have hs : w.impl.stream.isSome = true := by simp [hs]
    obtain rfl := h.current_of_live hs
    obtain ⟨k', hb, hread⟩ := h.ledger hs
    have hh : k.isRead = true → w.Handshaken := by
      intro hk
      have hmem : (⟨w.impl.generation, k⟩ : Op) ∈ w.current := by
        simp [current, hop, OpKind.isWrite_of_isRead hk]
      obtain rfl : k = k' := by simpa [hb.current] using hmem
      exact hread hk
    have hbyte : k = .readLength → c.error = none →
        ({ w with ops := w.ops.erase ⟨w.impl.generation, k⟩ }.fill ⟨w.impl.generation, k⟩
          c).impl.lengthByte = c.bytes.headD 0 := by
      rintro rfl he
      exact fill_readLength hf he _
    have hbody : ∀ n, k = .readBody n → c.error = none →
        ({ w with ops := w.ops.erase ⟨w.impl.generation, k⟩ }.fill ⟨w.impl.generation, k⟩
          c).impl.readBody = c.bytes := by
      rintro n rfl he
      exact fill_readBody hf he _
    obtain ⟨byte, body, hfill⟩ := fill_eq ⟨w.impl.generation, k⟩ c
      { w with ops := w.ops.erase ⟨w.impl.generation, k⟩ }
    rw [hfill] at hv hbyte hbody
    have hsound := (h.toSound.consume ⟨w.impl.generation, k⟩).inner
      (.tune { w.impl with lengthByte := byte, readBody := body } rfl)
    rw [complete, hfill]
    exact (session_handler hsound hs c hf hh hbyte hbody).trans (congrArg (·.completed k c) hv)

theorem session_foldl (hg : w.impl.stream.isSome = true → w.impl.generation = g)
    (ms : List Bytes) : (ms.foldl (fun w m ↦ w.queueMessage m) w).session g =
      ms.foldl (fun s m ↦ s.send m) (w.session g) := by
  induction ms generalizing w with
  | nil => rfl
  | cons m ms ih =>
    obtain ⟨hstream, hgen⟩ := queueMessage_keeps w m
    rw [List.foldl_cons, List.foldl_cons, ← session_queueMessage hg]
    apply ih
    intro hs
    rw [hgen]
    exact hg (hstream ▸ hs)

theorem session_startVoice (hg : w.impl.stream.isSome = true → w.impl.generation = g) :
    w.startVoice.session g = (w.session g).startVoice := by
  refine session_ite Iff.rfl (fun _ ↦ session_log rfl) ?_
  intro _
  refine session_ite Iff.rfl (fun _ ↦ session_log rfl) ?_
  intro _
  by_cases hc : w.impl.state = .connected
  · refine (congrArg _ (if_neg (not_not.mpr hc))).trans
      (Eq.trans ?_ (if_pos (by simpa [session])).symm)
    exact session_queueMessage (w := { w with impl.voiceStarting := true }) hg _
  · refine (congrArg _ (if_pos hc)).trans (Eq.trans ?_ (if_neg (by simpa [session])).symm)
    exact session_log rfl

theorem session_sendVoiceData (hg : w.impl.stream.isSome = true → w.impl.generation = g)
    (pcm : Bytes) : (w.sendVoiceData pcm).session g = (w.session g).sendVoiceData pcm := by
  cases hv : w.impl.voiceSessionId with
  | none =>
    rw [Session.sendVoiceData_none (s := w.session g) hv, sendVoiceData, hv]
  | some s =>
    rw [Session.sendVoiceData_some (s := w.session g) hv, sendVoiceData, hv]
    simp only [sendVoiceChunks_eq]
    exact session_foldl hg _

theorem session_stopVoice (hg : w.impl.stream.isSome = true → w.impl.generation = g) :
    w.stopVoice.session g = (w.session g).stopVoice := by
  cases hv : w.impl.voiceSessionId with
  | none =>
    rw [Session.stopVoice_none (s := w.session g) hv, stopVoice_none hv]
    rfl
  | some s =>
    have hq := session_queueMessage (w := { w with
      voiceTimer := w.voiceTimer.cancel
      impl.voiceStarting := false }) hg (remoteVoiceEnd s)
    rw [Session.stopVoice_some (s := w.session g) hv, stopVoice_some hv]
    exact (session_log rfl).trans (congrArg (fun s ↦ { s with voiceSessionId := none }) hq)

theorem Tracks.stays {w' : World} (h : Tracks g w) (hs : Stays w w') : Tracks g w' := by
  constructor
  · intro hlive
    exact hs.generation.trans (h.current_of_live (hs.stream ▸ hlive))
  · intro hgone
    exact hs.generation ▸ h.lt_of_gone (hs.stream ▸ hgone)

theorem Tracks.close {w' : World} (h : Tracks g w) (hs : w'.impl.stream = none)
    (hg : w'.impl.generation = w.impl.generation + 1) : Tracks g w' := by
  refine ⟨fun hlive ↦ by simp [hs] at hlive, ?_⟩
  intro _
  rw [hg]
  cases hst : w.impl.stream with
  | none => exact (h.lt_of_gone hst).trans (Nat.lt_succ_self _)
  | some stream => exact Nat.lt_succ_of_le (h.current_of_live (by simp [hst])).ge

theorem Tracks.move {w' : World} (hw : w.Sound) (h : Tracks g w) (hm : Move w w') :
    Tracks g w' := by
  obtain hs | he := hm.stays_or_ends hw
  · exact h.stays hs
  · obtain ⟨state, delay, t, l, -, -⟩ := he
    exact h.close rfl rfl

theorem Tracks.does {w' : World} {e : Event} (hw : w.Sound) (h : Tracks g w)
    (ha : e.attempt w = none) (hd : Does w e w') : Tracks g w' := by
  cases hd with
  | moves hm => exact hm.invariant (fun _ _ hv hp hm ↦ hp.move hv hm) hw h
  | send _ hs => exact h.stays (stays_queueMessage hw hs _)
  | attempt ha' => simp [ha] at ha'
  | disconnect | disconnectAndWait => exact h.close rfl rfl

theorem OnConnection.next {w' : World} {e : Event} (h : OnConnection g w)
    (ha : e.attempt w = none) (he : w.step e = some w') : OnConnection g w' :=
  ⟨h.toInv.next he, h.toTracks.does h.toSound ha (h.toInv.step he).1⟩

theorem session_disconnect : w.disconnect.session g = (w.session g).close := by
  have hp : w.disconnect.pushed g = w.pushed g :=
    (Silent.frames ⟨_, List.append_assoc _ _ _, by
      simp [Record.isTraffic, Record.pushedFrame, Record.writtenFrame]⟩ g).1
  exact session_eq hp rfl

theorem session_disconnectAndWait : w.disconnectAndWait.session g = (w.session g).close :=
  (session_log rfl).trans rfl

end Acts

section Steps

variable {g : ℕ} {w : World} (h : OnConnection g w)

include h

theorem OnConnection.session_stale {op : Op} (hop : op ∈ w.ops) (hg : op.generation ≠ g)
    (c : Completion) : (w.complete op c).session g = w.session g := by
  have hgen : op.generation ≠ w.impl.generation := by
    cases hs : w.impl.stream with
    | none => exact ((h.closed hs).ops_lt op hop).ne
    | some stream => rwa [h.current_of_live (by simp [hs])]
  rw [complete_stale hgen, session_fill]
  simp only [session, kinds_erase_of_ne hg]
  rfl

theorem OnConnection.session_idleTimeout {q : Wait ℕ × Code}
    (hc : q.2 = .success ∧ q.1.captured = g) :
    ({ w with idleTimer := w.idleTimer.dequeue q }.onIdleWait q.1.captured q.2).session g =
      if (w.session g).live then (w.session g).close else w.session g := by
  cases hs : w.impl.stream with
  | none =>
    have hdead : (w.session g).live = false := by simp [session, hs]
    have hgen : q.1.captured ≠ w.impl.generation := hc.2 ▸ (h.lt_of_gone hs).ne
    rw [onIdleWait, if_neg (by simp [hgen]), hdead]
    rfl
  | some stream =>
    have hlive : w.impl.stream.isSome = true := by simp [hs]
    have hgen := h.current_of_live hlive
    have hsound : { w with idleTimer := w.idleTimer.dequeue q }.Sound :=
      h.toSound.inner (.timers _ w.voiceTimer fun _ hP _ ↦ hP.dequeue q)
    rw [onIdleWait, if_pos ⟨hc.1, (h.opened hlive).wanted, hc.2.trans hgen.symm⟩, hc.2]
    subst hgen
    exact (Sound.session_giveUp hsound hlive _).trans (if_pos hlive).symm

theorem OnConnection.session_idleSkip {q : Wait ℕ × Code} (hq : q ∈ w.idleTimer.queued)
    (hc : ¬ (q.2 = .success ∧ q.1.captured = g)) :
    ({ w with idleTimer := w.idleTimer.dequeue q }.onIdleWait q.1.captured q.2).session g =
      w.session g := by
  have hskip : ¬ (q.2 = .success ∧ w.impl.userDisconnect = false ∧
      q.1.captured = w.impl.generation) := by
    intro h'
    obtain ⟨hcode, -, hgen⟩ := h'
    cases hs : w.impl.stream with
    | none => exact ((h.closed hs).idle_lt.2 q hq).ne hgen
    | some stream => exact hc ⟨hcode, hgen.trans (h.current_of_live (by simp [hs]))⟩
  rw [onIdleWait, if_neg hskip]
  rfl

omit h in
theorem session_voiceWait (q : Wait Unit × Code) :
    ({ w with voiceTimer := w.voiceTimer.dequeue q }.onVoiceWait q.2).session g =
      if q.2 = .success then { w.session g with voiceStarting := false } else w.session g := by
  by_cases hv : q.2 = .success ∧ w.impl.voiceStarting = true
  · rw [onVoiceWait, if_pos hv, if_pos hv.1]
    exact session_log rfl
  · rw [onVoiceWait, if_neg hv]
    split_ifs with hc
    · have hvs : w.impl.voiceStarting = false := by simpa [hc] using hv
      simp only [session, hvs]
      rfl
    · rfl

/-- Every step that opens no connection shows in the session as the act its
event is. -/
theorem OnConnection.session_step {w' : World} {e : Event} (ha : e.attempt w = none)
    (he : w.step e = some w') :
    Run Session.step (w.session g) (e.act g).toList (w'.session g) := by
  have hg := h.current_of_live
  cases happens_of_step he with
  | connect a => cases ha
  | disconnect => exact .one (congrArg some session_disconnect.symm)
  | disconnectAndWait => exact .one (congrArg some session_disconnectAndWait.symm)
  | sendKey | launchApp => exact .one (congrArg some (session_queueMessage hg _).symm)
  | sendText text ht =>
    exact .one ((if_neg ht).trans (congrArg some (session_queueMessage hg _).symm))
  | startVoice => exact .one (congrArg some (session_startVoice hg).symm)
  | sendVoiceData pcm => exact .one (congrArg some (session_sendVoiceData hg pcm).symm)
  | stopVoice => exact .one (congrArg some (session_stopVoice hg).symm)
  | complete op c hop hf =>
    by_cases hgen : op.generation = g
    · subst hgen
      rw [Event.act, if_pos rfl]
      have hmem : op.kind ∈ (w.session op.generation).ops := mem_kinds.mpr hop
      refine .one ((if_pos ⟨hmem, hf⟩).trans (congrArg some ?_))
      exact (h.session_complete hop hf).symm
    · rw [Event.act, if_neg hgen, h.session_stale hop hgen]
      exact .nil _
  | reconnectExpires | idleExpires | voiceExpires => exact .nil _
  | reconnectWait q a =>
    have hskip : ¬ (q.2 = .success ∧ w.impl.userDisconnect = false) := by
      intro hc
      cases (if_pos hc).symm.trans ha
    rw [onReconnectWait, if_neg hskip]
    exact .nil _
  | idleWait q hq =>
    by_cases hc : q.2 = .success ∧ q.1.captured = g
    · rw [Event.act, if_pos hc, h.session_idleTimeout hc]
      exact .one rfl
    · rw [Event.act, if_neg hc, h.session_idleSkip hq hc]
      exact .nil _
  | voiceWait q =>
    rw [Event.act, session_voiceWait]
    by_cases hc : q.2 = .success
    · rw [if_pos hc, if_pos hc]
      exact .one rfl
    · rw [if_neg hc, if_neg hc]
      exact .nil _

end Steps

theorem OnConnection.simulated (g : ℕ) (w : World) (e : Event) (w' : World)
    (h : OnConnection g w) (ha : e.attempt w = none) (he : w.step e = some w') :
    OnConnection g w' ∧ Run Session.step (w.session g) (e.act g).toList (w'.session g) :=
  ⟨h.next ha he, h.session_step ha he⟩

/-- What the session of a connection allows, apart from the timers, can
happen. -/
theorem act_possible {g : ℕ} {w : World} {a : Act} {s : Session} (ha : a.isTimeout = false)
    (hs : (w.session g).step a = some s) :
    ∃ e w', e.act g = some a ∧ e.attempt w = none ∧ w.step e = some w' := by
  cases a with
  | complete kind c =>
    obtain ⟨⟨hop, hf⟩, -⟩ := (Option.ite_none_right_eq_some ..).mp hs
    exact ⟨.complete ⟨g, kind⟩ c, _, if_pos rfl, rfl, if_pos ⟨mem_kinds.mp hop, hf⟩⟩
  | sendText text =>
    obtain ⟨ht, -⟩ := (Option.ite_none_left_eq_some ..).mp hs
    exact ⟨.sendText text, _, rfl, rfl, if_neg ht⟩
  | sendKey key direction => exact ⟨.sendKey key direction, _, rfl, rfl, rfl⟩
  | launchApp appLink => exact ⟨.launchApp appLink, _, rfl, rfl, rfl⟩
  | startVoice => exact ⟨.startVoice, _, rfl, rfl, rfl⟩
  | sendVoiceData pcm => exact ⟨.sendVoiceData pcm, _, rfl, rfl, rfl⟩
  | stopVoice => exact ⟨.stopVoice, _, rfl, rfl, rfl⟩
  | disconnect => exact ⟨.disconnect, _, rfl, rfl, rfl⟩
  | idleTimeout | voiceTimeout => cases ha

end World

end AndroidTvRemote
