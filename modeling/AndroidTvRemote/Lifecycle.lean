import AndroidTvRemote.Mirror

namespace AndroidTvRemote

open Wire Protocol SteadyTimer Runs

/-- How far a connection has come. -/
inductive Stage
  | resting
  | waiting
  | resolving
  | joining
  | greeting
  | listening
  | online
  deriving DecidableEq, Repr

namespace Stage

inductive Move
  | opened
  | failed
  | advanced
  | started
  | lost (again : Bool)
  | refused
  | dropped
  deriving DecidableEq, Repr

/-- A connection is set up operation by operation; it can be lost as long as
there is one, and refused in its handshake only. -/
def step : Stage → Move → Option Stage
  | _, .opened => some resolving
  | _, .failed | _, .dropped => some resting
  | resolving, .advanced => some joining
  | joining, .advanced => some greeting
  | greeting, .advanced => some listening
  | listening, .started | online, .started => some online
  | greeting, .refused => some resting
  | resting, .lost _ | waiting, .lost _ => none
  | _, .lost again => some (if again then waiting else resting)
  | _, _ => none

def Made (ms : List Move) : Stage → Prop
  | resting | waiting => True
  | resolving => ∃ pre, ms = pre ++ [.opened]
  | joining => ∃ pre, ms = pre ++ [.opened, .advanced]
  | greeting => ∃ pre, ms = pre ++ [.opened, .advanced, .advanced]
  | listening => ∃ pre, ms = pre ++ [.opened, .advanced, .advanced, .advanced]
  | online => ∃ pre n, ms = pre ++ [.opened, .advanced, .advanced, .advanced] ++
      List.replicate (n + 1) .started

theorem made_step {ms : List Move} {s s' : Stage} {m : Move} (h : Made ms s)
    (hs : s.step m = some s') : Made (ms ++ [m]) s' := by
  cases m with
  | opened =>
    obtain rfl : resolving = s' := by cases s <;> exact Option.some.inj hs
    exact ⟨ms, rfl⟩
  | failed | dropped =>
    obtain rfl : resting = s' := by cases s <;> exact Option.some.inj hs
    trivial
  | advanced =>
    cases s with
    | resolving | joining | greeting =>
      obtain rfl := Option.some.inj hs
      obtain ⟨pre, rfl⟩ := h
      exact ⟨pre, List.append_assoc _ _ _⟩
    | _ => cases hs
  | started =>
    cases s with
    | listening =>
      obtain rfl := Option.some.inj hs
      obtain ⟨pre, rfl⟩ := h
      exact ⟨pre, 0, rfl⟩
    | online =>
      obtain rfl := Option.some.inj hs
      obtain ⟨pre, n, rfl⟩ := h
      exact ⟨pre, n + 1, by rw [List.append_assoc, ← List.replicate_succ']⟩
    | _ => cases hs
  | lost again =>
    cases s with
    | resting | waiting => cases hs
    | _ =>
      obtain rfl := Option.some.inj hs
      cases again <;> exact True.intro
  | refused =>
    cases s with
    | greeting =>
      obtain rfl := Option.some.inj hs
      trivial
    | _ => cases hs

theorem made_of_run {ms : List Move} {s : Stage} (h : Run step resting ms s) : Made ms s :=
  h.history (H := Made) trivial fun _ _ _ _ _ hm hs ↦ made_step hm hs

theorem online_of_run {pre : List Move} {n : ℕ} {s : Stage} (h : Run step resting
    (pre ++ [.opened, .advanced, .advanced, .advanced] ++ List.replicate (n + 1) .started) s) :
    s = online := by
  obtain ⟨t, hadvanced, hstarted⟩ := h.split
  obtain ⟨t', -, hopened⟩ := hadvanced.split
  obtain rfl : listening = t := by
    have hlistening : Run step t' [.opened, .advanced, .advanced, .advanced] listening := by
      have hresolving : step t' .opened = some resolving := by cases t' <;> rfl
      exact .cons hresolving (.cons (t := joining) rfl (.cons (t := greeting) rfl (.one rfl)))
    exact hlistening.unique hopened
  have honline : ∀ n, Run step online (List.replicate n .started) online := by
    intro n
    induction n with
    | zero => exact .nil _
    | succ n ih => exact .cons rfl ih
  exact hstarted.unique (.cons rfl (honline n))

def ofKind (state : ConnectionState) : OpKind → Stage
  | .resolve _ _ => resolving
  | .connect => joining
  | .handshake => greeting
  | .readLength | .readBody _ | .write _ => if state = .connected then online else listening

theorem ofKind_read {kind : OpKind} (hk : kind.isRead = true) (state : ConnectionState) :
    ofKind state kind = if state = .connected then online else listening := by
  cases kind <;> first | rfl | cases hk

theorem step_lost (state : ConnectionState) (kind : OpKind) (again : Bool) :
    (ofKind state kind).step (.lost again) = some (if again then waiting else resting) := by
  cases kind with
  | resolve | connect | handshake => rfl
  | readLength | readBody | write => cases state <;> rfl

end Stage

namespace World

def stage (w : World) : Stage :=
  match w.impl.stream, w.current.head? with
  | some _, some op => Stage.ofKind w.impl.state op.kind
  | some _, none | none, _ => if w.impl.state = .reconnecting then .waiting else .resting

def lossMove (w : World) : Stage.Move := .lost w.impl.options.autoReconnect

def openMove (w : World) (a : IdentityAttempt) : Stage.Move :=
  match (w.closeStream.ensureSslContext a).2 with
  | .ok () => .opened
  | .error _ => .failed

/-- What the completion of an operation of the current connection is. -/
def completeMove (w : World) (c : Completion) (kind : OpKind) : Option Stage.Move :=
  match c.error with
  | some _ => some (if kind = .handshake then .refused else w.lossMove)
  | none =>
    match kind with
    | .resolve _ _ | .connect | .handshake => some .advanced
    | .readLength => if w.impl.refuses (c.bytes.headD 0) then some w.lossMove else none
    | .readBody _ => if (parseRemote c.bytes).kind = .start then some .started else none
    | .write _ => none

def move (w : World) : Event → Option Stage.Move
  | .connect a => some (w.openMove a)
  | .disconnect | .disconnectAndWait => some .dropped
  | .complete op c => if op.generation = w.impl.generation then w.completeMove c op.kind else none
  | .reconnectWait q a =>
    if q.2 = .success ∧ w.impl.userDisconnect = false then some (w.openMove a) else none
  | .idleWait q =>
    if q.2 = .success ∧ w.impl.userDisconnect = false ∧ q.1.captured = w.impl.generation then
      some w.lossMove
    else none
  | _ => none

/-- A world is in the stage that a move led to, and as far as its state says. -/
structure Shown (s : Stage) (m : Option Stage.Move) (w : World) : Prop where
  run : Run Stage.step s m.toList w.stage
  online : w.impl.state = .connected → w.stage = .online

abbrev Shows (w : World) (e : Event) (w' : World) : Prop := Shown w.stage (w.move e) w'

/-- The invariant, and that a connected object is online. -/
structure Staged (w : World) : Prop extends Inv w where
  online : w.impl.state = .connected → w.stage = .online

section Stages

variable {w w' : World}

theorem shown_move {s t : Stage} {m : Stage.Move} (hs : s.step m = some t)
    (hw : w.stage = t) (hc : w.impl.state = .connected → t = .online) : Shown s (some m) w := by
  subst hw
  exact ⟨.one hs, hc⟩

theorem stage_live {k : OpKind} (hs : w.impl.stream.isSome = true) (hb : w.Booked [k]) :
    w.stage = Stage.ofKind w.impl.state k := by
  obtain ⟨s, hs⟩ := Option.isSome_iff_exists.mp hs
  simp [stage, hs, hb.current]

theorem stage_closed (hs : w.impl.stream = none) :
    w.stage = if w.impl.state = .reconnecting then .waiting else .resting := by
  simp [stage, hs]

structure Keeps (w w' : World) : Prop where
  stream : w'.impl.stream = w.impl.stream
  state : w'.impl.state = w.impl.state
  booked : ∀ l, w.Booked l → w'.Booked l

theorem Inv.stage_keeps (h : w.Inv) (hk : Keeps w w') : w'.stage = w.stage := by
  cases hs : w.impl.stream with
  | none => rw [stage_closed hs, stage_closed (hk.stream.trans hs), hk.state]
  | some s =>
    have hlive : w.impl.stream.isSome = true := by simp [hs]
    obtain ⟨k, hb, -⟩ := h.ledger hlive
    rw [stage_live hlive hb, stage_live (hk.stream ▸ hlive) (hk.booked _ hb), hk.state]

theorem Staged.keeps (h : w.Staged) {e : Event} (he : w.move e = none) (hk : Keeps w w') :
    Shows w e w' := by
  have hstage := h.stage_keeps hk
  rw [Shows, he]
  refine ⟨?_, ?_⟩
  · rw [hstage]
    exact .nil _
  · rw [hstage, hk.state]
    exact h.online

theorem Staged.inners (h : w.Staged) {e : Event} (he : w.move e = none) (hm : Inners w w')
    (hst : w'.impl.state = w.impl.state) : Shows w e w' := by
  obtain ⟨-, hs, hb⟩ := hm.frame h.toSound
  exact h.keeps he ⟨hs.stream, hst, hb⟩

theorem Staged.send (h : w.Staged) {e : Event} (m : Bytes) (he : w.move e = none) :
    Shows w e (w.queueMessage m) := by
  cases hs : w.impl.stream with
  | none =>
    rw [queueMessage_none w m hs]
    exact h.keeps he ⟨rfl, rfl, fun _ hb ↦ hb⟩
  | some s =>
    have hlive : w.impl.stream.isSome = true := by simp [hs]
    refine h.keeps he ⟨(queueMessage_keeps w m).1, ?_, ?_⟩
    · rw [queueMessage_spec m hlive (h.opened hlive).busy]
    · exact fun l hb ↦ hb.queueMessage (h.opened hlive) hlive m

theorem ensureSslContext_result {v : World} (hssl : v.impl.sslContext = w.impl.sslContext)
    (ho : v.impl.options = w.impl.options) (a : IdentityAttempt) :
    (v.ensureSslContext a).2 = (w.ensureSslContext a).2 := by
  simp only [ensureSslContext, hssl, ho]
  split
  · rfl
  · rfl
  · split <;> rfl

/-- Every beginning leads to one of the same two stages. -/
theorem Bounded.shown_beginConnect (h : w.Bounded) (hu : w.impl.userDisconnect = false)
    (reconnecting : Bool) (a : IdentityAttempt) (s : Stage) :
    Shown s (some (w.openMove a)) (w.beginConnect reconnecting a) := by
  obtain ⟨n, context, l, hv, -, hok⟩ := ensureSslContext_spec a w.closeStream
  cases he : w.closeStream.ensureSslContext a with
  | mk v result =>
    obtain rfl : v = _ := (congrArg Prod.fst he).symm.trans hv
    cases result with
    | error error =>
      rw [openMove, he, beginConnect_error reconnecting h.alive hu he]
      exact shown_move (t := .resting) (by cases s <;> rfl) rfl (fun hc ↦ by cases hc)
    | ok =>
      obtain ⟨k, rfl⟩ := Option.isSome_iff_exists.mp (hok (congrArg Prod.snd he))
      have hb : (w.beginConnect reconnecting a).Booked
          [.resolve w.impl.options.host (toString w.impl.options.apiPort)] := by
        rw [beginConnect_ok reconnecting h.alive hu he rfl]
        have hb := booked_nil (w := { w.closeStream with trace := [] })
          (fun op hop ↦ Nat.lt_succ_of_le (h.ops_le op hop)) rfl
        exact (hb.start rfl).of_eq rfl rfl rfl
      rw [openMove, he]
      rw [beginConnect_ok reconnecting h.alive hu he rfl] at hb ⊢
      refine shown_move (t := .resolving) (by cases s <;> rfl) (stage_live rfl hb) ?_
      intro hc
      cases reconnecting <;> cases hc

theorem Staged.attempt (h : w.Staged) {e : Event} {a : IdentityAttempt}
    (he : w.step e = some w') (ha : e.attempt w = some a) (hm : w.move e = some (w.openMove a)) :
    Shows w e w' := by
  obtain ⟨reconnecting, delay, t, rfl⟩ := step_attempt ha he
  have hopen : w.openMove a = (w.wanting delay t).openMove a := by
    rw [openMove, openMove, ensureSslContext_result (v := (w.wanting delay t).closeStream)
      (w := w.closeStream) rfl rfl]
  rw [Shows, hm, hopen]
  exact (h.toBounded.wanting delay t).shown_beginConnect rfl reconnecting a _

variable {v : World} {s : Stage} (hu : v.impl.userDisconnect = false)
  (ha : v.impl.shuttingDown = false)

include hu ha

theorem shown_lose {again : Bool} (hagain : v.impl.options.autoReconnect = again)
    (hs : s.step (.lost again) = some (if again then .waiting else .resting)) :
    Shown s (some (.lost again)) (v.handleConnectionLoss v.impl.generation) := by
  rw [handleConnectionLoss_spec hu ha, hagain]
  cases again with
  | true => exact shown_move hs rfl (fun hc ↦ by cases hc)
  | false => exact shown_move hs rfl (fun hc ↦ by cases hc)

theorem shown_refuse (error : String) (hs : s.step .refused = some .resting) :
    Shown s (some .refused) (v.authenticationFailed error v.impl.generation) := by
  rw [authenticationFailed_spec error hu ha]
  exact shown_move hs rfl (fun hc ↦ by cases hc)

theorem shown_giveUp {again : Bool} (hagain : v.impl.options.autoReconnect = again)
    (hs : s.step (.lost again) = some (if again then .waiting else .resting)) (error : String)
    {g : ℕ} (hg : g = v.impl.generation) :
    Shown s (some (.lost again)) ((v.emitError error).handleConnectionLoss g) := by
  subst hg
  exact shown_lose (v := v.emitError error) hu ha hagain hs

theorem shown_connectionFailed {again : Bool} (hagain : v.impl.options.autoReconnect = again)
    (hs : s.step (.lost again) = some (if again then .waiting else .resting))
    (prefixText error : String) : Shown s (some (.lost again))
      (v.connectionFailed prefixText error v.impl.generation) := by
  rw [connectionFailed_spec prefixText error hu ha]
  exact shown_giveUp hu ha hagain hs _ rfl

end Stages

theorem state_handleMessage (w : World) (m : Bytes) : (w.handleMessage m).impl.state =
    if (parseRemote m).kind = .start then .connected else w.impl.state := by
  have hm := mirror_handleMessage (w := w) m
  rw [Mirror.hear_eq] at hm
  exact congrArg Mirror.state hm

section Completions

variable {v : World} (h : v.Due) {c : Completion}

include h

theorem Due.wanted : v.impl.userDisconnect = false := (h.opened h.live).wanted

theorem Due.lost {k : OpKind} {error : String} (he : c.error = some error) (prefixText : String)
    (hk : k ≠ .handshake) : Shown (Stage.ofKind v.impl.state k) (v.completeMove c k)
      (v.connectionFailed prefixText error v.impl.generation) := by
  simp only [completeMove, he, if_neg hk]
  exact shown_connectionFailed h.wanted h.alive rfl (Stage.step_lost _ k _) prefixText error

theorem Due.startOnStream_eq (op : Op) : v.startOnStream op = v.start op := by
  obtain ⟨s, hs⟩ := Option.isSome_iff_exists.mp h.live
  simp only [World.startOnStream, hs]

theorem Due.started {s : Stage} {m : Option Stage.Move} {k : OpKind} (hk : k.isWrite = false)
    (hrun : Run Stage.step s m.toList (Stage.ofKind v.impl.state k))
    (hc : v.impl.state = .connected → k.isRead = true) :
    Shown s m (v.start ⟨v.impl.generation, k⟩) := by
  have hstage : (v.start ⟨v.impl.generation, k⟩).stage = Stage.ofKind v.impl.state k :=
    stage_live h.live (h.booked.start hk)
  refine ⟨hstage ▸ hrun, ?_⟩
  intro hconn
  rw [hstage, Stage.ofKind_read (hc hconn)]
  exact if_pos hconn

theorem Due.listened {s : Stage} {m : Option Stage.Move} {g : ℕ} (hg : g = v.impl.generation)
    (hrun : Run Stage.step s m.toList (Stage.ofKind v.impl.state .readLength)) :
    Shown s m (v.beginReadLength g) := by
  subst hg
  have hn : v.impl.stream.isNone = false := by simpa using h.live
  have hd : Due { v with impl.readLength := 0, impl.readShift := 0 } := h.tune rfl
  simp only [World.beginReadLength, World.readOneLengthByte, hn, ne_eq, not_true_eq_false,
    decide_false, Bool.or_self, Bool.false_eq_true, if_false]
  exact hd.started rfl hrun fun _ ↦ rfl

theorem Due.handled (hh : v.Handshaken) {k : OpKind} (hk : k.isRead = true) (message : Bytes)
    {m : Option Stage.Move}
    (hm : m = if (parseRemote message).kind = .start then some .started else none) :
    Shown (Stage.ofKind v.impl.state k) m
      ((v.handleMessage message).beginReadLength v.impl.generation) := by
  have hi := inners_handleMessage h.live hh message
  refine (h.inners hi).listened (hi.frame h.toSound).2.1.generation.symm ?_
  rw [state_handleMessage, hm, Stage.ofKind_read hk]
  by_cases hstart : (parseRemote message).kind = .start
  · rw [if_pos hstart, if_pos hstart]
    refine .one ?_
    cases v.impl.state <;> rfl
  · rw [if_neg hstart, if_neg hstart]
    exact .nil _

theorem Due.reads (i : Impl) (hi : i.core = v.impl.core) {k k' : OpKind} (hk : k.isRead = true)
    (hk' : k'.isRead = true) : Shown (Stage.ofKind v.impl.state k) none
      ({ v with impl := i }.start ⟨v.impl.generation, k'⟩) := by
  have hgen : i.generation = v.impl.generation := congrArg Core.generation hi
  have hstate : i.state = v.impl.state := congrArg Core.state hi
  have hd : Due { v with impl := i } := h.tune hi
  rw [← hgen]
  refine hd.started (by cases k' <;> first | rfl | cases hk') ?_ fun _ ↦ hk'
  rw [Stage.ofKind_read hk, Stage.ofKind_read hk', hstate]
  exact .nil _

theorem Due.shown_onReadLength (hh : v.Handshaken) (hbyte : c.error = none →
    v.impl.lengthByte = c.bytes.headD 0) : Shown (Stage.ofKind v.impl.state .readLength)
      (v.completeMove c .readLength) (v.onReadLength v.impl.generation c) := by
  simp only [World.onReadLength, ne_eq, not_true_eq_false, if_false]
  cases he : c.error with
  | some error => exact h.lost he _ (by simp)
  | none =>
    have hn : v.impl.stream.isNone = false := by simpa using h.live
    have hloss := Stage.step_lost v.impl.state .readLength v.impl.options.autoReconnect
    simp only [completeMove, he, ← hbyte he, Impl.refuses]
    by_cases hb : (v.impl.lengthByte &&& 0x80 : UInt8) = 0
    · simp only [hb, not_true_eq_false, if_false, ne_eq, decide_eq_true_eq]
      split
      · exact shown_giveUp (by exact h.wanted) (by exact h.alive) (by rfl) hloss _ (by rfl)
      · split
        next =>
          have hd := Due.tune h (i := { v.impl with
            readLength := v.impl.readLength |||
              ((v.impl.lengthByte &&& 0x7f).toUInt64 <<< UInt64.ofNat v.impl.readShift)
            readBody := List.replicate (v.impl.readLength ||| ((v.impl.lengthByte &&&
              0x7f).toUInt64 <<< UInt64.ofNat v.impl.readShift)).toNat 0 }) rfl
          exact hd.handled (k := .readLength) hh rfl [] (by decide +kernel)
        next =>
          rw [Due.startOnStream_eq (h.tune (by rfl))]
          refine h.reads (k := .readLength) _ ?_ rfl rfl
          rfl
    · simp only [hb, not_false_eq_true, if_true, ne_eq, decide_eq_true_eq]
      split
      · exact shown_giveUp (by exact h.wanted) (by exact h.alive) (by rfl) hloss _ (by rfl)
      · simp only [World.readOneLengthByte, hn, ne_eq, not_true_eq_false, decide_false,
          Bool.or_self, Bool.false_eq_true, if_false]
        refine h.reads (k := .readLength) _ ?_ rfl rfl
        rfl

theorem Due.shown_handler {k : OpKind} (hk : k.isWrite = false)
    (hh : k.isRead = true → v.Handshaken) (hc : v.impl.state = .connected → k.isRead = true)
    (hbyte : k = .readLength → c.error = none → v.impl.lengthByte = c.bytes.headD 0)
    (hbody : ∀ n, k = .readBody n → c.error = none → v.impl.readBody = c.bytes) :
    Shown (Stage.ofKind v.impl.state k) (v.completeMove c k)
      (v.handler ⟨v.impl.generation, k⟩ c) := by
  cases k with
  | resolve host service =>
    simp only [handler, World.onResolve, ne_eq, not_true_eq_false, if_false]
    cases he : c.error with
    | some error => exact h.lost he _ (by simp)
    | none =>
      simp only [h.startOnStream_eq, completeMove, he]
      exact h.started rfl (.one rfl) fun hconn ↦ by cases hc hconn
  | connect =>
    simp only [handler, World.onConnect, ne_eq, not_true_eq_false, if_false]
    cases he : c.error with
    | some error => exact h.lost he _ (by simp)
    | none =>
      simp only [h.startOnStream_eq, completeMove, he]
      exact h.started rfl (.one rfl) fun hconn ↦ by cases hc hconn
  | handshake =>
    simp only [handler, World.onHandshake, ne_eq, not_true_eq_false, if_false]
    cases he : c.error with
    | some error =>
      simp only [completeMove, he]
      exact shown_refuse h.wanted h.alive error rfl
    | none =>
      have hd : Due { v.log .handshake with impl.reconnectDelay := 100 } :=
        Due.inners ⟨h.toSound.log _, h.live, h.booked.of_eq rfl rfl rfl⟩ (.single (.tune _ rfl))
      have hl : Shown .greeting (some .advanced) (World.beginReadLength v.impl.generation
          { v.log .handshake with impl.reconnectDelay := 100 }) := by
        refine hd.listened rfl (.one ?_)
        cases hst : v.impl.state <;> simp [Stage.ofKind, hst, Stage.step]
        cases hc hst
      simp only [completeMove, he]
      exact ⟨hl.run, hl.online⟩
  | readLength => exact h.shown_onReadLength (hh rfl) (hbyte rfl)
  | readBody size =>
    simp only [handler, World.onReadBody, ne_eq, not_true_eq_false, if_false]
    cases he : c.error with
    | some error => exact h.lost he _ (by simp)
    | none =>
      have hd := h.inners (inners_resetIdleTimer h.live)
      simp only [completeMove, he, ← hbody size rfl he]
      exact hd.handled (hh rfl) rfl _ rfl
  | write => cases hk

end Completions

section Steps

variable {w w' : World}

theorem Staged.reading (h : w.Staged) {k : OpKind} (hs : w.impl.stream.isSome = true)
    (hb : w.Booked [k]) (hk : k.isWrite = false) (hc : w.impl.state = .connected) :
    k.isRead = true := by
  have honline := (stage_live hs hb).symm.trans (h.online hc)
  cases k with
  | resolve | connect | handshake => exact absurd honline (by simp [Stage.ofKind])
  | readLength | readBody => rfl
  | write => cases hk

theorem Staged.complete_current (h : w.Staged) {k : OpKind} (hk : k.isWrite = false)
    (hop : (⟨w.impl.generation, k⟩ : Op) ∈ w.ops) {c : Completion} (hf : c.Fits k) :
    Shown w.stage (w.completeMove c k) (w.complete ⟨w.impl.generation, k⟩ c) := by
  have hs := h.live_of_op hop rfl
  obtain ⟨k', hb, hr⟩ := h.ledger hs
  obtain rfl : k = k' := by
    have hmem : (⟨w.impl.generation, k⟩ : Op) ∈ w.current := by simp [current, hop, hk]
    simpa [hb.current] using hmem
  obtain ⟨byte, body, hv⟩ := fill_eq ⟨w.impl.generation, k⟩ c
    { w with ops := w.ops.erase ⟨w.impl.generation, k⟩ }
  have hm : Moves w { w with
      ops := w.ops.erase ⟨w.impl.generation, k⟩
      impl.lengthByte := byte
      impl.readBody := body } :=
    .head (.consume _ hop) (.single (.inner (.tune _ rfl)))
  have hd := World.Due.mk (h.toSound.moves hm) hs ((hb.consume hk).of_eq rfl rfl rfl)
  rw [stage_live hs hb]
  unfold World.complete
  rw [hv]
  refine hd.shown_handler hk hr (h.reading hs hb hk) ?_ ?_
  · rintro rfl he
    exact (congrArg (fun v ↦ v.impl.lengthByte) hv).symm.trans (fill_readLength hf he _)
  · rintro n rfl he
    exact (congrArg (fun v ↦ v.impl.readBody) hv).symm.trans (fill_readBody hf he _)

theorem Staged.complete_write (h : w.Staged) {f : Bytes} {e : Event}
    (hop : (⟨w.impl.generation, .write f⟩ : Op) ∈ w.ops) (c : Completion)
    (he : w.move e = w.completeMove c (.write f)) :
    Shows w e (w.complete ⟨w.impl.generation, .write f⟩ c) := by
  have hs := h.live_of_op hop rfl
  have hsound := h.toSound.consume ⟨w.impl.generation, .write f⟩
  obtain ⟨k, hb, -⟩ := h.ledger hs
  simp only [complete, handler, fill, onWrite, ne_eq, not_true_eq_false, if_false]
  cases hc : c.error with
  | some error =>
    have hloss := Stage.step_lost w.impl.state k w.impl.options.autoReconnect
    have hlost := shown_connectionFailed (hsound.opened hs).wanted hsound.alive rfl hloss
      "write failed" error
    rw [← hsound.writeFailed hs error] at hlost
    rw [Shows, he, completeMove, hc, stage_live hs hb]
    exact hlost
  | none =>
    have hmem : (⟨w.impl.generation, .write f⟩ : Op) ∈ w.writes := by simp [writes, hop]
    refine h.keeps (he.trans (by simp [completeMove, hc])) ⟨(beginWrite_keeps _).1, ?_, ?_⟩
    · exact congrArg (fun v ↦ v.impl.state)
        (wrote_spec (w := { w with ops := w.ops.erase ⟨w.impl.generation, .write f⟩ }) hs)
    · exact fun l hl ↦ hl.wrote hs hmem

theorem Staged.complete (h : w.Staged) {op : Op} (hop : op ∈ w.ops) {c : Completion}
    (hf : c.Fits op.kind) : Shows w (.complete op c) (w.complete op c) := by
  by_cases hg : op.generation = w.impl.generation
  · obtain ⟨g, k⟩ := op
    obtain rfl : g = w.impl.generation := hg
    have hm : w.move (.complete ⟨w.impl.generation, k⟩ c) = w.completeMove c k := if_pos rfl
    cases hk : k.isWrite with
    | false =>
      rw [Shows, hm]
      exact h.complete_current hk hop hf
    | true =>
      cases k with
      | write f => exact h.complete_write hop c hm
      | _ => cases hk
  · obtain ⟨byte, body, hv⟩ := fill_eq op c { w with ops := w.ops.erase op }
    rw [World.complete_stale hg c, hv]
    exact h.keeps (if_neg hg) ⟨rfl, rfl, fun l hb ↦ (hb.consume_stale hg).of_eq rfl rfl rfl⟩

theorem Staged.idleWait (h : w.Staged) (q : Wait ℕ × Code) (hq : q ∈ w.idleTimer.queued) :
    Shows w (.idleWait q)
      ({ w with idleTimer := w.idleTimer.dequeue q }.onIdleWait q.1.captured q.2) := by
  unfold onIdleWait
  split_ifs with hg
  · have hs := h.live_of_idle hq hg.2.2
    obtain ⟨k, hb, -⟩ := h.ledger hs
    rw [Shows, World.move, if_pos hg, stage_live hs hb]
    exact shown_giveUp (v := { w with idleTimer := w.idleTimer.dequeue q }) hg.2.1 h.alive rfl
      (Stage.step_lost _ k _) _ hg.2.2
  · exact h.keeps (if_neg hg) ⟨rfl, rfl, fun _ hb ↦ hb.of_eq rfl rfl rfl⟩

theorem Staged.step (h : w.Staged) {e : Event} (he : w.step e = some w') : Shows w e w' := by
  have hdropped : Stage.step w.stage .dropped = some .resting := by cases w.stage <;> rfl
  cases happens_of_step he with
  | connect a => exact h.attempt he rfl rfl
  | disconnect => exact shown_move hdropped rfl fun hc ↦ by cases hc
  | disconnectAndWait => exact shown_move hdropped rfl fun hc ↦ by cases hc
  | sendKey | sendText | launchApp => exact h.send _ rfl
  | startVoice => exact h.inners rfl h.startVoice (congrArg Mirror.state mirror_startVoice)
  | sendVoiceData pcm =>
    exact h.inners rfl (h.sendVoiceData pcm) (congrArg Mirror.state (mirror_sendVoiceData pcm))
  | stopVoice => exact h.inners rfl h.stopVoice (congrArg Mirror.state mirror_stopVoice)
  | complete op c hop hf => exact h.complete hop hf
  | reconnectExpires | idleExpires | voiceExpires =>
    exact h.keeps rfl ⟨rfl, rfl, fun _ hb ↦ hb.of_eq rfl rfl rfl⟩
  | reconnectWait q a =>
    by_cases hg : q.2 = .success ∧ w.impl.userDisconnect = false
    · exact h.attempt he (if_pos hg) (if_pos hg)
    · rw [onReconnectWait, if_neg hg]
      exact h.keeps (if_neg hg) ⟨rfl, rfl, fun _ hb ↦ hb.of_eq rfl rfl rfl⟩
  | idleWait q hq => exact h.idleWait q hq
  | voiceWait q =>
    unfold onVoiceWait
    split_ifs <;> exact h.keeps rfl ⟨rfl, rfl, fun _ hb ↦ hb.of_eq rfl rfl rfl⟩

theorem Staged.next (h : w.Staged) {e : Event} (he : w.step e = some w') : w'.Staged :=
  ⟨h.toInv.next he, (h.step he).online⟩

theorem staged_ofOptions (o : Options) : (World.ofOptions o).Staged :=
  ⟨inv_ofOptions o, fun hc ↦ by cases hc⟩

end Steps

theorem connected_of_online {w : World} (h : w.stage = .online) : w.impl.state = .connected := by
  by_contra hc
  unfold stage at h
  split at h
  · rename_i op _ _
    unfold Stage.ofKind at h
    cases hk : op.kind <;> simp [hk, hc] at h
  · split_ifs at h
  · split_ifs at h

theorem Inv.resting_iff {w : World} (h : w.Inv) :
    w.stage = .resting ↔ w.impl.state = .disconnected := by
  cases hs : w.impl.stream with
  | none =>
    rw [stage_closed hs]
    rcases (h.closed hs).state with hd | ⟨hr, -⟩
    · simp [hd]
    · simp [hr]
  | some s =>
    have hlive : w.impl.stream.isSome = true := by simp [hs]
    obtain ⟨k, hb, -⟩ := h.ledger hlive
    rw [stage_live hlive hb]
    constructor
    · intro hrest
      unfold Stage.ofKind at hrest
      cases k <;> simp at hrest
      all_goals split_ifs at hrest
    · intro hd
      have hlive := (h.opened hlive).state
      rw [hd] at hlive
      simp at hlive

/-- The connection goes through its stages one by one: it is `Connected` just
when a stream was opened, its host resolved, the TCP and the TLS connection
made, and since then the TV has said `Start` and nothing has ended it. -/
theorem refines_lifecycle {o : Options} {es : List Event} {w : World} (h : Reaches o es w) :
    let ms := acts World.step World.move (World.ofOptions o) es
    Run Stage.step .resting ms w.stage ∧
      (w.impl.state = .connected ↔ ∃ pre n, ms = pre ++
        [.opened, .advanced, .advanced, .advanced] ++ List.replicate (n + 1) .started) ∧
      (w.impl.state = .disconnected ↔ w.stage = .resting) := by
  have hrun : Run Stage.step (World.ofOptions o).stage _ w.stage :=
    h.refines (fun _ _ _ hs he ↦ ⟨hs.next he, (hs.step he).run⟩) (staged_ofOptions o)
  have hstaged : w.Staged := h.invariant (fun _ _ _ hs he ↦ hs.next he) (staged_ofOptions o)
  refine ⟨hrun, ⟨?_, ?_⟩, hstaged.toInv.resting_iff.symm⟩
  · intro hc
    have hmade := Stage.made_of_run hrun
    rwa [hstaged.online hc] at hmade
  · rintro ⟨pre, n, hms⟩
    rw [hms] at hrun
    exact connected_of_online (Stage.online_of_run hrun)

theorem refines_lifecycle_start :
    ∃ w, Reaches {} (.connect {} :: Event.untilStart 1) w ∧ w.impl.state = .connected ∧
      ∃ pre n, acts World.step World.move (World.ofOptions {})
          (.connect {} :: Event.untilStart 1) = pre ++
        [.opened, .advanced, .advanced, .advanced] ++ List.replicate (n + 1) .started := by
  have h : Reaches {} (.connect {} :: Event.untilStart 1) _ := run_of_isSome (by decide +kernel)
  have hc : ((exec World.step (World.ofOptions {}) (.connect {} :: Event.untilStart 1)).get
    (by decide +kernel)).impl.state = .connected := by decide +kernel
  exact ⟨_, h, hc, (refines_lifecycle h).2.1.mp hc⟩

end World

end AndroidTvRemote
