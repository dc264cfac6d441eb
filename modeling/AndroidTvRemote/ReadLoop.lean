import AndroidTvRemote.Deeds
import AndroidTvRemote.Dialogue
import AndroidTvRemote.Framing

namespace AndroidTvRemote

open Base128 Wire Protocol SteadyTimer Runs Framing

def Framing.Phase.kind : Phase → OpKind
  | length _ => .readLength
  | body size => .readBody size

theorem Framing.Phase.isRead_kind (ph : Phase) : ph.kind.isRead = true := by cases ph <;> rfl

theorem Framing.Phase.capacity_kind (ph : Phase) : ph.kind.capacity = ph.capacity := by
  cases ph <;> rfl

namespace World

abbrev received (g : ℕ) (w : World) : List Bytes := w.frames Record.handled g

/-- Nothing was done to the read loop of the current connection. -/
structure Calm (w w' : World) : Prop where
  generation : w'.impl.generation = w.impl.generation
  stream : w'.impl.stream = w.impl.stream
  readLength : w'.impl.readLength = w.impl.readLength
  readShift : w'.impl.readShift = w.impl.readShift
  reads : ∀ op ∈ w.ops, op.generation = w.impl.generation → op.kind.isRead = true → op ∈ w'.ops
  trace : ∃ l, w'.trace = w.trace ++ l ∧ ∀ r ∈ l, r.2.handled = none

section Calm

variable {w w' w'' : World}

theorem calm_of_eq (hi : w'.impl.generation = w.impl.generation)
    (hs : w'.impl.stream = w.impl.stream) (hl : w'.impl.readLength = w.impl.readLength)
    (hsh : w'.impl.readShift = w.impl.readShift) (ho : w'.ops = w.ops)
    (ht : w'.trace = w.trace) : Calm w w' :=
  ⟨hi, hs, hl, hsh, fun _ hop _ _ ↦ ho ▸ hop, [], by simp [ht], by simp⟩

theorem Calm.refl (w : World) : Calm w w := calm_of_eq rfl rfl rfl rfl rfl rfl

theorem Calm.trans (h : Calm w w') (h' : Calm w' w'') : Calm w w'' := by
  refine ⟨h'.generation.trans h.generation, h'.stream.trans h.stream,
    h'.readLength.trans h.readLength, h'.readShift.trans h.readShift, ?_,
    grown_trans h.trace h'.trace⟩
  intro op hop hg hr
  exact h'.reads op (h.reads op hop hg hr) (hg.trans h.generation.symm) hr

theorem Calm.received_eq (h : Calm w w') (g : ℕ) : w'.received g = w.received g := by
  obtain ⟨l, ht, hl⟩ := h.trace
  rw [received, frames_append ht]
  refine (congrArg _ (List.filterMap_eq_nil_iff.mpr ?_)).trans (List.append_nil _)
  intro r hr
  simp [hl r hr]

theorem calm_log (w : World) {r : Record} (hr : r.handled = none) : Calm w (w.log r) :=
  ⟨rfl, rfl, rfl, rfl, fun _ hop _ _ ↦ hop, [(w.impl.generation, r)], rfl, by simp [hr]⟩

theorem calm_start (w : World) (op : Op) : Calm w (w.start op) :=
  ⟨rfl, rfl, rfl, rfl, fun _ hop _ _ ↦ List.mem_append_left _ hop, [], by simp [start], by simp⟩

theorem calm_consume (w : World) {op : Op}
    (h : op.generation ≠ w.impl.generation ∨ op.kind.isRead = false) :
    Calm w { w with ops := w.ops.erase op } := by
  refine ⟨rfl, rfl, rfl, rfl, ?_, [], by simp, by simp⟩
  intro op' hop hg hr
  refine (List.mem_erase_of_ne ?_).mpr hop
  rintro rfl
  rcases h with h | h
  · exact h hg
  · cases hr.symm.trans h

theorem Chore.calm (h : Chore w w') : Calm w w' := by
  cases h with
  | log r hr =>
    refine calm_log w ?_
    cases r with
    | received m => cases hr
    | _ => rfl
  | tune i hi =>
    exact calm_of_eq (congrArg Ground.generation hi) (congrArg Ground.stream hi)
      (congrArg Ground.readLength hi) (congrArg Ground.readShift hi) rfl rfl
  | hush => exact calm_of_eq rfl rfl rfl rfl rfl rfl
  | @await | @queue =>
    exact ⟨rfl, rfl, rfl, rfl, fun _ hop _ _ ↦ hop, _, rfl, by simp [Record.handled]⟩
  | write buffer => exact calm_start w _

theorem Chores.calm (h : Chores w w') : Calm w w' := by
  induction h with
  | refl => exact .refl w
  | tail _ hc ih => exact ih.trans hc.calm

end Calm

/-- The read loop of a connection stands in a phase. -/
structure Awaits (g : ℕ) (ph : Phase) (w : World) : Prop where
  generation : w.impl.generation = g
  live : w.impl.stream.isSome = true
  reading : (⟨g, ph.kind⟩ : Op) ∈ w.ops
  valid : ph.Valid maxFrameSize
  length : ∀ seen, ph = .length seen →
    w.impl.readLength = UInt64.ofNat (denote seen) ∧ w.impl.readShift = 7 * seen.length

theorem Awaits.calm {g : ℕ} {ph : Phase} {w w' : World} (h : Awaits g ph w) (hc : Calm w w') :
    Awaits g ph w' where
  generation := hc.generation.trans h.generation
  live := hc.stream ▸ h.live
  reading := hc.reads _ h.reading h.generation.symm ph.isRead_kind
  valid := h.valid
  length seen hs := by
    rw [hc.readLength, hc.readShift]
    exact h.length seen hs

def complaint : Stop → String
  | .overlong => "invalid protobuf frame length"
  | _ => "protobuf frame exceeds 4 MiB safety limit"

structure GaveUp (w : World) (s : Stop) (w' : World) : Prop where
  generation : w'.impl.generation = w.impl.generation + 1
  stream : w'.impl.stream = none
  trace : ∃ l, w'.trace = w.trace ++ (w.impl.generation, .callback (.error (complaint s))) ::
    (w.impl.generation, .lost) :: l ∧ ∀ r ∈ l, r.2.handled = none

section Completion

variable {g : ℕ} {w : World}

theorem awaits_beginReadLength (hg : w.impl.generation = g)
    (hs : w.impl.stream.isSome = true) :
    Awaits g (.length []) (w.beginReadLength g) ∧
      (w.beginReadLength g).received g = w.received g := by
  subst hg
  have hn : w.impl.stream.isNone = false := by simpa using hs
  simp only [beginReadLength, readOneLengthByte, hn, ne_eq, not_true_eq_false, decide_false,
    Bool.or_self, Bool.false_eq_true, if_false]
  refine ⟨⟨rfl, hs, List.mem_append_right _ (List.mem_singleton.mpr rfl), ⟨by simp, by simp⟩, ?_⟩,
    rfl⟩
  intro seen hseen
  cases hseen
  exact ⟨rfl, rfl⟩

theorem awaits_handleMessage (hg : w.impl.generation = g) (hs : w.impl.stream.isSome = true)
    (m : Bytes) : Awaits g (.length []) ((w.handleMessage m).beginReadLength g) ∧
      ((w.handleMessage m).beginReadLength g).received g = w.received g ++ [m] := by
  have hc := (chores_handleMessage w m).calm
  obtain ⟨ha, hr⟩ := awaits_beginReadLength (hc.generation.trans hg) (hc.stream ▸ hs)
  refine ⟨ha, ?_⟩
  rw [hr, hc.received_eq, received, frames_append (log_trace w _)]
  simp [hg, Record.handled]

theorem lost_trace (hu : w.impl.userDisconnect = false) (ha : w.impl.shuttingDown = false) :
    ∃ l, (w.handleConnectionLoss w.impl.generation).trace =
      w.trace ++ (w.impl.generation, .lost) :: l ∧ ∀ r ∈ l, r.2.handled = none := by
  rw [handleConnectionLoss_spec hu ha]
  simp only
  split_ifs
  all_goals exact ⟨_, List.append_assoc _ _ _, by simp [Record.handled]⟩

theorem gaveUp_lose {v : World} (hu : v.impl.userDisconnect = false)
    (ha : v.impl.shuttingDown = false) (hg : v.impl.generation = w.impl.generation)
    (ht : v.trace = w.trace) (s : Stop) :
    GaveUp w s ((v.emitError (complaint s)).handleConnectionLoss w.impl.generation) := by
  rw [← hg]
  obtain ⟨hclosed, hgen⟩ := handleConnectionLoss_closes (v.emitError (complaint s))
  obtain ⟨l, hl, hr⟩ := lost_trace (w := v.emitError (complaint s)) hu ha
  refine ⟨hgen.trans (congrArg (· + 1) hg), hclosed, l, hl.trans ?_, hr⟩
  simp [emitError, emit, ht, hg]

theorem complete_lengthByte {seen : Bytes} (ha : Awaits g (.length seen) w) (b : UInt8) :
    w.complete ⟨g, .readLength⟩ { bytes := [b] } =
      let v := { w with
        ops := w.ops.erase ⟨g, .readLength⟩
        impl.lengthByte := b
        impl.readLength := UInt64.ofNat (denote (seen ++ [b])) }
      if ¬ b.toNat < 128 then
        if 9 ≤ seen.length then
          ({ v with impl.readShift := 7 * seen.length + 7 }.emitError
            (complaint .overlong)).handleConnectionLoss g
        else { v with impl.readShift := 7 * seen.length + 7 }.start ⟨g, .readLength⟩
      else if maxFrameSize < denote (seen ++ [b]) % 2 ^ 64 then
        (v.emitError (complaint .tooLong)).handleConnectionLoss g
      else
        let v := { v with impl.readBody := List.replicate (denote (seen ++ [b]) % 2 ^ 64) 0 }
        if denote (seen ++ [b]) % 2 ^ 64 = 0 then (v.handleMessage []).beginReadLength g
        else v.start ⟨g, .readBody (denote (seen ++ [b]) % 2 ^ 64)⟩ := by
  obtain ⟨hl, hsh⟩ := ha.length seen rfl
  obtain rfl := ha.generation
  have hacc := Reader.accumulate seen b (Nat.le_of_lt_succ ha.valid.2)
  obtain ⟨s, hs⟩ := Option.isSome_iff_exists.mp ha.live
  simp only [complete, fill, handler, onReadLength, ne_eq, not_true_eq_false, if_false, hl, hsh,
    hacc, continues_iff, startOnStream, readOneLengthByte, hs, Option.isNone_some,
    decide_false, Bool.or_self, Bool.false_eq_true, UInt64.toNat_ofNat', List.isEmpty_iff,
    List.replicate_eq_nil_iff, List.length_replicate]
  have hshift : 7 * seen.length + 7 > 63 ↔ 9 ≤ seen.length := by omega
  simp only [hshift]
  rfl

theorem Awaits.complete_ok {ph ph' : Phase} {ps : List Bytes} {portion : Bytes}
    (ha : Awaits g ph w) (hp : portion.length = ph.capacity)
    (h : advance maxFrameSize ph portion = .ok (ps, ph')) :
    Awaits g ph' (w.complete ⟨g, ph.kind⟩ { bytes := portion }) ∧
      (w.complete ⟨g, ph.kind⟩ { bytes := portion }).received g = w.received g ++ ps := by
  have hvalid := advance_valid ha.valid hp h
  have hadv := advances ha.valid hp
  rw [h] at hadv
  have hnew : ∀ (v : World) (k : OpKind), (⟨g, k⟩ : Op) ∈ (v.start ⟨g, k⟩).ops :=
    fun v k ↦ List.mem_append_right _ (List.mem_singleton.mpr rfl)
  cases hadv with
  | @more seen b hb hl =>
    rw [List.length_append, List.length_singleton] at hl
    have hfew : ¬ 9 ≤ seen.length := by omega
    simp only [Phase.kind, complete_lengthByte ha, if_pos hb, if_neg hfew]
    refine ⟨⟨ha.generation, ha.live, hnew _ _, hvalid, ?_⟩, (List.append_nil _).symm⟩
    rintro _ ⟨⟩
    refine ⟨rfl, ?_⟩
    rw [List.length_append, List.length_singleton, Nat.mul_add]
    rfl
  | empty hb h0 =>
    simp only [Phase.kind, complete_lengthByte ha, if_neg (not_not.mpr hb), h0, Nat.not_lt_zero,
      if_false, if_true]
    exact awaits_handleMessage (by exact ha.generation) (by exact ha.live) []
  | size hb hl h0 =>
    simp only [Phase.kind, complete_lengthByte ha, if_neg (not_not.mpr hb),
      if_neg (Nat.not_lt.mpr hl), if_neg h0.ne']
    exact ⟨⟨ha.generation, ha.live, hnew _ _, hvalid, fun _ h ↦ by cases h⟩,
      (List.append_nil _).symm⟩
  | body =>
    obtain rfl := ha.generation
    simp only [Phase.kind, complete, fill, handler, onReadBody, ne_eq, not_true_eq_false,
      if_false, Nat.sub_self, List.replicate_zero, List.append_nil]
    exact awaits_handleMessage (by exact rfl) (by exact ha.live) portion

theorem Awaits.complete_error {ph : Phase} {s : Stop} {portion : Bytes} (hw : w.Inv)
    (ha : Awaits g ph w) (hp : portion.length = ph.capacity)
    (h : advance maxFrameSize ph portion = .error s) :
    GaveUp w s (w.complete ⟨g, ph.kind⟩ { bytes := portion }) := by
  have hu := (hw.opened ha.live).wanted
  have hadv := advances ha.valid hp
  rw [h] at hadv
  obtain rfl := ha.generation
  cases hadv with
  | @overlong seen b hb hl =>
    rw [List.length_append, List.length_singleton] at hl
    have hmany : 9 ≤ seen.length := by omega
    simp only [Phase.kind, complete_lengthByte ha, if_pos hb, if_pos hmany]
    exact gaveUp_lose (by exact hu) (by exact hw.alive) (by exact rfl) (by exact rfl) .overlong
  | tooLong hb hl =>
    simp only [Phase.kind, complete_lengthByte ha, if_neg (not_not.mpr hb), if_pos hl]
    exact gaveUp_lose (by exact hu) (by exact hw.alive) (by exact rfl) (by exact rfl) .tooLong

end Completion

end World

/-- The bytes an event brings to the read loop of a connection. -/
def Event.portion (g : ℕ) : Event → Option Bytes
  | complete op c =>
    if op.generation = g ∧ op.kind.isRead = true ∧ c.error = none then some c.bytes else none
  | _ => none

namespace World

theorem connectionFailed_generation {w : World} (prefixText error : String)
    (hu : w.impl.userDisconnect = false) (ha : w.impl.shuttingDown = false) {g : ℕ}
    (hg : w.impl.generation = g) :
    g < (w.connectionFailed prefixText error g).impl.generation := by
  subst hg
  rw [connectionFailed_spec prefixText error hu ha]
  exact Nat.lt_of_lt_of_eq (Nat.lt_succ_self _) (handleConnectionLoss_closes (w.emitError _)).2.symm

section Others

variable {g : ℕ} {ph : Phase} {w w' : World} (hw : w.Inv) (ha : Awaits g ph w)

include hw ha

theorem Awaits.unique {k : OpKind} (hop : (⟨g, k⟩ : Op) ∈ w.ops) (hk : k.isWrite = false) :
    k = ph.kind := by
  obtain rfl := ha.generation
  obtain ⟨k', hb, -⟩ := hw.ledger ha.live
  have hmem : ∀ k : OpKind, (⟨w.impl.generation, k⟩ : Op) ∈ w.ops → k.isWrite = false → k = k' := by
    intro k hop hk
    have hcur : (⟨w.impl.generation, k⟩ : Op) ∈ w.current := by simp [current, hop, hk]
    simpa [hb.current] using hcur
  rw [hmem k hop hk, hmem ph.kind ha.reading (OpKind.isWrite_of_isRead ph.isRead_kind)]

/-- A completion that brings nothing leaves the loop alone or ends the
connection. -/
theorem Awaits.complete_other {op : Op} {c : Completion} (hop : op ∈ w.ops)
    (hp : (Event.complete op c).portion g = none) :
    g < (w.complete op c).impl.generation ∨ Calm w (w.complete op c) := by
  obtain rfl := ha.generation
  have hu := (hw.opened ha.live).wanted
  by_cases hg : op.generation = w.impl.generation
  · obtain ⟨g, k⟩ := op
    obtain rfl : g = w.impl.generation := hg
    cases hk : k.isWrite with
    | true =>
      cases k with
      | write f =>
        simp only [complete, fill, handler, onWrite, ne_eq, not_true_eq_false, if_false]
        split
        · exact .inl (connectionFailed_generation _ _ (by exact hu) (by exact hw.alive) (by rfl))
        · have hcons : Calm w { w with ops := w.ops.erase ⟨w.impl.generation, .write f⟩ } :=
            calm_consume w (.inr rfl)
          refine .inr (hcons.trans (Calm.trans ?_ (chores_beginWrite _).calm))
          exact calm_of_eq rfl rfl rfl rfl rfl rfl
      | _ => cases hk
    | false =>
      have hread : k.isRead = true := by
        rw [ha.unique hw hop hk]
        exact ph.isRead_kind
      obtain ⟨error, he⟩ : ∃ error, c.error = some error := by
        apply Option.ne_none_iff_exists'.mp
        intro he
        exact Option.some_ne_none _ ((if_pos ⟨rfl, hread, he⟩).symm.trans hp)
      refine .inl ?_
      obtain ⟨byte, body, hf⟩ := fill_eq ⟨w.impl.generation, k⟩ c
        { w with ops := w.ops.erase ⟨w.impl.generation, k⟩ }
      unfold complete handler
      rw [hf]
      cases k with
      | readLength =>
        simp only [onReadLength, ne_eq, not_true_eq_false, if_false, he]
        exact connectionFailed_generation _ _ (by exact hu) (by exact hw.alive) (by rfl)
      | readBody size =>
        simp only [onReadBody, ne_eq, not_true_eq_false, if_false, he]
        exact connectionFailed_generation _ _ (by exact hu) (by exact hw.alive) (by rfl)
      | _ => cases hread
  · obtain ⟨byte, body, hf⟩ := fill_eq op c { w with ops := w.ops.erase op }
    rw [complete_stale hg, hf]
    exact .inr ((calm_consume w (.inl hg)).trans (calm_of_eq rfl rfl rfl rfl rfl rfl))

theorem Awaits.step_other {e : Event} (hp : e.portion g = none) (he : w.step e = some w') :
    g < w'.impl.generation ∨ Calm w w' := by
  have hattempt : ∀ a, e.attempt w = some a → g < w'.impl.generation := by
    intro a hat
    obtain ⟨reconnecting, delay, t, rfl⟩ := step_attempt hat he
    have hr := (hw.toBounded.wanting delay t).renewed_beginConnect rfl reconnecting a
    refine Nat.lt_of_lt_of_eq (Nat.lt_succ_self _) (Eq.trans ?_ hr.generation.symm)
    exact congrArg (· + 1) ha.generation.symm
  cases happens_of_step he with
  | connect a => exact .inl (hattempt a rfl)
  | disconnect | disconnectAndWait => exact .inl (ha.generation ▸ Nat.lt_succ_self _)
  | sendKey | sendText | launchApp => exact .inr (chores_queueMessage w _).calm
  | startVoice => exact .inr (chores_startVoice hw.live_of_connected).calm
  | sendVoiceData pcm => exact .inr (chores_sendVoiceData w pcm).calm
  | stopVoice => exact .inr (chores_stopVoice w).calm
  | complete op c hop => exact ha.complete_other hw hop hp
  | reconnectExpires | idleExpires | voiceExpires =>
    exact .inr (calm_of_eq rfl rfl rfl rfl rfl rfl)
  | reconnectWait q a =>
    by_cases hg : q.2 = .success ∧ w.impl.userDisconnect = false
    · exact .inl (hattempt a (if_pos hg))
    · rw [onReconnectWait, if_neg hg]
      exact .inr (calm_of_eq rfl rfl rfl rfl rfl rfl)
  | idleWait q =>
    unfold onIdleWait
    split_ifs with hc
    · obtain ⟨-, -, hg⟩ := hc
      rw [hg, ← ha.generation]
      refine .inl (Nat.lt_of_lt_of_eq (Nat.lt_succ_self _) ?_)
      exact (handleConnectionLoss_closes (emitError _
        { w with idleTimer := w.idleTimer.dequeue q })).2.symm
    · exact .inr (calm_of_eq rfl rfl rfl rfl rfl rfl)
  | voiceWait q =>
    unfold onVoiceWait
    split_ifs
    · refine .inr (Calm.trans ?_ (calm_log _ rfl))
      exact calm_of_eq rfl rfl rfl rfl rfl rfl
    · exact .inr (calm_of_eq rfl rfl rfl rfl rfl rfl)

theorem Awaits.portion_eq {e : Event} {portion : Bytes} (hp : e.portion g = some portion)
    (he : w.step e = some w') : portion.length = ph.capacity ∧
      w' = w.complete ⟨g, ph.kind⟩ { bytes := portion } := by
  cases e with
  | complete op c =>
    obtain ⟨⟨hg, hread, herror⟩, hbytes⟩ := (Option.ite_none_right_eq_some ..).mp hp
    obtain ⟨⟨hop, hfits⟩, hw'⟩ := (Option.ite_none_right_eq_some ..).mp he
    obtain rfl := Option.some.inj hbytes
    obtain ⟨g', k⟩ := op
    obtain rfl : g' = g := hg
    obtain rfl : k = ph.kind := ha.unique hw hop (OpKind.isWrite_of_isRead hread)
    obtain ⟨error, bytes⟩ := c
    obtain rfl : error = none := herror
    exact ⟨(hfits.2 rfl).trans ph.capacity_kind, (Option.some.inj hw').symm⟩
  | _ => cases hp

end Others

def delivered (g : ℕ) (es : List Event) : Bytes := (es.filterMap (Event.portion g)).flatten

/-- In every run on one connection, whatever else happens in it, the messages
handled and the phase the loop ends in are those of the bytes delivered. -/
theorem Awaits.run {g : ℕ} {ph : Phase} {w w' : World} {es : List Event} (hw : w.Inv)
    (ha : Awaits g ph w) (hr : Run World.step w es w') (hg : w'.impl.generation = g) :
    ∃ ph' ps, Awaits g ph' w' ∧ w'.received g = w.received g ++ ps ∧
      ∀ more, resume maxFrameSize ph (delivered g es ++ more) =
        (resume maxFrameSize ph' more).prepend ps := by
  induction hr generalizing ph with
  | nil w => exact ⟨ph, [], ha, (List.append_nil _).symm, fun _ ↦ rfl⟩
  | @cons w v w' e es he hr ih =>
    have hv := hw.next he
    have hmono : v.impl.generation ≤ g := hg ▸ hv.generation_le hr
    cases hp : e.portion g with
    | none =>
      have hdel : delivered g (e :: es) = delivered g es := by simp [delivered, hp]
      obtain hlt | hc := ha.step_other hw hp he
      · omega
      · obtain ⟨ph', ps, ha', hrec, hres⟩ := ih hv (ha.calm hc) hg
        exact ⟨ph', ps, ha', by rw [hrec, hc.received_eq], by rwa [hdel]⟩
    | some portion =>
      have hdel : delivered g (e :: es) = portion ++ delivered g es := by simp [delivered, hp]
      obtain ⟨hlen, rfl⟩ := ha.portion_eq hw hp he
      cases hadv : advance maxFrameSize ph portion with
      | error s =>
        have hgone := (ha.complete_error hw hlen hadv).generation
        have hgen := ha.generation
        omega
      | ok next =>
        obtain ⟨ps₁, ph₁⟩ := next
        obtain ⟨ha₁, hrec₁⟩ := ha.complete_ok hlen hadv
        obtain ⟨ph', ps, ha', hrec, hres⟩ := ih hv ha₁ hg
        refine ⟨ph', ps₁ ++ ps, ha', by rw [hrec, hrec₁, List.append_assoc], ?_⟩
        intro more
        rw [hdel, List.append_assoc, resume_ok ha.valid hlen hadv, hres, Outcome.prepend_prepend]

end World

end AndroidTvRemote
