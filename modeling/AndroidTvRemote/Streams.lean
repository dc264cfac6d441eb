import AndroidTvRemote.Mirror
import AndroidTvRemote.Requests

namespace AndroidTvRemote

open Wire Protocol SteadyTimer Runs Framing SyncTlsConnection

namespace Dialogue

theorem Turn.handled {d d' : Dialogue} {e : Event} (ht : Turn d e d') :
    d'.generation = d.generation ∧ (d'.tagged Record.handled = d.tagged Record.handled ∨
      ∃ m, d'.tagged Record.handled = d.tagged Record.handled ++ [(d.generation, m)]) := by
  cases ht with
  | rest | voiceTimeout => exact ⟨rfl, .inl rfl⟩
  | receive m hl =>
    refine ⟨?_, .inr ⟨m, (d.hears m).handled⟩⟩
    have hears := d.hears m
    generalize d.receive m = d' at hears
    cases hears with
    | configure | setActive | ping | voiceBegin => exact send_generation _ _
    | other => rfl
  | send hm hl => exact ⟨send_generation _ _, .inl (tagged_send_none rfl)⟩
  | startVoice => exact ⟨send_generation _ _, .inl (tagged_send_none rfl)⟩
  | voiceData hl hv pcm =>
    refine sendAll_induction (P := fun d' ↦ d'.generation = d.generation ∧
      (d'.tagged Record.handled = d.tagged Record.handled ∨ _)) ?_ ⟨rfl, .inl rfl⟩
    intro d' m hm h
    rw [send_generation, tagged_send_none rfl]
    exact h
  | stopVoice =>
    cases hv : d.voiceSessionId with
    | none =>
      rw [stopVoice_none hv]
      exact ⟨rfl, .inl rfl⟩
    | some s =>
      rw [stopVoice_some hv]
      refine ⟨send_generation _ _, .inl ?_⟩
      exact (tagged_say_none rfl).trans (tagged_send_none rfl)

end Dialogue

namespace World

/-- No read of the current connection is outstanding. -/
def Unread (w : World) : Prop :=
  ∀ op ∈ w.ops, op.generation = w.impl.generation → op.kind.isRead = false

structure Aside (w w' : World) : Prop extends Calm w w' where
  unread : w.Unread → w'.Unread

section Aside

variable {w w' w'' : World}

theorem aside_of_eq (hi : w'.impl.generation = w.impl.generation)
    (hs : w'.impl.stream = w.impl.stream) (hl : w'.impl.readLength = w.impl.readLength)
    (hsh : w'.impl.readShift = w.impl.readShift) (ho : w'.ops = w.ops)
    (ht : w'.trace = w.trace) : Aside w w' := by
  refine ⟨calm_of_eq hi hs hl hsh ho ht, ?_⟩
  intro hu op hop hg
  rw [ho] at hop
  exact hu op hop (hg.trans hi)

theorem Aside.trans (h : Aside w w') (h' : Aside w' w'') : Aside w w'' :=
  ⟨h.toCalm.trans h'.toCalm, fun hu ↦ h'.unread (h.unread hu)⟩

theorem aside_log (w : World) {r : Record} (hr : r.handled = none) : Aside w (w.log r) :=
  ⟨calm_log w hr, id⟩

theorem aside_start (w : World) {op : Op} (hk : op.kind.isRead = false) : Aside w (w.start op) := by
  refine ⟨calm_start w op, ?_⟩
  intro hu op' hop hg
  rcases List.mem_append.mp hop with hop | hop
  · exact hu op' hop hg
  · obtain rfl := List.mem_singleton.mp hop
    exact hk

theorem aside_consume (w : World) {op : Op}
    (h : op.generation ≠ w.impl.generation ∨ op.kind.isRead = false) :
    Aside w { w with ops := w.ops.erase op } :=
  ⟨calm_consume w h, fun hu op' hop hg ↦ hu op' (List.mem_of_mem_erase hop) hg⟩

theorem Chores.aside (h : Chores w w') : Aside w w' := by
  refine ⟨h.calm, fun hu ↦ ?_⟩
  induction h with
  | refl => exact hu
  | tail _ hc ih =>
    cases hc with
    | log | hush | await | queue => exact ih
    | tune i hi =>
      intro op hop hg
      exact ih op hop (hg.trans (congrArg Ground.generation hi))
    | write buffer => exact (aside_start _ (by rfl)).unread ih

end Aside

section Steps

variable {w w' : World} {e : Event}

theorem received_of_tagged (h : w'.tagged Record.handled = w.tagged Record.handled) (g : ℕ) :
    w'.received g = w.received g := by
  rw [received, received, frames_eq_ofGeneration, frames_eq_ofGeneration, h]

theorem tagged_handled (w : World) : w.dialogue.tagged Record.handled = w.tagged Record.handled := by
  refine tagged_dialogue fun r hr ↦ ?_
  cases r with
  | received m => cases hr
  | _ => rfl

theorem Inv.renews (hw : w.Inv) (he : w.step e = some w')
    (hg : w.impl.generation < w'.impl.generation) :
    w'.impl.generation = w.impl.generation + 1 ∧ (∀ g, w'.received g = w.received g) ∧
      w'.Unread := by
  have hw' := hw.next he
  obtain ⟨hgen, hheard⟩ : w'.impl.generation = w.impl.generation + 1 ∧
      w'.dialogue.tagged Record.handled = w.dialogue.tagged Record.handled := by
    cases hw.speaks he with
    | closes hc live hd => exact ⟨congrArg Dialogue.generation hd, by rw [hd]; rfl⟩
    | turn hc ht => exact absurd ht.handled.1 hg.ne'
  rw [tagged_handled, tagged_handled] at hheard
  refine ⟨hgen, received_of_tagged hheard, ?_⟩
  have hnone : w'.impl.stream = none → w'.Unread := fun hs op hop hcur ↦
    absurd hcur ((hw'.closed hs).ops_lt op hop).ne
  cases (hw.step he).1 with
  | moves hm =>
    apply hnone
    have hgone := hm.invariant (P := fun v ↦ v.impl.generation = w.impl.generation ∨
      v.impl.stream = none) ?_ hw.toSound (.inl rfl)
    · exact hgone.resolve_left hg.ne'
    intro v v' hv hp hmove
    obtain hs | ⟨-, -, -, -, -, -⟩ := hmove.stays_or_ends hv
    · rwa [hs.generation, hs.stream]
    · exact .inr rfl
  | send _ hs => exact absurd (stays_queueMessage hw.toSound hs _).generation hg.ne'
  | attempt _ reconnecting delay t =>
    obtain ⟨n, context, l, -, ⟨error, hb⟩ | ⟨k, -, hb⟩⟩ :=
      beginConnect_cases reconnecting _ (hw.toBounded.wanting delay t).alive rfl
    · exact hnone (by rw [hb]; rfl)
    · rw [hb]
      intro op hop hcur
      rcases List.mem_append.mp hop with hop | hop
      · exact absurd hcur (Nat.lt_succ_of_le (hw.ops_le op hop)).ne
      · rw [List.mem_singleton.mp hop]
        rfl
  | disconnect | disconnectAndWait => exact hnone rfl

theorem Inv.received_other (hw : w.Inv) (he : w.step e = some w') {g : ℕ}
    (hg : g ≠ w.impl.generation) : w'.received g = w.received g := by
  have hrec : ∀ v : World, v.received g = ofGeneration g (v.dialogue.tagged Record.handled) := by
    intro v
    rw [tagged_handled]
    exact frames_eq_ofGeneration g v
  rw [hrec, hrec]
  cases hw.speaks he with
  | closes hc live hd =>
    rw [hd]
    rfl
  | turn hc ht =>
    obtain hsame | ⟨m, hm⟩ := ht.handled.2
    · rw [hsame]
    · have hnil : ofGeneration g [(w.dialogue.generation, m)] = [] := by
        apply ofGeneration_eq_nil
        intro x hx
        rw [List.mem_singleton.mp hx]
        exact hg.symm
      rw [hm, ofGeneration_append, hnil, List.append_nil]

/-- The completion that begins the loop is that of the handshake. -/
theorem Unread.complete (hw : w.Inv) (hn : w.Unread) {op : Op} {c : Completion} (hop : op ∈ w.ops) :
    w.impl.generation < (w.complete op c).impl.generation ∨ Aside w (w.complete op c) ∨
      Awaits w.impl.generation (.length []) (w.complete op c) ∧
        (w.complete op c).received w.impl.generation = w.received w.impl.generation := by
  by_cases hg : op.generation = w.impl.generation
  · have hs := hw.live_of_op hop hg
    have hu := (hw.opened hs).wanted
    have hread := hn op hop hg
    obtain ⟨g, k⟩ := op
    obtain rfl : g = w.impl.generation := hg
    have hcons : Aside w { w with ops := w.ops.erase ⟨w.impl.generation, k⟩ } :=
      aside_consume w (.inr hread)
    have hstart : ∀ k', k'.isRead = false →
        Aside w ({ w with ops := w.ops.erase ⟨w.impl.generation, k⟩ }.startOnStream
          ⟨w.impl.generation, k'⟩) := by
      intro k' hk'
      obtain ⟨s, hs⟩ := Option.isSome_iff_exists.mp hs
      simp only [startOnStream, hs]
      exact hcons.trans (aside_start _ hk')
    have hfail : ∀ prefixText error, w.impl.generation <
        ({ w with ops := w.ops.erase ⟨w.impl.generation, k⟩ }.connectionFailed prefixText error
          w.impl.generation).impl.generation := fun prefixText error ↦
      connectionFailed_generation prefixText error (by exact hu) (by exact hw.alive) (by rfl)
    cases k with
    | readLength | readBody => cases hread
    | resolve | connect =>
      simp only [World.complete, fill, handler, onResolve, onConnect, ne_eq, not_true_eq_false,
        if_false]
      split
      · exact .inl (hfail _ _)
      · exact .inr (.inl (hstart _ rfl))
    | handshake =>
      simp only [World.complete, fill, handler, onHandshake, ne_eq, not_true_eq_false, if_false]
      split
      · have hspec := authenticationFailed_spec
          (w := { w with ops := w.ops.erase ⟨w.impl.generation, .handshake⟩ })
        refine .inl ?_
        rw [hspec _ hu hw.alive]
        exact Nat.lt_succ_self _
      · have hlog := calm_log { w with ops := w.ops.erase ⟨w.impl.generation, .handshake⟩ }
          (r := .handshake) rfl
        have hset : Calm w { World.log .handshake
              { w with ops := w.ops.erase ⟨w.impl.generation, .handshake⟩ } with
            impl.reconnectDelay := 100 } :=
          hcons.toCalm.trans (hlog.trans (calm_of_eq rfl rfl rfl rfl rfl rfl))
        obtain ⟨ha, hr⟩ := awaits_beginReadLength hset.generation (hset.stream ▸ hs)
        have hreset : ∀ v : World, Calm v v.resetIdleTimer :=
          fun v ↦ calm_of_eq rfl rfl rfl rfl rfl rfl
        refine .inr (.inr ⟨ha.calm (hreset _), ?_⟩)
        exact ((hreset _).received_eq _).trans (hr.trans (hset.received_eq _))
    | write f =>
      simp only [World.complete, fill, handler, onWrite, ne_eq, not_true_eq_false, if_false]
      split
      · exact .inl (connectionFailed_generation _ _ (by exact hu) (by exact hw.alive) (by rfl))
      · refine .inr (.inl (hcons.trans (Aside.trans ?_ (chores_beginWrite _).aside)))
        exact aside_of_eq rfl rfl rfl rfl rfl rfl
  · obtain ⟨byte, body, hf⟩ := fill_eq op c { w with ops := w.ops.erase op }
    rw [complete_stale hg, hf]
    exact .inr (.inl ((aside_consume w (.inl hg)).trans (aside_of_eq rfl rfl rfl rfl rfl rfl)))

theorem Unread.step (hw : w.Inv) (hn : w.Unread) (he : w.step e = some w') :
    w.impl.generation < w'.impl.generation ∨ Aside w w' ∨
      Awaits w.impl.generation (.length []) w' ∧
        w'.received w.impl.generation = w.received w.impl.generation := by
  have hattempt : ∀ a, e.attempt w = some a → w.impl.generation < w'.impl.generation := by
    intro a hat
    obtain ⟨reconnecting, delay, t, rfl⟩ := step_attempt hat he
    have hr := (hw.toBounded.wanting delay t).renewed_beginConnect rfl reconnecting a
    exact Nat.lt_of_lt_of_eq (Nat.lt_succ_self _) hr.generation.symm
  cases happens_of_step he with
  | connect a => exact .inl (hattempt a rfl)
  | disconnect | disconnectAndWait => exact .inl (Nat.lt_succ_self _)
  | sendKey | sendText | launchApp => exact .inr (.inl (chores_queueMessage w _).aside)
  | startVoice => exact .inr (.inl (chores_startVoice hw.live_of_connected).aside)
  | sendVoiceData pcm => exact .inr (.inl (chores_sendVoiceData w pcm).aside)
  | stopVoice => exact .inr (.inl (chores_stopVoice w).aside)
  | complete op c hop => exact hn.complete hw hop
  | reconnectExpires | idleExpires | voiceExpires =>
    exact .inr (.inl (aside_of_eq rfl rfl rfl rfl rfl rfl))
  | reconnectWait q a =>
    by_cases hg : q.2 = .success ∧ w.impl.userDisconnect = false
    · exact .inl (hattempt a (if_pos hg))
    · rw [onReconnectWait, if_neg hg]
      exact .inr (.inl (aside_of_eq rfl rfl rfl rfl rfl rfl))
  | idleWait q =>
    unfold onIdleWait
    split_ifs with hc
    · refine .inl (Nat.lt_of_lt_of_eq (Nat.lt_succ_self _) ?_)
      rw [hc.2.2]
      exact (handleConnectionLoss_closes (emitError _
        { w with idleTimer := w.idleTimer.dequeue q })).2.symm
    · exact .inr (.inl (aside_of_eq rfl rfl rfl rfl rfl rfl))
  | voiceWait q =>
    have hset : Aside w { w with voiceTimer := w.voiceTimer.dequeue q } :=
      aside_of_eq rfl rfl rfl rfl rfl rfl
    unfold onVoiceWait
    split_ifs
    · refine .inr (.inl (hset.trans (Aside.trans ?_ (aside_log _ rfl))))
      exact aside_of_eq rfl rfl rfl rfl rfl rfl
    · exact .inr (.inl hset)

theorem Unread.portion_eq_none (hn : w.Unread) (he : w.step e = some w') :
    e.portion w.impl.generation = none := by
  cases happens_of_step he with
  | complete op c hop =>
    refine if_neg ?_
    rintro ⟨hg, hread, -⟩
    cases hread.symm.trans (hn op hop hg)
  | _ => rfl

end Steps

/-- The bytes an event brings to the connection in place. -/
def intake (w : World) (e : Event) : Option (ℕ × Bytes) :=
  (e.portion w.impl.generation).map (Prod.mk w.impl.generation)

/-- All that the reads of a run brought to a connection while it was in place. -/
def inflow (o : Options) (es : List Event) (g : ℕ) : Bytes :=
  (ofGeneration g (acts World.step intake (ofOptions o) es)).flatten

/-- What was received on the connections so far is what their bytes hold, and
the loop of the one in place is where they leave it. -/
structure Digested (o : Options) (es : List Event) (w : World) : Prop where
  past : ∀ g < w.impl.generation,
    w.received g = (unframe maxFrameSize (inflow o es g)).payloads
  now : w.Unread ∧ inflow o es w.impl.generation = [] ∧ w.received w.impl.generation = [] ∨
    ∃ ph ps, Awaits w.impl.generation ph w ∧ w.received w.impl.generation = ps ∧
      ∀ more, unframe maxFrameSize (inflow o es w.impl.generation ++ more) =
        (resume maxFrameSize ph more).prepend ps
  future : ∀ g, w.impl.generation < g → inflow o es g = []

section Digest

variable {o : Options} {es : List Event} {w w' : World} {e : Event}

theorem inflow_snoc (h : Reaches o es w) (he : w.step e = some w') (g : ℕ) :
    inflow o (es ++ [e]) g = inflow o es g ++
      if w.impl.generation = g then (e.portion g).getD [] else [] := by
  rw [inflow, h.acts_append, acts_cons he, ofGeneration_append, List.flatten_append]
  refine congrArg (inflow o es g ++ ·) ?_
  by_cases hg : w.impl.generation = g
  · cases hp : e.portion g with
    | none => simp [acts, intake, ofGeneration, hg, hp]
    | some portion => simp [acts, intake, ofGeneration, hg, hp]
  · refine Eq.trans ?_ (if_neg hg).symm
    refine congrArg List.flatten (ofGeneration_eq_nil ?_)
    intro x hx
    have hx : x ∈ (intake w e).toList := by simpa [acts, he] using hx
    obtain ⟨portion, -, rfl⟩ := Option.map_eq_some_iff.mp (Option.mem_toList.mp hx)
    exact hg

theorem unframe_nil : (unframe maxFrameSize []).payloads = [] := by
  have hv : (Phase.length []).Valid maxFrameSize := ⟨by simp, by simp⟩
  rw [← resume_boundary, resume_nil hv]

theorem Digested.received (h : Digested o es w) (hw : w.Bounded) (g : ℕ) :
    w.received g = (unframe maxFrameSize (inflow o es g)).payloads := by
  obtain hlt | rfl | hgt := lt_trichotomy g w.impl.generation
  · exact h.past g hlt
  · obtain ⟨-, hin, hr⟩ | ⟨ph, ps, ha, hr, hres⟩ := h.now
    · rw [hr, hin, unframe_nil]
    · have hend := hres []
      rw [List.append_nil, resume_nil ha.valid] at hend
      rw [hr, hend]
      exact (List.append_nil _).symm
  · rw [h.future g hgt, unframe_nil]
    exact hw.frames_eq_nil hgt _

theorem Digested.renew (h : Digested o es w) (hw : w.Inv) (hr : Reaches o es w)
    (he : w.step e = some w') (hg : w.impl.generation < w'.impl.generation)
    (hlast : w.received w.impl.generation =
      (unframe maxFrameSize (inflow o (es ++ [e]) w.impl.generation)).payloads) :
    Digested o (es ++ [e]) w' := by
  obtain ⟨hgen, hsame, hunread⟩ := hw.renews he hg
  have hin : ∀ g, w.impl.generation ≠ g → inflow o (es ++ [e]) g = inflow o es g := by
    intro g hne
    rw [inflow_snoc hr he, if_neg hne, List.append_nil]
  refine ⟨?_, .inl ⟨hunread, ?_, ?_⟩, ?_⟩
  · intro g hlt
    rw [hsame]
    by_cases heq : w.impl.generation = g
    · rw [← heq, hlast]
    · rw [hin g heq, h.past g (by omega)]
  · rw [hgen, hin _ (Nat.lt_succ_self _).ne, h.future _ (Nat.lt_succ_self _)]
  · rw [hgen, hsame]
    exact hw.frames_eq_nil (Nat.lt_succ_self _) _
  · intro g hlt
    rw [hin g (by omega), h.future g (by omega)]

theorem Digested.stay (h : Digested o es w) (hw : w.Inv) (hr : Reaches o es w)
    (he : w.step e = some w') (hg : w'.impl.generation = w.impl.generation)
    (hnow : w'.Unread ∧ inflow o (es ++ [e]) w.impl.generation = [] ∧
        w'.received w.impl.generation = [] ∨
      ∃ ph ps, Awaits w.impl.generation ph w' ∧ w'.received w.impl.generation = ps ∧
        ∀ more, unframe maxFrameSize (inflow o (es ++ [e]) w.impl.generation ++ more) =
          (resume maxFrameSize ph more).prepend ps) :
    Digested o (es ++ [e]) w' := by
  have hin : ∀ g, w.impl.generation ≠ g → inflow o (es ++ [e]) g = inflow o es g := by
    intro g hne
    rw [inflow_snoc hr he, if_neg hne, List.append_nil]
  refine ⟨?_, hg ▸ hnow, ?_⟩
  · intro g hlt
    rw [hg] at hlt
    rw [hin g hlt.ne', ← h.past g hlt]
    exact hw.received_other he hlt.ne
  · intro g hlt
    rw [hg] at hlt
    rw [hin g hlt.ne, h.future g hlt]

theorem Digested.step (h : Digested o es w) (hr : Reaches o es w) (he : w.step e = some w') :
    Digested o (es ++ [e]) w' := by
  have hw := inv_of_reaches hr
  have hin := inflow_snoc hr he w.impl.generation
  rw [if_pos rfl] at hin
  cases hp : e.portion w.impl.generation with
  | none =>
    rw [hp, Option.getD_none, List.append_nil] at hin
    have hrenew : w.impl.generation < w'.impl.generation → Digested o (es ++ [e]) w' := by
      intro hg
      exact h.renew hw hr he hg (by rw [hin]; exact h.received hw.toBounded _)
    obtain ⟨hu, hnil, hrec⟩ | ⟨ph, ps, ha, hrec, hres⟩ := h.now
    · rw [hnil] at hin
      obtain hg | hc | ⟨ha, hsame⟩ := hu.step hw he
      · exact hrenew hg
      · exact h.stay hw hr he hc.generation
          (.inl ⟨hc.unread hu, hin, (hc.received_eq _).trans hrec⟩)
      · refine h.stay hw hr he ha.generation (.inr ⟨_, _, ha, hsame.trans hrec, ?_⟩)
        intro more
        rw [hin]
        rfl
    · obtain hg | hc := ha.step_other hw hp he
      · exact hrenew hg
      · refine h.stay hw hr he hc.generation
          (.inr ⟨ph, ps, ha.calm hc, (hc.received_eq _).trans hrec, ?_⟩)
        rwa [hin]
  | some portion =>
    rw [hp, Option.getD_some] at hin
    obtain ⟨hu, -, -⟩ | ⟨ph, ps, ha, hrec, hres⟩ := h.now
    · rw [hu.portion_eq_none he] at hp
      cases hp
    · obtain ⟨hlen, heq⟩ := ha.portion_eq hw hp he
      cases hadv : advance maxFrameSize ph portion with
      | error s =>
        have hgone := ha.complete_error hw hlen hadv
        rw [← heq] at hgone
        refine h.renew hw hr he (by rw [hgone.generation]; exact Nat.lt_succ_self _) ?_
        have hend := hres portion
        have hstop := resume_error ha.valid hlen hadv []
        rw [List.append_nil] at hstop
        rw [hin, hend, hstop, hrec]
        exact (List.append_nil _).symm
      | ok next =>
        obtain ⟨ps', ph'⟩ := next
        obtain ⟨ha', hrec'⟩ := ha.complete_ok hlen hadv
        rw [← heq] at ha' hrec'
        refine h.stay hw hr he ha'.generation (.inr ⟨ph', ps ++ ps', ha', by rw [hrec', hrec], ?_⟩)
        intro more
        rw [hin, List.append_assoc, hres, resume_ok ha.valid hlen hadv, Outcome.prepend_prepend]

theorem digested_of_reaches (h : Reaches o es w) : Digested o es w := by
  refine h.history ?_ fun es t e u ht hd he ↦ hd.step ht he
  refine ⟨fun g hg ↦ absurd hg (Nat.not_lt_zero g), .inl ⟨?_, rfl, rfl⟩, fun _ _ ↦ rfl⟩
  intro op hop
  cases hop

theorem tagged_of_received (h : Reaches o es w) {n : ℕ} (hn : w.impl.generation < n) :
    w.tagged Record.handled = (List.range n).flatMap fun g ↦ (w.received g).map (Prod.mk g) := by
  have hordered : (w.dialogue.tagged Record.handled).Pairwise (fun x y ↦ x.1 ≤ y.1) ∧
      ∀ x ∈ w.dialogue.tagged Record.handled, x.1 ≤ w.dialogue.generation := by
    refine dialogue_of_reaches (P := fun d ↦ (d.tagged Record.handled).Pairwise
      (fun x y ↦ x.1 ≤ y.1) ∧ ∀ x ∈ d.tagged Record.handled, x.1 ≤ d.generation) h ?_ ?_ ?_
    · exact ⟨.nil, fun x hx ↦ by cases hx⟩
    · intro d e d' ⟨hd, hle⟩ ht
      obtain ⟨hg, hsame | ⟨m, hm⟩⟩ := ht.handled
      · rw [hg, hsame]
        exact ⟨hd, hle⟩
      · rw [hg, hm]
        refine ⟨List.pairwise_append.mpr ⟨hd, List.pairwise_singleton .., ?_⟩, ?_⟩
        · intro x hx y hy
          rw [List.mem_singleton.mp hy]
          exact hle x hx
        · exact List.forall_mem_append.mpr ⟨hle, fun y hy ↦ by rw [List.mem_singleton.mp hy]⟩
    · intro d live ⟨hd, hle⟩
      exact ⟨hd, fun x hx ↦ (hle x hx).trans (Nat.le_succ _)⟩
  rw [tagged_handled] at hordered
  refine (flatMap_ofGeneration hordered.1 fun x hx ↦ (hordered.2 x hx).trans_lt hn).symm.trans ?_
  refine List.flatMap_congr fun g _ ↦ ?_
  rw [received, frames_eq_ofGeneration]

theorem known_of_tagged {w₁ w₂ : World} {es₁ es₂ : List Event} (h₁ : Reaches o es₁ w₁)
    (h₂ : Reaches o es₂ w₂) (hsame : w₂.tagged Record.handled = w₁.tagged Record.handled) :
    w₂.impl.knowledge = w₁.impl.knowledge ∧ w₂.impl.activeFeatures = w₁.impl.activeFeatures ∧
      w₂.impl.voiceEnabled = w₁.impl.voiceEnabled ∧
      w₂.tagged (Record.queuedUnder Dialogue.replyNumbers) =
        w₁.tagged (Record.queuedUnder Dialogue.replyNumbers) := by
  have hheard : w₂.heard = w₁.heard := congrArg (List.map Prod.snd) hsame
  have hqueued : ∀ w : World, w.dialogue.tagged (Record.queuedUnder Dialogue.replyNumbers) =
      w.tagged (Record.queuedUnder Dialogue.replyNumbers) :=
    fun w ↦ tagged_dialogue Record.queuedUnder_of_not_isSaid
  have hspoken : w₂.dialogue.tagged Record.handled = w₁.dialogue.tagged Record.handled := by
    rw [tagged_handled, tagged_handled, hsame]
  have htold : w₂.dialogue.heard = w₁.dialogue.heard := congrArg (List.map Prod.snd) hspoken
  have ha₁ := Dialogue.answered_of_reaches h₁
  have ha₂ := Dialogue.answered_of_reaches h₂
  refine ⟨?_, ?_, ?_, ?_⟩
  · rw [knowledge_of_reaches h₂, knowledge_of_reaches h₁, hheard]
  · exact ha₂.activeFeatures.trans (by rw [htold]; exact ha₁.activeFeatures.symm)
  · exact ha₂.voiceEnabled.trans (by rw [htold]; exact ha₁.voiceEnabled.symm)
  · rw [← hqueued, ← hqueued, ha₂.replies, ha₁.replies, hspoken]

theorem received_of_reaches (h : Reaches o es w) (g : ℕ) :
    w.received g = (receiveAll (inflow o es g)).1 := by
  have hall : unframe maxFrameSize (inflow o es g) = _ := unframe_receiveAll (inflow o es g)
  rw [(digested_of_reaches h).received (inv_of_reaches h).toBounded g, hall]

/-- The messages of each connection are those of the bytes it brought, cut as
the blocking receiver cuts them, and the loop waits where that one runs out.
Runs whose connections brought the same bytes heard, learned and answered the
same, however the reads came between the other events. -/
theorem heard_from_streams (h : Reaches o es w) :
    (∀ g, w.received g = (receiveAll (inflow o es g)).1) ∧
    (∀ n, w.impl.generation < n → w.tagged Record.handled = (List.range n).flatMap fun g ↦
      ((receiveAll (inflow o es g)).1.map (Prod.mk g))) ∧
    (w.Unread ∨ w.StoppedFor w.impl.generation
      (receiveAll (inflow o es w.impl.generation)).2.1.stop) ∧
    ∀ es' w', Reaches o es' w' → (∀ g, inflow o es' g = inflow o es g) →
      w'.tagged Record.handled = w.tagged Record.handled ∧
      w'.impl.knowledge = w.impl.knowledge ∧
      w'.impl.activeFeatures = w.impl.activeFeatures ∧
      w'.impl.voiceEnabled = w.impl.voiceEnabled ∧
      w'.tagged (Record.queuedUnder Dialogue.replyNumbers) =
        w.tagged (Record.queuedUnder Dialogue.replyNumbers) := by
  have htagged : ∀ {es w}, Reaches o es w → ∀ n, w.impl.generation < n →
      w.tagged Record.handled = (List.range n).flatMap fun g ↦
        ((receiveAll (inflow o es g)).1.map (Prod.mk g)) := by
    intro es w h n hn
    rw [tagged_of_received h hn]
    simp only [received_of_reaches h]
  refine ⟨received_of_reaches h, htagged h, ?_, ?_⟩
  · obtain ⟨hu, -, -⟩ | ⟨ph, ps, ha, -, hres⟩ := (digested_of_reaches h).now
    · exact .inl hu
    · have hend := hres []
      have hall : unframe maxFrameSize (inflow o es w.impl.generation) = _ :=
        unframe_receiveAll (inflow o es w.impl.generation)
      rw [List.append_nil, resume_nil ha.valid, hall] at hend
      have hstop : (receiveAll (inflow o es w.impl.generation)).2.1.stop = ph.stop :=
        congrArg Outcome.stop hend
      rw [hstop]
      exact .inr ha.stoppedFor
  · intro es' w' h' hin
    have hsame : w'.tagged Record.handled = w.tagged Record.handled := by
      have hlt : w.impl.generation < max w.impl.generation w'.impl.generation + 1 := by omega
      have hlt' : w'.impl.generation < max w.impl.generation w'.impl.generation + 1 := by omega
      rw [htagged h' _ hlt', htagged h _ hlt]
      simp only [hin]
    exact ⟨hsame, known_of_tagged h h' hsame⟩

end Digest

theorem heard_from_streams_key_between :
    let start := [.connect {}] ++ Event.handshakes 1
    let message : Bytes := [0xC2, 0x02, 0x02, 0x08, 0x01]
    let between : List Event := [.complete ⟨1, .readLength⟩ { bytes := [5] }, .sendKey 3 .short,
      .complete ⟨1, .readBody 5⟩ { bytes := message }]
    ∃ w w', Reaches {} (start ++ Event.reads 1 message) w ∧ Reaches {} (start ++ between) w' ∧
      w'.impl.knowledge = w.impl.knowledge ∧ w.impl.isOn = true := by
  intro start message between
  have h : Reaches {} (start ++ Event.reads 1 message) _ := run_of_isSome (by decide +kernel)
  have h' : Reaches {} (start ++ between) _ := run_of_isSome (by decide +kernel)
  have hin : acts World.step intake (ofOptions {}) (start ++ between) =
      acts World.step intake (ofOptions {}) (start ++ Event.reads 1 message) := by decide +kernel
  refine ⟨_, _, h, h', ((heard_from_streams h).2.2.2 _ _ h' ?_).2.1, by decide +kernel⟩
  intro g
  rw [inflow, inflow, hin]

end World

end AndroidTvRemote
