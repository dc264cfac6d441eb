import AndroidTvRemote.Dialogue

namespace AndroidTvRemote

open Wire Protocol SteadyTimer Runs

def voiceSession (session : Int32 × List Bytes) : List Bytes :=
  remoteVoiceBegin session.1 :: session.2.map (remoteVoicePayload session.1)

/-- Voice frames in order, and the session they leave open. -/
inductive Bracketed : List Bytes → Option Int32 → Prop
  | nil : Bracketed [] none
  | opened {l : List Bytes} (s : Int32) (h : Bracketed l none) :
      Bracketed (l ++ [remoteVoiceBegin s]) (some s)
  | payload {l : List Bytes} {s : Int32} (samples : Bytes) (h : Bracketed l (some s)) :
      Bracketed (l ++ [remoteVoicePayload s samples]) (some s)
  | closed {l : List Bytes} {s : Int32} (h : Bracketed l (some s)) :
      Bracketed (l ++ [remoteVoiceEnd s]) none

theorem Bracketed.shape {l : List Bytes} {o : Option Int32} (h : Bracketed l o) :
    ∃ (sessions : List (Int32 × List Bytes)) (last : Option (Int32 × List Bytes)),
      l = sessions.flatMap (fun s ↦ voiceSession s ++ [remoteVoiceEnd s.1]) ++
        last.elim [] voiceSession ∧ last.map Prod.fst = o := by
  induction h with
  | nil => exact ⟨[], none, rfl, rfl⟩
  | opened s _ ih =>
    obtain ⟨sessions, last, rfl, hlast⟩ := ih
    obtain rfl := Option.map_eq_none_iff.mp hlast
    exact ⟨sessions, some (s, []), by simp [voiceSession], rfl⟩
  | payload samples _ ih =>
    obtain ⟨sessions, last, rfl, hlast⟩ := ih
    obtain ⟨⟨s, ps⟩, rfl, rfl⟩ := Option.map_eq_some_iff.mp hlast
    exact ⟨sessions, some (s, ps ++ [samples]), by simp [voiceSession], rfl⟩
  | closed _ ih =>
    obtain ⟨sessions, last, rfl, hlast⟩ := ih
    obtain ⟨⟨s, ps⟩, rfl, rfl⟩ := Option.map_eq_some_iff.mp hlast
    exact ⟨sessions ++ [(s, ps)], none, by simp [voiceSession], rfl⟩

namespace Dialogue

/-- The voice frames queued on a connection, by their field numbers. -/
def voiceFrames (g : ℕ) (d : Dialogue) : List Bytes := d.frames (Record.queuedUnder [30, 31, 32]) g

/-- The voice frames of every connection are in order, and those of the current
one leave open the session that is in progress. -/
structure Voiced (d : Dialogue) : Prop where
  bracketed : ∀ g, ∃ s, Bracketed (d.voiceFrames g) s ∧ (g = d.generation → s = d.voiceSessionId)
  fresh : ∀ g > d.generation, d.voiceFrames g = []
  waiting : d.voiceStarting = true → d.voiceSessionId = none

theorem Voiced.of_eq {d d' : Dialogue} (h : d.Voiced) (hf : ∀ g, d'.voiceFrames g = d.voiceFrames g)
    (hg : d'.generation = d.generation) (hs : d'.voiceSessionId = d.voiceSessionId)
    (hw : d'.voiceStarting = true → d.voiceSessionId = none) : d'.Voiced := by
  refine ⟨?_, ?_, ?_⟩
  · intro g
    rw [hf, hg, hs]
    exact h.bracketed g
  · intro g hlt
    rw [hg] at hlt
    rw [hf]
    exact h.fresh g hlt
  · rw [hs]
    exact hw

theorem Voiced.extend {d d' : Dialogue} {frame : Bytes} (h : d.Voiced)
    (hf : ∀ g, d'.voiceFrames g =
      d.voiceFrames g ++ (if d.generation = g then some frame else none).toList)
    (hg : d'.generation = d.generation)
    (hb : Bracketed (d.voiceFrames d.generation) d.voiceSessionId →
      Bracketed (d.voiceFrames d.generation ++ [frame]) d'.voiceSessionId)
    (hw : d'.voiceStarting = true → d'.voiceSessionId = none) : d'.Voiced := by
  refine ⟨?_, ?_, hw⟩
  · intro g
    obtain ⟨s, hs, hcur⟩ := h.bracketed g
    rw [hf]
    by_cases hd : d.generation = g
    · subst hd
      rw [hcur rfl] at hs
      rw [if_pos rfl]
      exact ⟨_, hb hs, fun _ ↦ rfl⟩
    · rw [if_neg hd, Option.toList_none, List.append_nil]
      refine ⟨s, hs, ?_⟩
      intro he
      exact absurd (he.trans hg).symm hd
  · intro g hlt
    rw [hg] at hlt
    rw [hf, h.fresh g hlt, if_neg (by omega)]
    rfl

section Turns

variable {d : Dialogue} (h : d.Voiced)

theorem voiceFrames_send {m : Bytes} (hl : d.live = true)
    (hm : Record.queuedUnder [30, 31, 32] (.queued m) = some m) (g : ℕ) :
    (d.send m).voiceFrames g =
      d.voiceFrames g ++ (if d.generation = g then some m else none).toList := by
  rw [send_of_live hl, voiceFrames, frames_say, hm]
  rfl

include h

theorem Voiced.say {r : Record} (hr : Record.queuedUnder [30, 31, 32] r = none) :
    (d.say r).Voiced := h.of_eq (frames_say_none hr) rfl rfl h.waiting

theorem Voiced.send {m : Bytes} (hm : Record.queuedUnder [30, 31, 32] (.queued m) = none) :
    (d.send m).Voiced := by
  unfold Dialogue.send
  split
  · exact h.say hm
  · exact h

theorem Voiced.begins (hl : d.live = true) (hv : d.voiceStarting = true) (s : Int32) :
    ({ d with voiceStarting := false, voiceSessionId := some s }.send
      (remoteVoiceBegin s)).Voiced := by
  have hnone := h.waiting hv
  have hsend := voiceFrames_send (d := { d with
      voiceStarting := false
      voiceSessionId := some s }) (m := remoteVoiceBegin s) hl
    (Record.queuedUnder_messageField _ _ _)
  rw [send_of_live (by exact hl)] at hsend ⊢
  refine h.extend hsend rfl ?_ (by simp [Dialogue.say])
  intro hb
  rw [hnone] at hb
  exact .opened s hb

theorem Voiced.sends (hl : d.live = true) {s : Int32} (hs : d.voiceSessionId = some s)
    (samples : Bytes) : (d.send (remoteVoicePayload s samples)).Voiced := by
  have hsend := voiceFrames_send hl (m := remoteVoicePayload s samples)
    (Record.queuedUnder_messageField _ _ _)
  rw [send_of_live hl] at hsend ⊢
  refine h.extend hsend rfl ?_ h.waiting
  intro hb
  have hopen : (d.say (.queued (remoteVoicePayload s samples))).voiceSessionId = some s := hs
  rw [hs] at hb
  rw [hopen]
  exact .payload samples hb

theorem Voiced.ends (hl : d.live = true) {s : Int32} (hs : d.voiceSessionId = some s) :
    { d.send (remoteVoiceEnd s) with voiceSessionId := none }.Voiced := by
  have hsend := voiceFrames_send hl (m := remoteVoiceEnd s) (Record.queuedUnder_messageField _ _ _)
  rw [send_of_live hl] at hsend ⊢
  refine h.extend hsend rfl ?_ (fun _ ↦ rfl)
  intro hb
  rw [hs] at hb
  exact .closed hb

theorem Voiced.receive (hl : d.live = true) (m : Bytes) : (d.receive m).Voiced := by
  have hsay : (d.say (.received m)).Voiced := h.say rfl
  have hears := d.hears m
  generalize d.receive m = d' at hears
  cases hears with
  | configure hk features hf =>
    have hset : { d.say (.received m) with
        activeFeatures := features
        voiceEnabled := features &&& featureVoice != 0 }.Voiced :=
      hsay.of_eq (fun _ ↦ rfl) rfl rfl hsay.waiting
    exact hset.send (Record.queuedUnder_messageField _ _ _)
  | setActive | ping => exact hsay.send (Record.queuedUnder_messageField _ _ _)
  | voiceBegin hk hv => exact (hsay.begins hl hv _).say rfl
  | other => exact hsay

theorem Voiced.turn {e : Event} {d' : Dialogue} (ht : Turn d e d') : d'.Voiced := by
  cases ht with
  | rest => exact h
  | receive m hl => exact h.receive hl m
  | send hm hl =>
    exact h.send (hm.not_queuedUnder rfl rfl rfl)
  | startVoice hl hv hn =>
    have hset : { d with voiceStarting := true }.Voiced :=
      h.of_eq (fun _ ↦ rfl) rfl rfl fun _ ↦ hn
    exact hset.send (Record.queuedUnder_messageField _ _ _)
  | @voiceData s hl hv pcm =>
    refine (sendAll_induction (P := fun d ↦ d.Voiced ∧ d.live = true ∧ d.voiceSessionId = some s)
      ?_ ⟨h, hl, hv⟩).1
    · intro d m hm ⟨hd, hl, hv⟩
      obtain ⟨samples, rfl⟩ := World.mem_voicePayloads hm
      refine ⟨hd.sends hl hv samples, ?_⟩
      rw [send_of_live hl]
      exact ⟨hl, hv⟩
  | stopVoice hl =>
    have hset : { d with voiceStarting := false }.Voiced :=
      h.of_eq (fun _ ↦ rfl) rfl rfl fun hw ↦ by cases hw
    cases hv : d.voiceSessionId with
    | none =>
      rw [stopVoice_none hv]
      exact hset
    | some s =>
      rw [stopVoice_some hv]
      exact (hset.ends (hl (by rw [hv]; rfl)) hv).say rfl
  | voiceTimeout => exact h.of_eq (fun _ ↦ rfl) rfl rfl fun hw ↦ by cases hw

theorem Voiced.close (live : Bool) : (d.close live).Voiced := by
  refine ⟨?_, ?_, fun _ ↦ rfl⟩
  · intro g
    by_cases hg : g = d.generation + 1
    · refine ⟨none, ?_, fun _ ↦ rfl⟩
      have hnil : (d.close live).voiceFrames g = [] := h.fresh g (by omega)
      rw [hnil]
      exact .nil
    · obtain ⟨s, hs, -⟩ := h.bracketed g
      exact ⟨s, hs, fun he ↦ absurd he hg⟩
  · intro g hlt
    exact h.fresh g (Nat.lt_of_succ_lt hlt)

end Turns

theorem Turn.waiting {d d' : Dialogue} {e : Event} (h : d.Voiced) (ht : Turn d e d')
    (hw : d'.voiceStarting = true) :
    d.voiceStarting = true ∧ d'.generation = d.generation ∧
        (∀ g, d'.voiceFrames g = d.voiceFrames g) ∨
      e = .startVoice ∧ d.live = true ∧ d' = d.startVoice := by
  cases ht with
  | rest => exact .inl ⟨hw, rfl, fun _ ↦ rfl⟩
  | receive m hl =>
    have hears := d.hears m
    generalize d.receive m = d' at hears hw
    have hsay : ∀ g, (d.say (.received m)).voiceFrames g = d.voiceFrames g :=
      frames_say_none rfl
    cases hears with
    | configure hk features hf =>
      rw [send_voiceStarting] at hw
      refine .inl ⟨hw, send_generation _ _, fun g ↦ ?_⟩
      exact (frames_send_none (Record.queuedUnder_messageField _ _ _) g).trans (hsay g)
    | setActive | ping =>
      rw [send_voiceStarting] at hw
      refine .inl ⟨hw, send_generation _ _, fun g ↦ ?_⟩
      exact (frames_send_none (Record.queuedUnder_messageField _ _ _) g).trans (hsay g)
    | voiceBegin hk hv =>
      cases hw.symm.trans (send_voiceStarting _ _)
    | other => exact .inl ⟨hw, rfl, hsay⟩
  | send hm hl =>
    rw [send_voiceStarting] at hw
    refine .inl ⟨hw, send_generation _ _, fun g ↦ frames_send_none ?_ g⟩
    exact hm.not_queuedUnder rfl rfl rfl
  | startVoice hl => exact .inr ⟨rfl, hl, rfl⟩
  | @voiceData s hl hv pcm =>
    have hkeeps : (d.sendAll (World.voicePayloads s pcm 0)).voiceStarting = d.voiceStarting := by
      refine sendAll_induction (P := fun d' ↦ d'.voiceStarting = d.voiceStarting) ?_ rfl
      intro d' m _ hd
      exact (send_voiceStarting d' m).trans hd
    cases hv.symm.trans (h.waiting (hkeeps.symm.trans hw))
  | stopVoice =>
    cases hv : d.voiceSessionId with
    | none =>
      rw [stopVoice_none hv] at hw
      cases hw
    | some s =>
      rw [stopVoice_some hv] at hw
      cases hw.symm.trans (send_voiceStarting { d with voiceStarting := false } _)
  | voiceTimeout => cases hw

theorem Turn.voiceBegin {d d' : Dialogue} {e : Event} (ht : Turn d e d') :
    d'.tagged (Record.queuedUnder [30]) = d.tagged (Record.queuedUnder [30]) ∨
      ∃ m, (parseRemote m).kind = .voiceBegin ∧ d.voiceStarting = true ∧
        d'.said = d.said ++ [(d.generation, .received m),
          (d.generation, .queued (remoteVoiceBegin (parseRemote m).voiceSessionId)),
          (d.generation, .callback (.voiceStarted (parseRemote m).voiceSessionId))] := by
  cases ht with
  | rest | voiceTimeout => exact .inl rfl
  | receive m hl =>
    have hears := d.hears m
    generalize d.receive m = d' at hears
    have hsay : (d.say (.received m)).tagged (Record.queuedUnder [30]) =
        d.tagged (Record.queuedUnder [30]) := tagged_say_none rfl
    cases hears with
    | configure | setActive | ping =>
      exact .inl ((tagged_send_none (Record.queuedUnder_messageField _ _ _)).trans hsay)
    | voiceBegin hk hv =>
      refine .inr ⟨m, hk, hv, ?_⟩
      rw [send_of_live (by exact hl)]
      simp [Dialogue.say]
    | other => exact .inl hsay
  | send hm hl =>
    exact .inl (tagged_send_none (hm.not_queuedUnder rfl rfl rfl))
  | startVoice => exact .inl (tagged_send_none (Record.queuedUnder_messageField _ _ _))
  | voiceData hl hv pcm =>
    refine .inl (sendAll_induction (P := fun d' ↦ d'.tagged (Record.queuedUnder [30]) =
      d.tagged (Record.queuedUnder [30])) ?_ rfl)
    intro d' m hm hd
    obtain ⟨samples, rfl⟩ := World.mem_voicePayloads hm
    exact (tagged_send_none (Record.queuedUnder_messageField _ _ _)).trans hd
  | stopVoice =>
    cases hv : d.voiceSessionId with
    | none =>
      rw [stopVoice_none hv]
      exact .inl rfl
    | some s =>
      rw [stopVoice_some hv]
      exact .inl ((tagged_say_none rfl).trans
        (tagged_send_none (Record.queuedUnder_messageField _ _ _)))

theorem voiced_of_reaches {o : Options} {es : List Event} {w : World} (h : Reaches o es w) :
    w.dialogue.Voiced :=
  World.dialogue_of_reaches h ⟨fun _ ↦ ⟨none, .nil, fun _ ↦ rfl⟩, fun _ _ ↦ rfl, fun _ ↦ rfl⟩
    (fun _ _ _ hd ht ↦ hd.turn ht) fun _ live hd ↦ hd.close live

end Dialogue

/-- The events that end the wait for a voice session: the application stops it,
or its timer expires. -/
def Event.endsWait : Event → Bool
  | stopVoice => true
  | voiceWait q => q.2 = .success
  | _ => false

namespace World

theorem step_endsWait {w w' : World} {e : Event} (he : w.step e = some w')
    (hw : e.endsWait = true) : w'.impl.voiceStarting = false := by
  cases happens_of_step he with
  | stopVoice =>
    have hstop : w.stopVoice.impl.voiceStarting = w.dialogue.stopVoice.voiceStarting :=
      congrArg Dialogue.voiceStarting dialogue_stopVoice
    rw [hstop]
    cases hv : w.dialogue.voiceSessionId with
    | none => rw [Dialogue.stopVoice_none hv]
    | some s =>
      rw [Dialogue.stopVoice_some hv]
      exact Dialogue.send_voiceStarting { w.dialogue with voiceStarting := false } _
  | voiceWait q =>
    have hq : q.2 = .success := of_decide_eq_true hw
    unfold onVoiceWait
    split_ifs with hc
    · rfl
    · simpa [hq] using hc
  | _ => cases hw

/-- A `startVoice` has queued its key press on the current connection, and since
then it was not stopped, has not timed out and has led to no session. -/
def StillWaiting (o : Options) (es : List Event) (w : World) : Prop :=
  ∃ pre mid u u', es = pre ++ .startVoice :: mid ∧ Reaches o pre u ∧
    u.step .startVoice = some u' ∧ Run World.step u' mid w ∧
    w.impl.generation = u.impl.generation ∧
    u'.said = u.said ++ [(u.impl.generation, .queued (remoteKey keyCodeSearch .short))] ∧
    (∀ e ∈ mid, e.endsWait = false) ∧
    ∀ g, w.dialogue.voiceFrames g = u.dialogue.voiceFrames g

theorem stillWaiting_of_reaches {o : Options} {es : List Event} {w : World} (h : Reaches o es w)
    (hw : w.impl.voiceStarting = true) : StillWaiting o es w := by
  revert hw
  refine h.history (H := fun es w ↦ w.impl.voiceStarting = true → StillWaiting o es w)
    (fun hw ↦ by cases hw) ?_
  intro es t e u ht ih he hw
  have hkeeps : e.endsWait = false := by
    rw [Bool.eq_false_iff]
    intro hends
    cases hw.symm.trans (step_endsWait he hends)
  have hspeaks := (inv_of_reaches ht).speaks he
  cases hspeaks with
  | closes _ live hd => cases hw.symm.trans (congrArg Dialogue.voiceStarting hd)
  | turn _ hturn =>
    rcases hturn.waiting (Dialogue.voiced_of_reaches ht) hw with
      ⟨hv, hg, hf⟩ | ⟨rfl, hl, hd⟩
    · obtain ⟨pre, mid, v, v', rfl, hv₀, hstart, hmid, hgen, hsaid, hno, hframes⟩ := ih hv
      refine ⟨pre, mid ++ [e], v, v', by simp, hv₀, hstart, hmid.trans (.one he),
        hg.trans hgen, hsaid, ?_, fun g ↦ (hf g).trans (hframes g)⟩
      intro e' he'
      rcases List.mem_append.mp he' with he' | he'
      · exact hno e' he'
      · rw [List.mem_singleton.mp he']
        exact hkeeps
    · have hsend : u.dialogue = { t.dialogue with voiceStarting := true }.say
          (.queued (remoteKey keyCodeSearch .short)) :=
        hd.trans (Dialogue.send_of_live (by exact hl) _)
      refine ⟨es, [], t, u, rfl, ht, he, .nil u, congrArg Dialogue.generation hsend,
        congrArg Dialogue.said hsend, by simp, fun g ↦ ?_⟩
      rw [hd]
      exact Dialogue.frames_send_none (Record.queuedUnder_messageField _ _ _) g

theorem said_trace {w w' : World} {l : List (ℕ × Record)} (ht : w'.trace = w.trace ++ l) :
    w'.said = w.said ++ l.filter fun r ↦ r.2.isSaid := by
  rw [said, ht, List.filter_append]
  rfl

/-- A `VoiceBegin` goes out in the step that reads one, and only to end a wait. -/
theorem voiceBegin_answers {o : Options} {es : List Event} {t t' : World} {e : Event}
    {l : List (ℕ × Record)} {g : ℕ} {s : Int32} (ht : Reaches o es t) (he : t.step e = some t')
    (hl : t'.trace = t.trace ++ l) (hs : (g, Record.queued (remoteVoiceBegin s)) ∈ l) :
    (∃ m, (parseRemote m).kind = .voiceBegin ∧ (parseRemote m).voiceSessionId = s ∧
      t'.said = t.said ++ [(t.impl.generation, .received m),
        (t.impl.generation, .queued (remoteVoiceBegin s)),
        (t.impl.generation, .callback (.voiceStarted s))]) ∧ StillWaiting o es t := by
  have hmem : (g, remoteVoiceBegin s) ∈ (l.filter fun r ↦ r.2.isSaid).filterMap
      fun r ↦ (Record.queuedUnder [30] r.2).map (Prod.mk r.1) := by
    refine List.mem_filterMap.mpr ⟨_, List.mem_filter.mpr ⟨hs, rfl⟩, ?_⟩
    rw [remoteVoiceBegin, Record.queuedUnder_messageField]
    rfl
  have htagged : t'.dialogue.tagged (Record.queuedUnder [30]) ≠
      t.dialogue.tagged (Record.queuedUnder [30]) := by
    intro hsame
    rw [Dialogue.tagged, dialogue, said_trace hl, List.filterMap_append] at hsame
    rw [List.append_right_eq_self.mp hsame] at hmem
    cases hmem
  cases (inv_of_reaches ht).speaks he with
  | closes _ live hd => exact absurd (congrArg (Dialogue.tagged _) hd) htagged
  | turn _ hturn =>
    rcases hturn.voiceBegin with hsame | ⟨m, hk, hv, hsaid⟩
    · exact absurd hsame htagged
    · have hnew : l.filter (fun r ↦ r.2.isSaid) = [(t.impl.generation, .received m),
          (t.impl.generation, .queued (remoteVoiceBegin (parseRemote m).voiceSessionId)),
          (t.impl.generation, .callback (.voiceStarted (parseRemote m).voiceSessionId))] :=
        List.append_cancel_left ((said_trace hl).symm.trans hsaid)
      have hself : (g, Record.queued (remoteVoiceBegin s)) ∈ l.filter fun r ↦ r.2.isSaid :=
        List.mem_filter.mpr ⟨hs, rfl⟩
      rw [hnew] at hself
      have hid : (parseRemote m).voiceSessionId = s := by
        simp only [List.mem_cons, Prod.mk.injEq, Record.queued.injEq, reduceCtorEq, and_false,
          List.not_mem_nil, or_false, false_or] at hself
        exact (remoteVoiceBegin_injective hself.2).symm
      rw [hid] at hsaid
      exact ⟨⟨m, hk, hid, hsaid⟩, stillWaiting_of_reaches ht hv⟩

/-- The voice frames of every connection are sessions, each begun and ended on
it, and every session begins with an answer to a `VoiceBegin` that a
`startVoice` on the same connection was waiting for. -/
theorem voice_frames_bracketed {o : Options} {es : List Event} {w : World} (h : Reaches o es w) :
    (∀ g, ∃ (sessions : List (Int32 × List Bytes)) (last : Option (Int32 × List Bytes)),
      w.frames (Record.queuedUnder [30, 31, 32]) g =
        sessions.flatMap (fun s ↦ voiceSession s ++ [remoteVoiceEnd s.1]) ++
          last.elim [] voiceSession ∧
      (g = w.impl.generation → last.map Prod.fst = w.impl.voiceSessionId)) ∧
    ∀ pre e post t t' l g s, es = pre ++ e :: post → Reaches o pre t → t.step e = some t' →
      t'.trace = t.trace ++ l → (g, Record.queued (remoteVoiceBegin s)) ∈ l →
        (∃ m, (parseRemote m).kind = .voiceBegin ∧ (parseRemote m).voiceSessionId = s ∧
          t'.said = t.said ++ [(t.impl.generation, .received m),
            (t.impl.generation, .queued (remoteVoiceBegin s)),
            (t.impl.generation, .callback (.voiceStarted s))]) ∧
        StillWaiting o pre t := by
  refine ⟨?_, fun pre e post t t' l g s _ ht he hl hs ↦ voiceBegin_answers ht he hl hs⟩
  intro g
  have hframes : w.dialogue.voiceFrames g = w.frames (Record.queuedUnder [30, 31, 32]) g :=
    frames_dialogue Record.queuedUnder_of_not_isSaid
  obtain ⟨s, hs, hcur⟩ := (Dialogue.voiced_of_reaches h).bracketed g
  obtain ⟨sessions, last, hshape, hlast⟩ := hs.shape
  exact ⟨sessions, last, hframes ▸ hshape, fun hg ↦ hlast.trans (hcur hg)⟩

theorem voice_frames_bracketed_session :
    ∃ w, Reaches { enableVoice := true }
        (.connect {} :: Event.untilVoice 1 ++ [.stopVoice]) w ∧
      w.frames (Record.queuedUnder [30, 31, 32]) 1 = [remoteVoiceBegin 5, remoteVoiceEnd 5] ∧
      ∃ (sessions : List (Int32 × List Bytes)) (last : Option (Int32 × List Bytes)),
        w.frames (Record.queuedUnder [30, 31, 32]) 1 =
          sessions.flatMap (fun s ↦ voiceSession s ++ [remoteVoiceEnd s.1]) ++
            last.elim [] voiceSession := by
  have h : Reaches { enableVoice := true }
      (.connect {} :: Event.untilVoice 1 ++ [.stopVoice]) _ := run_of_isSome (by decide +kernel)
  obtain ⟨sessions, last, hshape, -⟩ := (voice_frames_bracketed h).1 1
  exact ⟨_, h, by decide +kernel, sessions, last, hshape⟩

end World

end AndroidTvRemote
