import AndroidTvRemote.VoiceFrames

namespace AndroidTvRemote

open Wire Protocol SteadyTimer Runs

/-- Whether a record is a call of `onVoiceStarted` or of `onVoiceStopped`. -/
def Record.voiceCall : Record → Option Bool
  | callback (.voiceStarted _) => some true
  | callback .voiceStopped => some false
  | _ => none

def alternating (n : ℕ) : List Bool := (List.range n).map fun i ↦ decide (i % 2 = 0)

theorem alternating_succ (n : ℕ) :
    alternating (n + 1) = alternating n ++ [decide (n % 2 = 0)] := by
  rw [alternating, List.range_succ, List.map_append]
  rfl

theorem length_alternating (n : ℕ) : (alternating n).length = n := by simp [alternating]

theorem getLast_alternating (n : ℕ) : (alternating n).getLast? = some true ↔ n % 2 = 1 := by
  cases n with
  | zero => simp [alternating]
  | succ n =>
    rw [alternating_succ, List.getLast?_append]
    simp only [List.getLast?_singleton, Option.some_or, Option.some.injEq, decide_eq_true_eq]
    omega

namespace Dialogue

def voiceCalls (d : Dialogue) : List Bool := d.said.filterMap fun r ↦ r.2.voiceCall

theorem voiceCalls_say (d : Dialogue) (r : Record) :
    (d.say r).voiceCalls = d.voiceCalls ++ r.voiceCall.toList := by
  rw [voiceCalls, say, List.filterMap_append]
  cases hr : r.voiceCall with
  | none => simp [voiceCalls, hr]
  | some b => simp [voiceCalls, hr]

theorem voiceCalls_send (d : Dialogue) (m : Bytes) : (d.send m).voiceCalls = d.voiceCalls := by
  unfold send
  split
  · exact (voiceCalls_say d _).trans (List.append_nil _)
  · rfl

def Mirrored (d : Dialogue) : Prop :=
  ∃ n, d.voiceCalls = alternating n ∧ (d.voiceSessionId.isSome = true ↔ n % 2 = 1)

theorem Mirrored.of_eq {d d' : Dialogue} (h : d.Mirrored) (hc : d'.voiceCalls = d.voiceCalls)
    (hs : d'.voiceSessionId = d.voiceSessionId) : d'.Mirrored := by
  obtain ⟨n, hn, hv⟩ := h
  exact ⟨n, hc.trans hn, hs ▸ hv⟩

theorem Mirrored.send {d : Dialogue} (h : d.Mirrored) (m : Bytes) : (d.send m).Mirrored :=
  h.of_eq (voiceCalls_send d m) (send_voiceSessionId d m)

theorem Mirrored.receive {d : Dialogue} (hw : d.Voiced) (h : d.Mirrored) (m : Bytes) :
    (d.receive m).Mirrored := by
  have hsay : (d.say (.received m)).Mirrored :=
    h.of_eq ((voiceCalls_say d _).trans (List.append_nil _)) rfl
  have hears := d.hears m
  generalize d.receive m = d' at hears
  cases hears with
  | configure hk features hf =>
    have hset : { d.say (.received m) with
        activeFeatures := features
        voiceEnabled := features &&& featureVoice != 0 }.Mirrored := hsay.of_eq rfl rfl
    exact hset.send _
  | setActive | ping => exact hsay.send _
  | voiceBegin hk hv =>
    obtain ⟨n, hn, hs⟩ := hsay
    have hnone : (d.say (.received m)).voiceSessionId = none := hw.waiting hv
    have heven : n % 2 = 0 := by
      rw [hnone] at hs
      simp at hs
      omega
    refine ⟨n + 1, ?_, ?_⟩
    · rw [voiceCalls_say, voiceCalls_send, alternating_succ, decide_eq_true heven]
      exact congrArg (· ++ [true]) hn
    · simp only [Dialogue.say, send_voiceSessionId, Option.isSome_some, true_iff]
      omega
  | other => exact hsay

theorem Mirrored.stopVoice {d : Dialogue} (h : d.Mirrored) : d.stopVoice.Mirrored := by
  have hset : { d with voiceStarting := false }.Mirrored := h.of_eq rfl rfl
  cases hv : d.voiceSessionId with
  | none =>
    rw [stopVoice_none hv]
    exact hset
  | some s =>
    obtain ⟨n, hn, hs⟩ := hset.send (remoteVoiceEnd s)
    have hodd : n % 2 = 1 := by
      apply hs.mp
      simp [hv]
    rw [stopVoice_some hv]
    refine ⟨n + 1, ?_, ?_⟩
    · rw [voiceCalls_say, alternating_succ, decide_eq_false (by omega)]
      exact congrArg (· ++ [false]) hn
    · simp only [Dialogue.say, Option.isSome_none, Bool.false_eq_true, false_iff]
      omega

theorem Mirrored.turn {d d' : Dialogue} {e : Event} (hw : d.Voiced) (h : d.Mirrored)
    (ht : Turn d e d') : d'.Mirrored := by
  cases ht with
  | rest => exact h
  | receive m => exact h.receive hw m
  | send => exact h.send _
  | startVoice =>
    have hset : { d with voiceStarting := true }.Mirrored := h.of_eq rfl rfl
    exact hset.send _
  | voiceData => exact sendAll_induction (fun d m _ hd ↦ hd.send m) h
  | stopVoice => exact h.stopVoice
  | voiceTimeout => exact h.of_eq rfl rfl

end Dialogue

namespace World

def voiceCalls (w : World) : List Bool := w.trace.filterMap fun r ↦ r.2.voiceCall

/-- The calls strictly alternate, beginning with `onVoiceStarted`, and a session
is in progress exactly if the last of them was `onVoiceStarted`. -/
def Mirrors (w : World) : Prop :=
  w.voiceCalls = alternating w.voiceCalls.length ∧
    (w.impl.voiceSessionId.isSome = true ↔ w.voiceCalls.getLast? = some true)

theorem voiceCalls_dialogue (w : World) : w.dialogue.voiceCalls = w.voiceCalls := by
  refine (List.filterMap_filter ..).trans (List.filterMap_congr ?_)
  intro r _
  obtain ⟨g, r⟩ := r
  cases r with
  | callback c => cases c <;> rfl
  | _ => rfl

theorem mirrors_iff {w : World} : w.Mirrors ↔ w.dialogue.Mirrored := by
  unfold Mirrors Dialogue.Mirrored
  rw [voiceCalls_dialogue]
  constructor
  · intro h
    obtain ⟨hcalls, hlast⟩ := h
    refine ⟨w.voiceCalls.length, hcalls, ?_⟩
    rw [← getLast_alternating, ← hcalls]
    exact hlast
  · intro h
    obtain ⟨n, hn, hs⟩ := h
    refine ⟨?_, ?_⟩
    · rw [hn, length_alternating]
    · rw [hn, getLast_alternating]
      exact hs

/-- A session that the stream is closed under ends without a word. -/
theorem not_mirrors_of_closes {w w' : World} {e : Event} (hw : w.Inv) (h : w.Mirrors)
    (hs : w.impl.voiceSessionId.isSome = true) (hc : e.closes w = true)
    (he : w.step e = some w') : ¬ w'.Mirrors := by
  intro h'
  cases hw.speaks he with
  | turn hn _ => cases hc.symm.trans hn
  | closes _ live hd =>
    have hcalls : w'.voiceCalls = w.voiceCalls := by
      rw [← voiceCalls_dialogue, ← voiceCalls_dialogue, hd]
      rfl
    have hnone : w'.impl.voiceSessionId = none := congrArg Dialogue.voiceSessionId hd
    have hlast := h'.2.mpr (hcalls ▸ h.2.mp hs)
    rw [hnone] at hlast
    cases hlast

/-- The callbacks mirror the session all along a run exactly when no step of it
closes the stream while a session is in progress. -/
theorem voice_callbacks_mirror_iff {o : Options} {es : List Event} {w : World}
    (h : Reaches o es w) :
    (∀ pre post t, es = pre ++ post → Reaches o pre t → t.Mirrors) ↔
      Along World.step (fun t e ↦ t.impl.voiceSessionId.isSome = true → e.closes t = false)
        (World.ofOptions o) es := by
  constructor
  · intro hall
    refine h.along_or.resolve_right ?_
    intro h'
    obtain ⟨pre, e, post, t, t', hes, ht, he, -, hbad⟩ := h'
    simp only [Classical.not_imp, Bool.not_eq_false] at hbad
    have hmirrors := hall pre (e :: post) t hes ht
    have hmirrors' := hall (pre ++ [e]) post t' (by simp [hes]) (ht.trans (.one he))
    exact not_mirrors_of_closes (inv_of_reaches ht) hmirrors hbad.1 hbad.2 he hmirrors'
  · intro hA pre post t hes ht
    rw [hes] at hA
    rw [mirrors_iff]
    have hinit : (World.ofOptions o).dialogue.Voiced ∧ (World.ofOptions o).dialogue.Mirrored :=
      ⟨Dialogue.voiced_of_reaches (.nil _), 0, rfl, by simp [ofOptions, dialogue, Impl.ofOptions]⟩
    refine (dialogue_along (P := fun d ↦ d.Voiced ∧ d.Mirrored) ht hA.of_append hinit ?_ ?_).2
    · rintro d e d' ⟨hv, hm⟩ hturn
      exact ⟨hv.turn hturn, hm.turn hv hturn⟩
    · rintro w e live ⟨hv, hm⟩ hkeeps hc
      have hnone : w.dialogue.voiceSessionId = none := by
        rw [← Option.not_isSome_iff_eq_none]
        intro hs
        cases hc.symm.trans (hkeeps hs)
      exact ⟨hv.close live, hm.of_eq rfl hnone.symm⟩

/-- The connection is lost in the middle of a session. -/
theorem voice_session_lost :
    ∃ w, Reaches { enableVoice := true } (.connect {} :: Event.untilVoice 1 ++
        [.complete ⟨1, .readLength⟩ { error := some "End of file" }]) w ∧
      ¬ (w.impl.voiceSessionId.isSome = true ↔ w.voiceCalls.getLast? = some true) :=
  ⟨_, run_of_isSome (by decide +kernel), by decide +kernel⟩

theorem voice_callbacks_mirror_stopped :
    ∃ w, Reaches { enableVoice := true }
        (.connect {} :: Event.untilVoice 1 ++ [.stopVoice, .disconnect]) w ∧
      w.voiceCalls = [true, false] ∧
      ∀ pre post t, .connect {} :: Event.untilVoice 1 ++ [.stopVoice, .disconnect] = pre ++ post →
        Reaches { enableVoice := true } pre t → t.Mirrors := by
  have h : Reaches { enableVoice := true }
      (.connect {} :: Event.untilVoice 1 ++ [.stopVoice, .disconnect]) _ :=
    run_of_isSome (by decide +kernel)
  exact ⟨_, h, by decide +kernel, (voice_callbacks_mirror_iff h).mpr (by decide +kernel)⟩

end World

end AndroidTvRemote
