import AndroidTvRemote.Outbox

namespace AndroidTvRemote.World

open Wire Protocol SteadyTimer Runs

def AfterHandshake (earlier : List (ℕ × Record)) (r : ℕ × Record) : Prop :=
  r.2.writtenFrame.isSome = true → (r.1, Record.handshake) ∈ earlier

theorem AfterHandshake.append (pre l : List (ℕ × Record)) (r : ℕ × Record)
    (h : AfterHandshake pre r) : AfterHandshake (pre ++ l) r :=
  fun hr ↦ List.mem_append_left l (h hr)

theorem afterHandshake_of_not_isTraffic {r : ℕ × Record} (h : r.2.isTraffic = false)
    (t : List (ℕ × Record)) : AfterHandshake t r := by
  intro hr
  simp [(Bool.or_eq_false_iff.mp h).2] at hr

/-- All writes came after the handshake, and so will those of the queue. -/
structure Secure (w : World) : Prop where
  justified : Justified AfterHandshake w.trace
  pending : w.impl.writeQueue ≠ [] → w.Handshaken

theorem Silent.justified {w w' : World} (h : Silent w w') (hj : Justified AfterHandshake w.trace) :
    Justified AfterHandshake w'.trace := by
  obtain ⟨l, ht, hl⟩ := h
  rw [ht]
  exact hj.append AfterHandshake.append fun r hr ↦ afterHandshake_of_not_isTraffic (hl r hr) _

theorem Secure.quiet {w w' : World} (h : w.Secure) (hq : Quiet w w') : w'.Secure := by
  refine ⟨hq.silent.justified h.justified, ?_⟩
  intro hne
  rw [hq.writeQueue] at hne
  obtain ⟨l, ht, -⟩ := hq.silent
  rw [Handshaken, ht, hq.generation]
  exact List.mem_append_left l (h.pending hne)

theorem Secure.stays {w w' : World} (h : w.Secure) (hh : w.Handshaken) (hs : Stays w w') :
    w'.Secure := by
  obtain ⟨l, ht, -⟩ := hs.trace
  constructor
  · rw [ht]
    apply h.justified.append AfterHandshake.append
    intro r hr _
    obtain ⟨r', -, rfl⟩ := List.mem_map.mp hr
    exact hh
  · exact fun _ ↦ hs.handshaken hh

theorem Secure.traffic {w w' : World} (hw : w.Sound) (h : w.Secure) (ht : Traffic w w') :
    w'.Secure := by
  cases ht with
  | quiet hq => exact h.quiet hq
  | queue m hbefore hsound hs hh hafter =>
    exact ((h.quiet hbefore).stays hh (stays_queueMessage hsound hs m)).quiet hafter
  | wrote hs hb =>
    refine h.stays (h.pending ?_) (stays_wrote hs)
    intro hnil
    simp [(hw.opened hs).busy, hnil] at hb
  | renewed hr =>
    exact ⟨hr.silent.justified h.justified, fun hne ↦ absurd hr.writeQueue hne⟩

/-- The event is no message sent on a stream whose handshake is still to come. -/
def SendsLate (w : World) (e : Event) : Prop :=
  (e.message w).isSome = true → w.impl.stream.isSome = true → w.Handshaken

theorem Secure.does {w w' : World} {e : Event} (hw : w.Sound) (h : w.Secure)
    (hlate : SendsLate w e) (hd : Does w e w') : w'.Secure := by
  cases hd with
  | moves hm => exact hm.invariant (fun _ _ hv hp hm ↦ hp.traffic hv (hm.traffic hv)) hw h
  | send hm hs => exact h.stays (hlate (by simp [hm]) hs) (stays_queueMessage hw hs _)
  | @attempt _ a _ reconnecting delay t =>
    have hr := (hw.toBounded.wanting delay t).renewed_beginConnect rfl reconnecting a
    exact ⟨hr.silent.justified h.justified, fun hne ↦ absurd hr.writeQueue hne⟩
  | disconnect =>
    refine ⟨Silent.justified ⟨_, List.append_assoc _ _ _, ?_⟩ h.justified, fun hne ↦ absurd rfl hne⟩
    simp [Record.isTraffic, Record.pushedFrame, Record.writtenFrame]
  | disconnectAndWait =>
    refine ⟨Silent.justified ⟨_, rfl, ?_⟩ h.justified, fun hne ↦ absurd rfl hne⟩
    simp [Record.isTraffic, Record.pushedFrame, Record.writtenFrame]

theorem Delivers.write_mem {w : World} (h : w.Delivers) (hne : w.impl.writeQueue ≠ []) :
    ∃ f, (w.impl.generation, Record.write f) ∈ w.trace := by
  obtain ⟨f, q, hq⟩ := List.exists_cons_of_ne_nil hne
  have hlast : (w.written w.impl.generation).getLast? = some f :=
    h.orderly.front f (by simp [outbox, hq])
  obtain ⟨r, hr, hf⟩ := List.mem_filterMap.mp (List.mem_of_getLast? hlast)
  refine ⟨f, ?_⟩
  split at hf
  next hg =>
    obtain ⟨g, r⟩ := r
    cases r with
    | write f' =>
      obtain rfl := Option.some.inj hf
      obtain rfl : g = _ := hg
      exact hr
    | _ => cases hf
  next => cases hf

/-- A message sent before the handshake leaves the connection with a write
before the handshake: its own, or that of the one it waits for. -/
theorem not_justified_of_sent {o : Options} {es : List Event} {t t' : World} {e : Event} {m : Bytes}
    (h : Reaches o es t) (hm : e.message t = some m) (hs : t.impl.stream.isSome = true)
    (hh : ¬ t.Handshaken) (he : t.step e = some t') : ¬ Justified AfterHandshake t'.trace := by
  intro hj
  have hd := delivers_of_reaches (h.trans (.one he))
  have hspec := queueMessage_spec m hs ((inv_of_reaches h).opened hs).busy
  have hne : t'.impl.writeQueue ≠ [] := by
    rw [step_message hm he, hspec]
    simp
  obtain ⟨f, hf⟩ := hd.write_mem hne
  obtain ⟨pre, post, ht⟩ := List.append_of_mem hf
  have hmem : (t'.impl.generation, Record.handshake) ∈ t'.trace := by
    rw [ht]
    exact List.mem_append_left _ (hj pre _ post ht rfl)
  rw [step_message hm he, hspec] at hmem
  rcases List.mem_append.mp hmem with hmem | hmem
  · exact hh hmem
  · split at hmem <;> simp at hmem

/-- No write precedes the handshake of its stream exactly when no message is
sent between the opening of a stream and its handshake. -/
theorem writes_after_handshake_iff {o : Options} {es : List Event} {w : World}
    (h : Reaches o es w) :
    Justified AfterHandshake w.trace ↔ Along World.step SendsLate (World.ofOptions o) es := by
  constructor
  · intro hj
    refine h.along_or.resolve_right ?_
    intro h'
    obtain ⟨pre, e, post, t, t', -, ht, he, hrest, hlate⟩ := h'
    simp only [SendsLate, Classical.not_imp] at hlate
    obtain ⟨hm, hs, hh⟩ := hlate
    obtain ⟨m, hm⟩ := Option.isSome_iff_exists.mp hm
    have hpre := (inv_of_reaches (ht.trans (.one he))).trace_grows hrest
    exact not_justified_of_sent ht hm hs hh he (hj.earlier hpre)
  · intro hA
    have hinit : (World.ofOptions o).Secure := ⟨justified_nil _, fun hne ↦ absurd rfl hne⟩
    exact (invariant_along h hA hinit fun _ _ _ ↦ Secure.does).justified

theorem writes_after_handshake_patient :
    let v := ((World.ofOptions {}).connect {}).complete ⟨1, .resolve "" "6466"⟩ {}
    let v' := (v.complete ⟨1, .connect⟩ {}).complete ⟨1, .handshake⟩ {}
    let es := [.connect {}, .complete ⟨1, .resolve "" "6466"⟩ {}, .complete ⟨1, .connect⟩ {},
      .complete ⟨1, .handshake⟩ {}, .sendKey 3 .short]
    Reaches {} es (v'.sendKey 3 .short) ∧
      (v'.sendKey 3 .short).written 1 = [frame (remoteKey 3 .short)] ∧
      Justified AfterHandshake (v'.sendKey 3 .short).trace := by
  intro v v' es
  have h₁ := step_complete ((World.ofOptions {}).connect {}) ⟨1, .resolve "" "6466"⟩ {}
    (by decide +kernel)
  have h₂ := step_complete v ⟨1, .connect⟩ {} (by decide +kernel)
  have h₃ := step_complete (v.complete ⟨1, .connect⟩ {}) ⟨1, .handshake⟩ {} (by decide +kernel)
  have hr : Reaches {} es (v'.sendKey 3 .short) :=
    .cons rfl (.cons h₁ (.cons h₂ (.cons h₃ (.cons rfl (.nil _)))))
  have hh : v'.Handshaken := by
    unfold Handshaken
    decide +kernel
  have hA : Along World.step SendsLate (World.ofOptions {}) es := by
    refine along_cons rfl (fun hm ↦ by cases hm) ?_
    refine along_cons h₁ (fun hm ↦ by cases hm) ?_
    refine along_cons h₂ (fun hm ↦ by cases hm) ?_
    refine along_cons h₃ (fun hm ↦ by cases hm) ?_
    exact along_cons rfl (fun _ _ ↦ hh) (along_nil _ _)
  exact ⟨hr, by decide +kernel, (writes_after_handshake_iff hr).mpr hA⟩

/-- The order of calls in the README. -/
theorem key_written_before_handshake :
    let w := ((World.ofOptions {}).connect {}).sendKey 3 .short
    Reaches {} [.connect {}, .sendKey 3 .short] w ∧ ¬ Justified AfterHandshake w.trace := by
  intro w
  refine ⟨.cons rfl (.cons rfl (.nil _)), ?_⟩
  intro hj
  have ht : w.trace = w.trace.dropLast ++ [(1, .write (frame (remoteKey 3 .short)))] := by
    decide +kernel
  have hmem : (1, Record.handshake) ∈ w.trace.dropLast := hj _ _ _ ht rfl
  exact absurd hmem (by decide +kernel)

end AndroidTvRemote.World
