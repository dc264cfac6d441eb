import AndroidTvRemote.Delivery

namespace AndroidTvRemote

open Wire Protocol SteadyTimer Runs Slices SyncTlsConnection

namespace Protocol.Outgoing

def isRequest : Outgoing → Bool
  | key _ _ | text _ _ _ | appLink _ | voicePayload _ _ | voiceEnd _ => true
  | _ => false

/-- What can go out on a remote connection. -/
def Sendable : Outgoing → Prop
  | text t _ _ => t ≠ []
  | pairingRequest _ | pairingOptions | pairingConfiguration | pairingSecret _ => False
  | _ => True

theorem text_length_le (t : Bytes) (c f : Int32) : t.length ≤ (text t c f).bytes.length := by
  have hobject : t.length ≤ (encoded (imeObject t)).length :=
    Item.bytes_length_le_encoded (i := .string ⟨3, by decide⟩ t) (by simp [imeObject])
  have hedit : (encoded (imeObject t)).length ≤ (encoded (editInfo t)).length :=
    Item.bytes_length_le_encoded (i := .message ⟨2, by decide⟩ (imeObject t)) (by simp [editInfo])
  have hbody : (encoded (editInfo t)).length ≤ (encoded (text t c f).body).length :=
    Item.bytes_length_le_encoded (i := .message ⟨3, by decide⟩ (editInfo t)) (by simp [body])
  have hall : (encoded (text t c f).body).length ≤ (encoded (text t c f).layout).length :=
    Item.bytes_length_le_encoded (i := .message (text t c f).number (text t c f).body)
      (by simp [layout])
  rw [bytes_eq]
  exact hobject.trans (hedit.trans (hbody.trans hall))

theorem Sendable.decode {o : Outgoing} (h : o.Sendable) (hsize : o.bytes.length ≤ 4 * 1024 * 1024) :
    decode o.bytes = some o := by
  apply o.decode_bytes (hsize.trans_lt (by decide))
  cases o with
  | text t c f =>
    have hle := text_length_le t c f
    exact ⟨List.length_pos_iff.mpr h, by omega⟩
  | _ => trivial

end Protocol.Outgoing

def ofGeneration {α : Type} (g : ℕ) (l : List (ℕ × α)) : List α :=
  l.filterMap fun x ↦ if x.1 = g then some x.2 else none

section OfGeneration

variable {α β : Type} (g : ℕ)

theorem ofGeneration_append (l l' : List (ℕ × α)) :
    ofGeneration g (l ++ l') = ofGeneration g l ++ ofGeneration g l' := List.filterMap_append

theorem ofGeneration_map (f : α → β) (l : List (ℕ × α)) :
    ofGeneration g (l.map fun x ↦ (x.1, f x.2)) = (ofGeneration g l).map f := by
  rw [ofGeneration, ofGeneration, List.filterMap_map, List.map_filterMap]
  apply List.filterMap_congr
  intro x _
  by_cases hx : x.1 = g <;> simp [hx]

theorem ofGeneration_filter (p : α → Bool) (l : List (ℕ × α)) :
    ofGeneration g (l.filter fun x ↦ p x.2) = (ofGeneration g l).filter p := by
  rw [ofGeneration, ofGeneration, List.filterMap_filter, List.filter_filterMap]
  apply List.filterMap_congr
  intro x _
  by_cases hx : x.1 = g <;> simp [hx, Option.filter]

theorem mem_ofGeneration {l : List (ℕ × α)} {a : α} : a ∈ ofGeneration g l ↔ (g, a) ∈ l := by
  simp [ofGeneration, Prod.exists]

end OfGeneration

section Tags

variable {α : Type} {l : List (ℕ × α)} {n : ℕ}

theorem ofGeneration_eq_nil {g : ℕ} (h : ∀ x ∈ l, x.1 ≠ g) : ofGeneration g l = [] :=
  List.filterMap_eq_nil_iff.mpr fun x hx ↦ if_neg (h x hx)

theorem flatMap_ofGeneration (hs : l.Pairwise fun x y ↦ x.1 ≤ y.1) (hn : ∀ x ∈ l, x.1 < n) :
    (List.range n).flatMap (fun g ↦ (ofGeneration g l).map (Prod.mk g)) = l := by
  induction l using List.reverseRecOn with
  | nil => exact List.flatMap_eq_nil_iff.mpr fun _ _ ↦ rfl
  | append_singleton l x ih =>
    obtain ⟨hl, -, hle⟩ := List.pairwise_append.mp hs
    replace hle : ∀ y ∈ l, y.1 ≤ x.1 := fun y hy ↦ hle y hy x List.mem_cons_self
    have hx : x.1 + 1 ≤ n := hn x List.mem_concat_self
    replace hn : ∀ y ∈ l, y.1 < n := fun y hy ↦ hn y (List.mem_append_left _ hy)
    have hsnoc : ∀ g, ofGeneration g (l ++ [x]) =
        ofGeneration g l ++ if x.1 = g then [x.2] else [] := by
      intro g
      rw [ofGeneration_append]
      by_cases hg : x.1 = g <;> simp [ofGeneration, hg]
    refine Eq.trans ?_ (congrArg (· ++ [x]) (ih hl hn))
    clear ih hn hs
    -- past the tag of the last entry both sides have nothing
    induction n, hx using Nat.le_induction with
    | base =>
      have hbelow : (List.range x.1).flatMap
            (fun g ↦ (ofGeneration g (l ++ [x])).map (Prod.mk g)) =
          (List.range x.1).flatMap fun g ↦ (ofGeneration g l).map (Prod.mk g) := by
        refine List.flatMap_congr fun g hg ↦ ?_
        rw [hsnoc, if_neg (List.mem_range.mp hg).ne', List.append_nil]
      rw [List.range_succ, List.flatMap_append, List.flatMap_append, hbelow, List.append_assoc,
        List.flatMap_singleton, List.flatMap_singleton, hsnoc, if_pos rfl, List.map_append]
      rfl
    | succ n hx ih =>
      have hlt : ∀ y ∈ l ++ [x], y.1 ≠ n := by
        intro y hy
        have hy : y.1 ≤ x.1 := by
          rcases List.mem_append.mp hy with hy | hy
          · exact hle y hy
          · rw [List.mem_singleton.mp hy]
        omega
      have hnil := ofGeneration_eq_nil hlt
      have hnil' := ofGeneration_eq_nil fun y hy ↦ hlt y (List.mem_append_left _ hy)
      simp only [List.range_succ, List.flatMap_append, List.flatMap_singleton, ih, hnil, hnil',
        List.map_nil, List.append_nil]

end Tags

namespace Dialogue

variable {d d' : Dialogue}

def Adds (d d' : Dialogue) (os : List Outgoing) : Prop :=
  d'.tagged Record.message =
    d.tagged Record.message ++ os.map fun o ↦ (d.generation, o.bytes)

theorem Adds.of_eq (h : d'.tagged Record.message = d.tagged Record.message) : Adds d d' [] :=
  h.trans (List.append_nil _).symm

theorem adds_send (hl : d.live = true) (o : Outgoing) : Adds d (d.send o.bytes) [o] := by
  rw [send_of_live hl]
  exact tagged_say _

theorem adds_sendAll (hl : d.live = true) (os : List Outgoing) :
    Adds d (d.sendAll (os.map Outgoing.bytes)) os := by
  induction os generalizing d with
  | nil => exact .of_eq rfl
  | cons o os ih =>
    have hone : Adds d (d.send o.bytes) [o] := adds_send hl o
    have hrest : Adds (d.send o.bytes) ((d.send o.bytes).sendAll (os.map Outgoing.bytes)) os :=
      ih (by rw [send_of_live hl]; exact hl)
    unfold Adds at hone hrest ⊢
    rw [hone, send_generation, List.append_assoc] at hrest
    exact hrest

theorem adds_receive (hl : d.live = true) (m : Bytes) :
    ∃ os, Adds d (d.receive m) os ∧ ∀ o ∈ os, o.isRequest = false ∧ o.Sendable := by
  have hsay : (d.say (.received m)).tagged Record.message = d.tagged Record.message :=
    tagged_say_none rfl
  have hears := d.hears m
  generalize d.receive m = d' at hears
  cases hears with
  | configure hk features hf =>
    refine ⟨[.configureResponse features], ?_, by simp [Outgoing.isRequest, Outgoing.Sendable]⟩
    have hsend := adds_send (d := { d.say (.received m) with
      activeFeatures := features
      voiceEnabled := features &&& featureVoice != 0 }) hl (.configureResponse features)
    exact hsend.trans (congrArg (· ++ _) hsay)
  | setActive hk =>
    refine ⟨[.setActiveResponse d.activeFeatures], ?_,
      by simp [Outgoing.isRequest, Outgoing.Sendable]⟩
    have hsend := adds_send (d := d.say (.received m)) hl (.setActiveResponse d.activeFeatures)
    exact hsend.trans (congrArg (· ++ _) hsay)
  | ping hk =>
    refine ⟨[.pingResponse (parseRemote m).pingValue], ?_,
      by simp [Outgoing.isRequest, Outgoing.Sendable]⟩
    have hsend := adds_send (d := d.say (.received m)) hl
      (.pingResponse (parseRemote m).pingValue)
    exact hsend.trans (congrArg (· ++ _) hsay)
  | voiceBegin hk hv =>
    refine ⟨[.voiceBegin (parseRemote m).voiceSessionId], ?_,
      by simp [Outgoing.isRequest, Outgoing.Sendable]⟩
    have hsend := adds_send (d := { d.say (.received m) with
      voiceStarting := false
      voiceSessionId := some (parseRemote m).voiceSessionId }) hl
      (.voiceBegin (parseRemote m).voiceSessionId)
    exact (tagged_say_none rfl).trans (hsend.trans (congrArg (· ++ _) hsay))
  | other => exact ⟨[], .of_eq hsay, by simp⟩

end Dialogue

namespace World

theorem frames_eq_ofGeneration {f : Record → Option Bytes} (g : ℕ) (w : World) :
    w.frames f g = ofGeneration g (w.tagged f) := by
  rw [frames, tagged, ofGeneration, List.filterMap_filterMap]
  apply List.filterMap_congr
  intro r _
  by_cases hr : r.1 = g <;> cases hf : f r.2 <;> simp [hr]

/-- What the application asks of the TV by a call, in the state the call
meets. -/
def asks (w : World) : Event → List Outgoing
  | .sendKey key direction => [.key key direction]
  | .sendText text => [.text text w.impl.imeCounter w.impl.imeFieldCounter]
  | .launchApp appLink => [.appLink appLink]
  | .startVoice =>
    if w.impl.voiceEnabled ∧ !w.impl.voiceStarting ∧ w.impl.voiceSessionId = none ∧
        w.impl.state = .connected then [.key keyCodeSearch .short] else []
  | .sendVoiceData pcm =>
    match w.impl.voiceSessionId with
    | none => []
    | some sessionId => (slices 20480 pcm).map fun samples ↦ .voicePayload sessionId (pad samples)
  | .stopVoice => (w.impl.voiceSessionId.map Outgoing.voiceEnd).toList
  | _ => []

def asked (w : World) (e : Event) : Option (ℕ × List Outgoing) :=
  if w.impl.stream.isSome then some (w.impl.generation, w.asks e) else none

/-- The requests of a run, each with its connection. -/
def requests (o : Options) (es : List Event) : List (ℕ × Outgoing) :=
  (acts World.step asked (World.ofOptions o) es).flatMap fun a ↦ a.2.map (Prod.mk a.1)

theorem requests_snoc {o : Options} {es : List Event} {w w' : World} {e : Event}
    (h : Reaches o es w) (he : w.step e = some w') : requests o (es ++ [e]) =
      requests o es ++ if w.impl.stream.isSome then (w.asks e).map (Prod.mk w.impl.generation)
        else [] := by
  rw [requests, h.acts_append, List.flatMap_append, acts_cons he]
  refine congrArg (requests o es ++ ·) ?_
  unfold asked
  split <;> simp [acts]

/-- What a step adds to the messages: the requests of the call, or answers to
the TV. -/
structure Adds (w : World) (e : Event) (w' : World) (os : List Outgoing) : Prop where
  messages : w'.tagged Record.message =
    w.tagged Record.message ++ os.map fun o ↦ (w.impl.generation, o.bytes)
  requests : os.filter Outgoing.isRequest = if w.impl.stream.isSome then w.asks e else []
  sendable : ∀ o ∈ os, o.Sendable

section Steps

variable {w w' : World} {e : Event}

theorem Adds.of_dialogue {os : List Outgoing} (h : Dialogue.Adds w.dialogue w'.dialogue os)
    (hr : os.filter Outgoing.isRequest = if w.impl.stream.isSome then w.asks e else [])
    (hs : ∀ o ∈ os, o.Sendable) : Adds w e w' os := by
  refine ⟨?_, hr, hs⟩
  have hsaid : ∀ r : Record, r.isSaid = false → Record.message r = none := by
    intro r hr
    cases r with
    | queued m => cases hr
    | _ => rfl
  rw [← tagged_dialogue hsaid, ← tagged_dialogue hsaid]
  exact h

theorem Adds.none (h : w'.dialogue.tagged Record.message = w.dialogue.tagged Record.message)
    (ha : w.asks e = []) : Adds w e w' [] := by
  apply Adds.of_dialogue (.of_eq h)
  · rw [ha, ite_self]
    rfl
  · simp

theorem adds_command {o : Outgoing} (he : w' = w.queueMessage o.bytes) (ha : w.asks e = [o])
    (hr : o.isRequest = true) (hs : o.Sendable) : ∃ os, Adds w e w' os := by
  subst he
  by_cases hl : w.impl.stream.isSome = true
  · refine ⟨[o], .of_dialogue ?_ (by rw [if_pos hl, ha]; simp [hr]) (by simpa using hs)⟩
    rw [dialogue_queueMessage]
    exact Dialogue.adds_send (d := w.dialogue) hl o
  · rw [queueMessage_none w _ (by simpa using hl)]
    exact ⟨[], (List.append_nil _).symm, by simp [hl], by simp⟩

theorem Inv.adds_startVoice (h : w.Inv) : ∃ os, Adds w .startVoice w.startVoice os := by
  unfold World.startVoice
  split_ifs with hv hb hc
  · exact ⟨[], .none (congrArg _ (dialogue_log rfl)) (if_neg (by simp_all))⟩
  · exact ⟨[], .none (congrArg _ (dialogue_log rfl)) (if_neg (by grind))⟩
  · exact ⟨[], .none (congrArg _ (dialogue_log rfl)) (if_neg fun ha ↦ hc ha.2.2.2)⟩
  · have hs := h.live_of_connected (not_not.mp hc)
    have hsend := Dialogue.adds_send (d := { w.dialogue with voiceStarting := true }) hs
      (.key keyCodeSearch .short)
    refine ⟨[.key keyCodeSearch .short], .of_dialogue ?_ ?_ (by simp [Outgoing.Sendable])⟩
    · exact (dialogue_queueMessage (w := { w with impl.voiceStarting := true }) _).symm ▸ hsend
    · rw [if_pos hs, asks, if_pos (by simp_all)]
      rfl

theorem Inv.adds_sendVoiceData (h : w.Inv) (pcm : Bytes) :
    ∃ os, Adds w (.sendVoiceData pcm) (w.sendVoiceData pcm) os := by
  unfold World.sendVoiceData
  split
  next hv => exact ⟨[], .none rfl (by rw [asks, hv])⟩
  next s hv =>
    have hs := h.live_of_session hv
    have hasks : w.asks (.sendVoiceData pcm) =
        (slices 20480 pcm).map fun samples ↦ .voicePayload s (pad samples) := by rw [asks, hv]
    have hadds := Dialogue.adds_sendAll (d := w.dialogue) hs (w.asks (.sendVoiceData pcm))
    refine ⟨w.asks (.sendVoiceData pcm), .of_dialogue ?_ ?_ ?_⟩
    · rw [sendVoiceChunks_eq, dialogue_sendAll, voicePayloads_slices, List.map_map]
      rw [hasks, List.map_map] at hadds
      rw [hasks]
      exact hadds
    · rw [if_pos hs, List.filter_eq_self, hasks]
      intro o ho
      obtain ⟨samples, -, rfl⟩ := List.mem_map.mp ho
      rfl
    · rw [hasks]
      intro o ho
      obtain ⟨samples, -, rfl⟩ := List.mem_map.mp ho
      trivial

theorem Inv.adds_stopVoice (h : w.Inv) : ∃ os, Adds w .stopVoice w.stopVoice os := by
  cases hv : w.impl.voiceSessionId with
  | none =>
    refine ⟨[], .none ?_ (by rw [asks, hv]; rfl)⟩
    rw [dialogue_stopVoice, Dialogue.stopVoice_none (d := w.dialogue) hv]
    rfl
  | some s =>
    have hs := h.live_of_session hv
    have hadds := Dialogue.adds_send (d := { w.dialogue with voiceStarting := false }) hs
      (.voiceEnd s)
    refine ⟨[.voiceEnd s], .of_dialogue ?_ ?_ (by simp [Outgoing.Sendable])⟩
    · rw [dialogue_stopVoice, Dialogue.stopVoice_some (d := w.dialogue) hv]
      exact (Dialogue.tagged_say_none rfl).trans hadds
    · rw [if_pos hs, asks, hv]
      rfl

theorem dialogue_succeeded {v : World} {c : Completion} {k : OpKind}
    (hs : v.impl.stream.isSome = true) (he : c.error = none) (hk : k ≠ .readLength) :
    (v.handler ⟨v.impl.generation, k⟩ c).dialogue = v.dialogue ∨
      ∃ m, (v.handler ⟨v.impl.generation, k⟩ c).dialogue = v.dialogue.receive m := by
  cases k with
  | resolve | connect =>
    simp only [handler, onResolve, onConnect, ne_eq, not_true_eq_false, if_false, he]
    exact .inl (dialogue_startOnStream hs _)
  | handshake =>
    simp only [handler, onHandshake, ne_eq, not_true_eq_false, if_false, he]
    exact .inl ((dialogue_beginReadLength _).trans (dialogue_log rfl))
  | readLength => exact absurd rfl hk
  | readBody size =>
    simp only [handler, onReadBody, ne_eq, not_true_eq_false, if_false, he]
    exact .inr ⟨_, (dialogue_beginReadLength _).trans (dialogue_handleMessage _)⟩
  | write f =>
    simp only [handler, onWrite, ne_eq, not_true_eq_false, if_false, he]
    exact .inl dialogue_beginWrite

theorem Inv.dialogue_complete (h : w.Inv) {op : Op} {c : Completion} (hop : op ∈ w.ops)
    (hfit : c.Fits op.kind) : (w.complete op c).dialogue = w.dialogue ∨
      (w.complete op c).dialogue = w.dialogue.close false ∨
      ∃ m, w.dialogue.live = true ∧ (w.complete op c).dialogue = w.dialogue.receive m := by
  by_cases hg : op.generation = w.impl.generation
  · obtain ⟨hd, hgen, hstream, hwant, halive, -⟩ := fill_keeps op c w
    have hs := h.live_of_op hop hg
    have hu := hwant.trans (h.opened hs).wanted
    have ha := halive.trans h.alive
    rw [← hstream] at hs
    obtain ⟨g, k⟩ := op
    obtain rfl : g = w.impl.generation := hg
    unfold World.complete
    generalize fill ⟨w.impl.generation, k⟩ c
      { w with ops := w.ops.erase ⟨w.impl.generation, k⟩ } = v at *
    rw [← hgen, ← hd] at *
    cases he : c.error with
    | some error => exact .inr (.inl (dialogue_failed hu ha he))
    | none =>
      by_cases hk : k = .readLength
      · subst hk
        have hlength := dialogue_lengthByte hu ha hs he
        split_ifs at hlength
        · exact .inr (.inl hlength)
        · exact hlength.imp_right fun hm ↦ .inr ⟨[], hs, hm⟩
      · exact (dialogue_succeeded hs he hk).imp_right fun ⟨m, hm⟩ ↦ .inr ⟨m, hs, hm⟩
  · rw [World.complete_stale hg]
    exact .inl (fill_keeps op c w).1

theorem Inv.adds_complete (h : w.Inv) {op : Op} {c : Completion} (hop : op ∈ w.ops)
    (hfit : c.Fits op.kind) : ∃ os, Adds w (.complete op c) (w.complete op c) os := by
  rcases h.dialogue_complete hop hfit with hd | hd | ⟨m, hl, hd⟩
  · exact ⟨[], .none (congrArg _ hd) rfl⟩
  · exact ⟨[], .none (by rw [hd]; rfl) rfl⟩
  · obtain ⟨os, hadds, hos⟩ := Dialogue.adds_receive hl m
    refine ⟨os, .of_dialogue (hd ▸ hadds) ?_ fun o ho ↦ (hos o ho).2⟩
    rw [show w.asks (.complete op c) = [] from rfl, ite_self, List.filter_eq_nil_iff]
    intro o ho
    simp [(hos o ho).1]

theorem Inv.adds_closes (h : w.Inv) (he : w.step e = some w') (hc : e.closes w = true)
    (ha : w.asks e = []) : ∃ os, Adds w e w' os := by
  cases h.speaks he with
  | closes _ live hd => exact ⟨[], .none (by rw [hd]; rfl) ha⟩
  | turn hn => cases hc.symm.trans hn

theorem Inv.adds (h : w.Inv) (he : w.step e = some w') : ∃ os, Adds w e w' os := by
  cases happens_of_step he with
  | sendKey key direction => exact adds_command (o := .key key direction) rfl rfl rfl trivial
  | sendText text ht =>
    exact adds_command (o := .text text w.impl.imeCounter w.impl.imeFieldCounter) rfl rfl rfl ht
  | launchApp appLink => exact adds_command (o := .appLink appLink) rfl rfl rfl trivial
  | startVoice => exact h.adds_startVoice
  | sendVoiceData pcm => exact h.adds_sendVoiceData pcm
  | stopVoice => exact h.adds_stopVoice
  | complete op c hop hfit => exact h.adds_complete hop hfit
  | connect | disconnect | disconnectAndWait => exact h.adds_closes he rfl rfl
  | reconnectExpires | idleExpires | voiceExpires => exact ⟨[], .none rfl rfl⟩
  | reconnectWait q a =>
    by_cases hg : q.2 = .success ∧ w.impl.userDisconnect = false
    · exact h.adds_closes he (decide_eq_true hg) rfl
    · rw [onReconnectWait, if_neg hg]
      exact ⟨[], .none rfl rfl⟩
  | idleWait q =>
    by_cases hg : q.2 = .success ∧ w.impl.userDisconnect = false ∧
        q.1.captured = w.impl.generation
    · exact h.adds_closes he (decide_eq_true hg) rfl
    · rw [onIdleWait, if_neg hg]
      exact ⟨[], .none rfl rfl⟩
  | voiceWait q =>
    unfold onVoiceWait
    split_ifs
    · refine ⟨[], .none ((congrArg _ (dialogue_log rfl)).trans ?_) rfl⟩
      rfl
    · exact ⟨[], .none rfl rfl⟩

end Steps

/-- All that was sent so far, call by call: the requests of the run, and answers
to the TV in between. -/
structure Script (o : Options) (es : List Event) (w : World) (script : List (ℕ × Outgoing)) :
    Prop where
  messages : w.tagged Record.message = script.map fun x ↦ (x.1, x.2.bytes)
  requests : script.filter (fun x ↦ x.2.isRequest) = requests o es
  sendable : ∀ x ∈ script, x.2.Sendable

theorem Script.snoc {o : Options} {es : List Event} {w w' : World} {e : Event}
    {script : List (ℕ × Outgoing)} {os : List Outgoing} (h : Script o es w script)
    (hr : Reaches o es w) (he : w.step e = some w') (ha : Adds w e w' os) :
    Script o (es ++ [e]) w' (script ++ os.map (Prod.mk w.impl.generation)) := by
  refine ⟨?_, ?_, ?_⟩
  · rw [ha.messages, h.messages, List.map_append, List.map_map]
    rfl
  · rw [requests_snoc hr he, List.filter_append, h.requests, List.filter_map]
    refine congrArg (World.requests o es ++ ·) ?_
    refine (congrArg (List.map (Prod.mk w.impl.generation)) ha.requests).trans ?_
    split <;> rfl
  · intro x hx
    rcases List.mem_append.mp hx with hx | hx
    · exact h.sendable x hx
    · obtain ⟨a, ha', rfl⟩ := List.mem_map.mp hx
      exact ha.sendable a ha'

theorem script_of_reaches {o : Options} {es : List Event} {w : World} (h : Reaches o es w) :
    ∃ script, Script o es w script := by
  refine h.history (H := fun es w ↦ ∃ script, Script o es w script) ⟨[], rfl, rfl, by simp⟩ ?_
  intro es t e u ht ⟨script, hscript⟩ he
  obtain ⟨os, hos⟩ := (inv_of_reaches ht).adds he
  exact ⟨_, hscript.snoc ht he hos⟩

section Arrival

variable {o : Options} {es : List Event} {w : World} {script : List (ℕ × Outgoing)}

theorem Script.messages_eq (h : Script o es w script) (g : ℕ) :
    w.messages g = (ofGeneration g script).map Outgoing.bytes := by
  rw [World.messages, frames_eq_ofGeneration, h.messages, ofGeneration_map]

theorem Script.requests_eq (h : Script o es w script) (g : ℕ) :
    (ofGeneration g script).filter Outgoing.isRequest = ofGeneration g (World.requests o es) := by
  rw [← h.requests, ofGeneration_filter]

theorem Script.decodes (h : Script o es w script) {g : ℕ}
    (hsize : ∀ m ∈ w.messages g, m.length ≤ 4 * 1024 * 1024) :
    ((w.messages g).filterMap Outgoing.decode).filter Outgoing.isRequest =
      ofGeneration g (World.requests o es) := by
  rw [← h.requests_eq]
  refine congrArg _ ?_
  rw [h.messages_eq g, List.filterMap_map]
  refine (List.filterMap_congr fun a ha ↦ ?_).trans List.filterMap_some
  have hmem := (mem_ofGeneration g).mp ha
  exact (h.sendable _ hmem).decode (hsize _ (h.messages_eq g ▸ List.mem_map_of_mem ha))

end Arrival

theorem received_requests {o : Options} {es : List Event} {w : World} (h : Reaches o es w)
    {g : ℕ} {bs : Bytes} (hsize : ∀ m ∈ w.messages g, m.length ≤ 4 * 1024 * 1024)
    (hbs : bs <+: w.sent g) :
    ((receiveAll bs).1.filterMap Outgoing.decode).filter Outgoing.isRequest <+:
      ofGeneration g (requests o es) := by
  obtain ⟨script, hscript⟩ := script_of_reaches h
  rw [← hscript.decodes hsize]
  exact (((delivers_of_reaches h).arrives hsize hbs).filterMap _).filter _

/-- The requests of the application arrive as they were made. On each
connection the TV reads, between the answers to its own messages, the first of
the requests made on it while it was open, in order, each once and no other;
and once the writes outstanding have ended well, all of them. -/
theorem requests_arrive {o : Options} {es : List Event} {w : World} (h : Reaches o es w) :
    (∀ g bs, (∀ m ∈ w.messages g, m.length ≤ 4 * 1024 * 1024) → bs <+: w.sent g →
      ((receiveAll bs).1.filterMap Outgoing.decode).filter Outgoing.isRequest <+:
        ofGeneration g (requests o es)) ∧
    (w.impl.stream.isSome = true →
      (∀ m ∈ w.messages w.impl.generation, m.length ≤ 4 * 1024 * 1024) →
      Run World.step w w.drain w.drained ∧
        ((receiveAll (w.drained.sent w.impl.generation)).1.filterMap Outgoing.decode).filter
          Outgoing.isRequest = ofGeneration w.impl.generation (requests o es)) := by
  refine ⟨fun g bs hsize hbs ↦ received_requests h hsize hbs, ?_⟩
  intro hs hsize
  obtain ⟨script, hscript⟩ := script_of_reaches h
  obtain ⟨hrun, -, hall⟩ := drains_of_reaches h hs
  refine ⟨hrun, ?_⟩
  rw [hall hsize]
  exact hscript.decodes hsize

theorem requests_arrive_three_keys :
    let es : List Event := [.sendKey 2 .short, .connect {}, .sendKey 3 .short, .sendKey 4 .short]
    requests {} es = [(1, .key 3 .short), (1, .key 4 .short)] ∧
    ∃ w, Reaches {} es w ∧
      ((receiveAll (w.sent 1)).1.filterMap Outgoing.decode).filter Outgoing.isRequest <+:
        [.key 3 .short, .key 4 .short] ∧
      Run World.step w w.drain w.drained ∧
      ((receiveAll (w.drained.sent 1)).1.filterMap Outgoing.decode).filter Outgoing.isRequest =
        [.key 3 .short, .key 4 .short] := by
  intro es
  let w := (exec World.step (World.ofOptions {}) es).get (by decide +kernel)
  have h : Reaches {} es w := run_of_isSome _
  have hrequests : requests {} es = [(1, .key 3 .short), (1, .key 4 .short)] := by decide +kernel
  have hasked : ofGeneration 1 (requests {} es) = [.key 3 .short, .key 4 .short] := by
    rw [hrequests]
    rfl
  have hsize : ∀ m ∈ w.messages 1, m.length ≤ 4 * 1024 * 1024 := by decide +kernel
  obtain ⟨hfirst, hdrain⟩ := requests_arrive h
  obtain ⟨hrun, hall⟩ := hdrain (by decide +kernel) hsize
  rw [← hasked]
  exact ⟨hrequests, w, h, hfirst 1 _ hsize (List.prefix_refl _), hrun, hall⟩

end World

end AndroidTvRemote
