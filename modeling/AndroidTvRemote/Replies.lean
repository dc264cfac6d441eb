import AndroidTvRemote.OutgoingFormat
import AndroidTvRemote.Receivers

namespace AndroidTvRemote

open Wire Protocol SteadyTimer Runs Framing

def supportedMasks (ms : List Bytes) : List Int32 :=
  ms.filterMap fun m ↦
    if (parseRemote m).kind = .configure then some (parseRemote m).supportedFeatures else none

namespace Options

/-- The features enabled by the options that every configure message so far
supports. -/
def mask (o : Options) (ms : List Bytes) : Int32 :=
  (supportedMasks ms).foldl (fun features supported ↦ features &&& supported) o.features

/-- What a message is to be answered by, after the messages before it. -/
def reply (o : Options) (before : List Bytes) (m : Bytes) : Option Bytes :=
  match (parseRemote m).kind with
  | .configure => some (remoteConfigureResponse (o.mask (before ++ [m])))
  | .setActive => some (remoteSetActiveResponse (o.mask before))
  | .ping => some (remotePingResponse (parseRemote m).pingValue)
  | .imeKeyInject | .imeBatchEdit | .volume | .start | .error | .voiceBegin | .unknown => none

def answers (o : Options) : List Bytes → List (ℕ × Bytes) → List (ℕ × Bytes)
  | _, [] => []
  | before, (g, m) :: ms =>
    ((o.reply before m).map (Prod.mk g)).toList ++ answers o (before ++ [m]) ms

theorem answers_append (o : Options) (before : List Bytes) (ms : List (ℕ × Bytes)) (g : ℕ)
    (m : Bytes) : o.answers before (ms ++ [(g, m)]) =
      o.answers before ms ++ ((o.reply (before ++ ms.map Prod.snd) m).map (Prod.mk g)).toList := by
  induction ms generalizing before with
  | nil => simp [answers]
  | cons x ms ih =>
    rw [List.cons_append, answers, ih, answers, List.map_cons, List.append_assoc, List.append_assoc]
    rfl

theorem mask_snoc (o : Options) (ms : List Bytes) (m : Bytes) : o.mask (ms ++ [m]) =
    if (parseRemote m).kind = .configure then o.mask ms &&& (parseRemote m).supportedFeatures
    else o.mask ms := by
  rw [mask, supportedMasks, List.filterMap_append, List.foldl_append]
  split
  next hk => simp [mask, supportedMasks, hk]
  next hk => simp [mask, supportedMasks, hk]

end Options

theorem foldl_and_eq_zero {x feature : Int32} (h : x &&& feature = 0) (l : List Int32) :
    l.foldl (fun features supported ↦ features &&& supported) x &&& feature = 0 := by
  induction l generalizing x with
  | nil => exact h
  | cons s l ih =>
    apply ih
    rw [Int32.and_assoc, Int32.and_comm s, ← Int32.and_assoc, h, Int32.zero_and]

/-- A feature that the options disable or a configure message lacks is in no
later mask. -/
theorem Options.mask_and_eq_zero (o : Options) {ms : List Bytes} {feature : Int32}
    (h : o.features &&& feature = 0 ∨ ∃ s ∈ supportedMasks ms, s &&& feature = 0) :
    o.mask ms &&& feature = 0 := by
  rcases h with h | ⟨s, hs, h⟩
  · exact foldl_and_eq_zero h _
  · obtain ⟨l, l', hl⟩ := List.append_of_mem hs
    rw [mask, hl, List.foldl_append, List.foldl_cons]
    apply foldl_and_eq_zero
    rw [Int32.and_assoc, h, Int32.and_zero]

namespace Dialogue

def heard (d : Dialogue) : List Bytes := (d.tagged Record.handled).map Prod.snd

def replyNumbers : List ℕ := [1, 2, 9]

/-- Every message so far has had its answer. -/
structure Answered (o : Options) (d : Dialogue) : Prop where
  replies : d.tagged (Record.queuedUnder replyNumbers) =
    o.answers [] (d.tagged Record.handled)
  activeFeatures : d.activeFeatures = o.mask d.heard
  voiceEnabled : d.voiceEnabled =
    (!(supportedMasks d.heard).isEmpty && (o.mask d.heard &&& featureVoice != 0))

section Receive

variable {o : Options} {d d' : Dialogue} {m : Bytes} (h : Hears d m d')

include h

theorem Hears.handled :
    d'.tagged Record.handled = d.tagged Record.handled ++ [(d.generation, m)] := by
  have hsay : (d.say (.received m)).tagged Record.handled =
      d.tagged Record.handled ++ [(d.generation, m)] := tagged_say _
  cases h with
  | configure | setActive | ping => exact (tagged_send_none (by rfl)).trans hsay
  | voiceBegin =>
    exact (tagged_say_none (by rfl)).trans ((tagged_send_none (by rfl)).trans hsay)
  | other => exact hsay

theorem Hears.heard : d'.heard = d.heard ++ [m] := by
  rw [Dialogue.heard, h.handled, List.map_append]
  rfl

theorem Hears.activeFeatures : d'.activeFeatures =
    if (parseRemote m).kind = .configure then d.activeFeatures &&& (parseRemote m).supportedFeatures
    else d.activeFeatures := by
  cases h with
  | configure hk features hf =>
    rw [if_pos hk, send_activeFeatures, hf]
  | setActive hk | ping hk => 
    rw [if_neg (by simp [hk]), send_activeFeatures]
    rfl
  | voiceBegin hk =>
    rw [if_neg (by simp [hk])]
    exact send_activeFeatures _ _
  | other hk =>
    rw [if_neg (by simp at hk; exact hk.1)]
    rfl

theorem Hears.voiceEnabled : d'.voiceEnabled =
    if (parseRemote m).kind = .configure then d'.activeFeatures &&& featureVoice != 0
    else d.voiceEnabled := by
  cases h with
  | configure hk features hf => 
    rw [if_pos hk, send_activeFeatures, send_voiceEnabled]
  | setActive hk | ping hk => 
    rw [if_neg (by simp [hk]), send_voiceEnabled]
    rfl
  | voiceBegin hk => 
    rw [if_neg (by simp [hk])]
    exact send_voiceEnabled _ _
  | other hk => 
    rw [if_neg (by simp at hk; exact hk.1)]
    rfl

theorem Hears.replies (hl : d.live = true) (hf : d.activeFeatures = o.mask d.heard) :
    d'.tagged (Record.queuedUnder replyNumbers) =
      d.tagged (Record.queuedUnder replyNumbers) ++
        ((o.reply d.heard m).map (Prod.mk d.generation)).toList := by
  have hsay : (d.say (.received m)).tagged (Record.queuedUnder replyNumbers) =
      d.tagged (Record.queuedUnder replyNumbers) := tagged_say_none rfl
  have hsend : ∀ {d' : Dialogue} {r : Bytes}, d'.live = true → d'.generation = d.generation →
      d'.tagged (Record.queuedUnder replyNumbers) = d.tagged (Record.queuedUnder replyNumbers) →
      Record.queuedUnder replyNumbers (.queued r) = some r →
      (d'.send r).tagged (Record.queuedUnder replyNumbers) =
        d.tagged (Record.queuedUnder replyNumbers) ++ [(d.generation, r)] := by
    intro d' r hl hg ht hr
    rw [send_of_live hl, tagged_say, hr, ht, hg]
    rfl
  cases h with
  | configure hk features hf' =>
    have hreply : o.reply d.heard m = some (remoteConfigureResponse features) := by
      rw [Options.reply, hk, Options.mask_snoc, if_pos hk, ← hf, hf']
    rw [hreply]
    exact hsend hl rfl hsay (Record.queuedUnder_messageField _ _ _)
  | setActive hk =>
    have hreply : o.reply d.heard m = some (remoteSetActiveResponse d.activeFeatures) := by
      rw [Options.reply, hk, hf]
    rw [hreply]
    exact hsend hl rfl hsay (Record.queuedUnder_messageField _ _ _)
  | ping hk =>
    have hreply : o.reply d.heard m = some (remotePingResponse (parseRemote m).pingValue) := by
      rw [Options.reply, hk]
    rw [hreply]
    exact hsend hl rfl hsay (Record.queuedUnder_messageField _ _ _)
  | voiceBegin hk =>
    have hreply : o.reply d.heard m = none := by rw [Options.reply, hk]
    have hbegin : Record.queuedUnder replyNumbers
        (.queued (remoteVoiceBegin (parseRemote m).voiceSessionId)) = none :=
      Record.queuedUnder_messageField _ _ _
    rw [hreply]
    refine Eq.trans ?_ (List.append_nil _).symm
    exact (tagged_say_none (by rfl)).trans ((tagged_send_none hbegin).trans hsay)
  | other hk =>
    have hreply : o.reply d.heard m = none := by
      unfold Options.reply
      split <;> first | rfl | simp_all
    rw [hreply]
    exact hsay.trans (List.append_nil _).symm

end Receive

section Turns

variable {o : Options} {d : Dialogue} (h : d.Answered o)

include h

theorem Answered.of_eq {d' : Dialogue}
    (hr : d'.tagged (Record.queuedUnder replyNumbers) = d.tagged (Record.queuedUnder replyNumbers))
    (hh : d'.tagged Record.handled = d.tagged Record.handled)
    (hf : d'.activeFeatures = d.activeFeatures) (hv : d'.voiceEnabled = d.voiceEnabled) :
    d'.Answered o := by
  have hheard : d'.heard = d.heard := congrArg (List.map Prod.snd) hh
  refine ⟨?_, ?_, ?_⟩
  · rw [hr, hh, h.replies]
  · rw [hf, hheard, h.activeFeatures]
  · rw [hv, hheard, h.voiceEnabled]

theorem Answered.send {m : Bytes} (hm : Record.queuedUnder replyNumbers (.queued m) = none) :
    (d.send m).Answered o :=
  h.of_eq (tagged_send_none hm) (tagged_send_none rfl) (send_activeFeatures d m)
    (send_voiceEnabled d m)

theorem Answered.receive (hl : d.live = true) (m : Bytes) : (d.receive m).Answered o := by
  have hears := d.hears m
  refine ⟨?_, ?_, ?_⟩
  · rw [hears.replies hl h.activeFeatures, hears.handled, Options.answers_append, h.replies]
    rfl
  · rw [hears.activeFeatures, hears.heard, Options.mask_snoc, h.activeFeatures]
  · have hmask : (d.receive m).activeFeatures = o.mask (d.heard ++ [m]) := by
      rw [hears.activeFeatures, Options.mask_snoc, h.activeFeatures]
    rw [hears.voiceEnabled, hears.heard, hmask]
    by_cases hk : (parseRemote m).kind = .configure
    · have hsome : (supportedMasks (d.heard ++ [m])).isEmpty = false := by
        simp [supportedMasks, hk]
      rw [if_pos hk, hsome]
      rfl
    · have hsame : supportedMasks (d.heard ++ [m]) = supportedMasks d.heard := by
        simp [supportedMasks, hk]
      rw [if_neg hk, hsame, Options.mask_snoc, if_neg hk, h.voiceEnabled]

theorem Answered.turn {e : Event} {d' : Dialogue} (ht : Turn d e d') : d'.Answered o := by
  cases ht with
  | rest => exact h
  | receive m hl => exact h.receive hl m
  | send hm hl =>
    exact h.send (hm.not_queuedUnder rfl rfl rfl)
  | startVoice =>
    have hset : { d with voiceStarting := true }.Answered o := h.of_eq rfl rfl rfl rfl
    exact hset.send (Record.queuedUnder_messageField _ _ _)
  | voiceData hl hv pcm =>
    refine sendAll_induction (P := fun d ↦ d.Answered o) ?_ h
    intro d m hm hd
    obtain ⟨samples, rfl⟩ := World.mem_voicePayloads hm
    exact hd.send (Record.queuedUnder_messageField _ _ _)
  | stopVoice =>
    have hset : { d with voiceStarting := false }.Answered o := h.of_eq rfl rfl rfl rfl
    cases hv : d.voiceSessionId with
    | none =>
      rw [stopVoice_none hv]
      exact hset
    | some s =>
      rw [stopVoice_some hv]
      have hend := hset.send (m := remoteVoiceEnd s) (Record.queuedUnder_messageField _ _ _)
      exact hend.of_eq (tagged_say_none rfl) (tagged_say_none rfl) rfl rfl
  | voiceTimeout => exact h.of_eq rfl rfl rfl rfl

end Turns

theorem answered_of_reaches {o : Options} {es : List Event} {w : World} (h : Reaches o es w) :
    w.dialogue.Answered o :=
  World.dialogue_of_reaches h ⟨rfl, rfl, rfl⟩ (fun _ _ _ hd ht ↦ hd.turn ht)
    fun _ _ hd ↦ hd.of_eq rfl rfl rfl rfl

end Dialogue

section Decoding

open Outgoing

theorem decode_pingResponse (v : Int32) :
    decode (remotePingResponse v) = some (pingResponse v) := by
  refine decode_bytes (pingResponse v) ?_ trivial
  exact Item.number_length_lt ⟨9, by decide⟩ ⟨1, by decide⟩ (zeroExtend v)

theorem decode_setActiveResponse (f : Int32) :
    decode (remoteSetActiveResponse f) = some (setActiveResponse f) := by
  refine decode_bytes (setActiveResponse f) ?_ trivial
  exact Item.number_length_lt ⟨2, by decide⟩ ⟨1, by decide⟩ (signExtend f)

theorem decode_configureResponse (f : Int32) :
    decode (remoteConfigureResponse f) = some (configureResponse f) := by
  refine decode_bytes (configureResponse f) ?_ trivial
  have hdevice : (encoded device).length ≤ 100 := by decide +kernel
  have hbody : (encoded (configureResponse f).body).length ≤
      20 + 0 + (20 + (encoded device).length + 0) := encoded_length_le _
  have hall : (encoded (configureResponse f).layout).length ≤
      20 + (encoded (configureResponse f).body).length + 0 := encoded_length_le _
  rw [bytes_eq]
  omega

theorem parseRemote_ping {v : Int32} {u : UInt64} (h : Int32Form v u) :
    parseRemote (Writer.messageField {} 8 (Writer.varintField {} 1 u)).data =
      { kind := .ping, pingValue := v } := by
  have hlen : (encoded [.message ⟨8, by decide⟩ [.varint ⟨1, by decide⟩ u]]).length < 2 ^ 64 :=
    Item.number_length_lt ⟨8, by decide⟩ ⟨1, by decide⟩ u
  have hbody := nested_length_lt hlen List.mem_cons_self
  refine (parseRemote_message hlen).trans ?_
  simp [Item.field, parseField, findVarint_encoded hbody, h.asI32]

end Decoding

namespace World

def heard (w : World) : List Bytes := (w.tagged Record.handled).map Prod.snd

theorem Awaits.received_frames {g : ℕ} {w w' : World} {es : List Event} (hw : w.Inv)
    (ha : Awaits g (.length []) w) (hr : Run World.step w es w') (hg : w'.impl.generation = g) :
    w'.received g = w.received g ++ (unframe maxFrameSize (delivered g es)).payloads := by
  obtain ⟨ph, ps, ha', hrec, hres⟩ := ha.run hw hr hg
  have hstop : resume maxFrameSize ph [] = ⟨[], ph.stop, []⟩ :=
    resume_short ha'.valid ha'.valid.capacity_pos
  have hend := hres []
  rw [List.append_nil, resume_boundary, hstop] at hend
  rw [hrec, hend]
  simp [Outcome.prepend]

/-- The automatic replies of a run are the answers to the messages received in
it, one by one and on their connections; on a connection these are the payloads
of the frames delivered to it. -/
theorem automatic_replies {o : Options} {es : List Event} {w : World} (h : Reaches o es w) :
    w.tagged (Record.queuedUnder [1, 2, 9]) = o.answers [] (w.tagged Record.handled) ∧
    w.impl.activeFeatures = o.mask w.heard ∧
    w.impl.voiceEnabled =
      (!(supportedMasks w.heard).isEmpty && (o.mask w.heard &&& featureVoice != 0)) ∧
    (∀ ms feature, (o.features &&& feature = 0 ∨ ∃ s ∈ supportedMasks ms, s &&& feature = 0) →
      o.mask ms &&& feature = 0) ∧
    (∀ features, Outgoing.decode (remoteConfigureResponse features) =
        some (.configureResponse features) ∧
      Outgoing.decode (remoteSetActiveResponse features) = some (.setActiveResponse features)) ∧
    (∀ v u, Int32Form v u → ∀ before, ∃ r,
      o.reply before (Writer.messageField {} 8 (Writer.varintField {} 1 u)).data = some r ∧
        Outgoing.decode r = some (.pingResponse v)) ∧
    ∀ pre post w₀, es = pre ++ post → Reaches o pre w₀ → w₀.AtBoundary →
      w₀.impl.generation = w.impl.generation →
        w.received w.impl.generation = w₀.received w.impl.generation ++
          (unframe maxFrameSize (delivered w.impl.generation post)).payloads := by
  obtain ⟨hreplies, hfeatures, hvoice⟩ := Dialogue.answered_of_reaches h
  have hhandled : w.dialogue.tagged Record.handled = w.tagged Record.handled := by
    apply tagged_dialogue
    intro r hr
    cases r with
    | received m => cases hr
    | _ => rfl
  have hqueued : w.dialogue.tagged (Record.queuedUnder [1, 2, 9]) =
      w.tagged (Record.queuedUnder [1, 2, 9]) :=
    tagged_dialogue Record.queuedUnder_of_not_isSaid
  have hheard : w.dialogue.heard = w.heard := congrArg (List.map Prod.snd) hhandled
  rw [hheard] at hfeatures hvoice
  refine ⟨?_, hfeatures, hvoice, fun ms feature ↦ o.mask_and_eq_zero,
    fun f ↦ ⟨decode_configureResponse f, decode_setActiveResponse f⟩, ?_, ?_⟩
  · rw [← hqueued, ← hhandled]
    exact hreplies
  · intro v u hu before
    refine ⟨remotePingResponse v, ?_, decode_pingResponse v⟩
    rw [Options.reply, parseRemote_ping hu]
  · intro pre post w₀ hes h₀ hb hg
    rw [hes] at h
    obtain ⟨t, ht, hpost⟩ := h.split
    obtain rfl := h₀.unique ht
    rw [← hg]
    exact hb.awaits.received_frames (inv_of_reaches h₀) hpost hg.symm

theorem automatic_replies_ping :
    ∃ w, Reaches {} (.connect {} :: Event.handshakes 1 ++
        Event.reads 1 (Writer.messageField {} 8 (Writer.varintField {} 1 (signExtend (-2)))).data) w ∧
      w.tagged (Record.queuedUnder [1, 2, 9]) = [(1, remotePingResponse (-2))] ∧
      w.impl.activeFeatures = Options.mask {} w.heard := by
  have h : Reaches {} (.connect {} :: Event.handshakes 1 ++
      Event.reads 1 (Writer.messageField {} 8 (Writer.varintField {} 1 (signExtend (-2)))).data) _ :=
    run_of_isSome (by decide +kernel)
  exact ⟨_, h, by decide +kernel, (automatic_replies h).2.1⟩

end World

end AndroidTvRemote
