import AndroidTvRemote.Outbox

namespace AndroidTvRemote

open Wire Protocol SteadyTimer Runs

def Wire.outerNumber (m : Bytes) : Option ℕ :=
  (Base128.scan 10 m).map fun p ↦ Base128.denote p.1 / 8

theorem Wire.outerNumber_messageField (n : UInt32) (inner : Writer) :
    outerNumber (Writer.messageField {} n inner).data = some n.toNat := by
  have hn := n.toNat_lt
  have hlen : (Base128.encode (8 * n.toNat + 2)).length ≤ 10 :=
    Base128.encode_length_le 9 (by omega)
  rw [Writer.messageField, Writer.bytesField_data, List.nil_append, List.append_assoc, outerNumber,
    Base128.scan_encode _ hlen, Option.map_some, Base128.denote_encode]
  congr 1
  omega

def Record.queuedUnder (numbers : List ℕ) : Record → Option Bytes
  | queued m => if (outerNumber m).any numbers.contains then some m else none
  | _ => none

theorem Record.queuedUnder_messageField (numbers : List ℕ) (n : UInt32) (inner : Writer) :
    queuedUnder numbers (.queued (Writer.messageField {} n inner).data) =
      if numbers.contains n.toNat then some (Writer.messageField {} n inner).data else none := by
  rw [queuedUnder, outerNumber_messageField]
  rfl

def Record.handled : Record → Option Bytes
  | received payload => some payload
  | _ => none

/-- The records of the dialogue with the TV: what was received, what was queued
for it, and what the application was told about a voice session. -/
def Record.isSaid : Record → Bool
  | received _ | queued _ | callback (.voiceStarted _) | callback .voiceStopped => true
  | _ => false

theorem Record.queuedUnder_of_not_isSaid {numbers : List ℕ} (r : Record) (hr : r.isSaid = false) :
    queuedUnder numbers r = none := by
  cases r with
  | queued m => cases hr
  | _ => rfl

/-- All that the dialogue with the TV depends on, over all connections of the
object, and the dialogue so far. -/
structure Dialogue where
  generation : ℕ
  live : Bool
  activeFeatures : Int32
  voiceEnabled : Bool
  voiceStarting : Bool
  voiceSessionId : Option Int32
  said : List (ℕ × Record)

namespace Dialogue

def say (r : Record) (d : Dialogue) : Dialogue := { d with said := d.said ++ [(d.generation, r)] }

def send (m : Bytes) (d : Dialogue) : Dialogue := if d.live then d.say (.queued m) else d

def receive (m : Bytes) (d : Dialogue) : Dialogue :=
  let d := d.say (.received m)
  let incoming := parseRemote m
  match incoming.kind with
  | .configure =>
    let features := d.activeFeatures &&& incoming.supportedFeatures
    { d with
      activeFeatures := features
      voiceEnabled := features &&& featureVoice != 0 }.send (remoteConfigureResponse features)
  | .setActive => d.send (remoteSetActiveResponse d.activeFeatures)
  | .ping => d.send (remotePingResponse incoming.pingValue)
  | .voiceBegin =>
    if d.voiceStarting then
      ({ d with
        voiceStarting := false
        voiceSessionId := some incoming.voiceSessionId }.send
          (remoteVoiceBegin incoming.voiceSessionId)).say
            (.callback (.voiceStarted incoming.voiceSessionId))
    else d
  | .imeKeyInject | .imeBatchEdit | .volume | .start | .error | .unknown => d

inductive Hears (d : Dialogue) (m : Bytes) : Dialogue → Prop
  | configure (hk : (parseRemote m).kind = .configure) (features : Int32)
      (hf : features = d.activeFeatures &&& (parseRemote m).supportedFeatures) :
      Hears d m ({ d.say (.received m) with
        activeFeatures := features
        voiceEnabled := features &&& featureVoice != 0 }.send (remoteConfigureResponse features))
  | setActive (hk : (parseRemote m).kind = .setActive) :
      Hears d m ((d.say (.received m)).send (remoteSetActiveResponse d.activeFeatures))
  | ping (hk : (parseRemote m).kind = .ping) :
      Hears d m ((d.say (.received m)).send (remotePingResponse (parseRemote m).pingValue))
  | voiceBegin (hk : (parseRemote m).kind = .voiceBegin) (hv : d.voiceStarting = true) :
      Hears d m (({ d.say (.received m) with
        voiceStarting := false
        voiceSessionId := some (parseRemote m).voiceSessionId }.send
          (remoteVoiceBegin (parseRemote m).voiceSessionId)).say
            (.callback (.voiceStarted (parseRemote m).voiceSessionId)))
  | other (hk : (parseRemote m).kind ∉ [.configure, .setActive, .ping])
      (hv : (parseRemote m).kind = .voiceBegin → d.voiceStarting = false) :
      Hears d m (d.say (.received m))

theorem hears (d : Dialogue) (m : Bytes) : Hears d m (d.receive m) := by
  unfold receive
  simp only
  split
  next hk => exact .configure hk _ rfl
  next hk => exact .setActive hk
  next hk => exact .ping hk
  next hk =>
    split
    next hv => exact .voiceBegin hk hv
    next hv => exact .other (by simp [hk]) fun _ ↦ Bool.eq_false_iff.mpr hv
  all_goals
    next hk => exact .other (by simp [hk]) fun h ↦ by cases hk.symm.trans h

def startVoice (d : Dialogue) : Dialogue :=
  { d with voiceStarting := true }.send (remoteKey keyCodeSearch .short)

def sendAll (ms : List Bytes) (d : Dialogue) : Dialogue := ms.foldl (fun d m ↦ d.send m) d

def stopVoice (d : Dialogue) : Dialogue :=
  let d := { d with voiceStarting := false }
  match d.voiceSessionId with
  | none => d
  | some s => { d.send (remoteVoiceEnd s) with voiceSessionId := none }.say (.callback .voiceStopped)

theorem stopVoice_none {d : Dialogue} (hv : d.voiceSessionId = none) :
    d.stopVoice = { d with voiceStarting := false } := by
  simp [stopVoice, hv]

theorem stopVoice_some {d : Dialogue} {s : Int32} (hv : d.voiceSessionId = some s) :
    d.stopVoice = { { d with voiceStarting := false }.send (remoteVoiceEnd s) with
      voiceSessionId := none }.say (.callback .voiceStopped) := by
  simp [stopVoice, hv]

def close (live : Bool) (d : Dialogue) : Dialogue :=
  { d with
    generation := d.generation + 1
    live := live
    voiceStarting := false
    voiceSessionId := none }

section Tagged

variable {α : Type} {f : Record → Option α} {d : Dialogue}

def tagged (f : Record → Option α) (d : Dialogue) : List (ℕ × α) :=
  d.said.filterMap fun r ↦ (f r.2).map (Prod.mk r.1)

theorem filterMap_say (h : ℕ × Record → Option α) (r : Record) :
    (d.say r).said.filterMap h = d.said.filterMap h ++ (h (d.generation, r)).toList := by
  rw [say, List.filterMap_append]
  cases hr : h (d.generation, r) with
  | none => simp [hr]
  | some a => simp [hr]

theorem tagged_say (r : Record) :
    (d.say r).tagged f = d.tagged f ++ ((f r).map (Prod.mk d.generation)).toList :=
  filterMap_say _ r

theorem tagged_say_none {r : Record} (hr : f r = none) : (d.say r).tagged f = d.tagged f := by
  rw [tagged_say, hr]
  exact List.append_nil _

theorem tagged_send_none {m : Bytes} (hm : f (.queued m) = none) :
    (d.send m).tagged f = d.tagged f := by
  unfold send
  split
  · exact tagged_say_none hm
  · rfl

def frames (f : Record → Option α) (g : ℕ) (d : Dialogue) : List α :=
  d.said.filterMap fun r ↦ if r.1 = g then f r.2 else none

theorem frames_say (r : Record) (g : ℕ) :
    (d.say r).frames f g = d.frames f g ++ (if d.generation = g then f r else none).toList :=
  filterMap_say _ r

theorem frames_say_none {r : Record} (hr : f r = none) (g : ℕ) :
    (d.say r).frames f g = d.frames f g := by
  rw [frames_say, hr, ite_self]
  exact List.append_nil _

theorem frames_send_none {m : Bytes} (hm : f (.queued m) = none) (g : ℕ) :
    (d.send m).frames f g = d.frames f g := by
  unfold send
  split
  · exact frames_say_none hm g
  · rfl

theorem send_of_live (hl : d.live = true) (m : Bytes) : d.send m = d.say (.queued m) := if_pos hl

end Tagged

theorem send_eq (d : Dialogue) (m : Bytes) : ∃ l, d.send m = { d with said := l } := by
  unfold send
  split
  · exact ⟨_, rfl⟩
  · exact ⟨d.said, rfl⟩

@[simp] theorem send_generation (d : Dialogue) (m : Bytes) : (d.send m).generation = d.generation := by
  obtain ⟨l, hl⟩ := d.send_eq m
  rw [hl]

@[simp] theorem send_activeFeatures (d : Dialogue) (m : Bytes) :
    (d.send m).activeFeatures = d.activeFeatures := by
  obtain ⟨l, hl⟩ := d.send_eq m
  rw [hl]

@[simp] theorem send_voiceEnabled (d : Dialogue) (m : Bytes) :
    (d.send m).voiceEnabled = d.voiceEnabled := by
  obtain ⟨l, hl⟩ := d.send_eq m
  rw [hl]

@[simp] theorem send_voiceStarting (d : Dialogue) (m : Bytes) :
    (d.send m).voiceStarting = d.voiceStarting := by
  obtain ⟨l, hl⟩ := d.send_eq m
  rw [hl]

@[simp] theorem send_voiceSessionId (d : Dialogue) (m : Bytes) :
    (d.send m).voiceSessionId = d.voiceSessionId := by
  obtain ⟨l, hl⟩ := d.send_eq m
  rw [hl]

theorem sendAll_induction {P : Dialogue → Prop} {ms : List Bytes}
    (hP : ∀ d, ∀ m ∈ ms, P d → P (d.send m)) {d : Dialogue} (h : P d) : P (d.sendAll ms) := by
  induction ms generalizing d with
  | nil => exact h
  | cons m ms ih =>
    refine ih (fun d m hm ↦ hP d m (List.mem_cons_of_mem _ hm)) ?_
    exact hP d m List.mem_cons_self h

inductive Command : Bytes → Prop
  | key (key : Int32) (direction : Direction) : Command (remoteKey key direction)
  | text (text : Bytes) (c f : Int32) : Command (remoteText text c f)
  | appLink (link : Bytes) : Command (remoteAppLink link)

theorem Command.not_queuedUnder {m : Bytes} (hm : Command m) {numbers : List ℕ}
    (hkey : numbers.contains 10 = false) (htext : numbers.contains 21 = false)
    (hlink : numbers.contains 90 = false) : Record.queuedUnder numbers (.queued m) = none := by
  cases hm with
  | key k direction => exact (Record.queuedUnder_messageField ..).trans (if_neg (by simpa using hkey))
  | text text c f => exact (Record.queuedUnder_messageField ..).trans (if_neg (by simpa using htext))
  | appLink link => exact (Record.queuedUnder_messageField ..).trans (if_neg (by simpa using hlink))

inductive Turn (d : Dialogue) : Event → Dialogue → Prop
  | rest {e : Event} : Turn d e d
  | receive {op : Op} {c : Completion} (m : Bytes) (hl : d.live = true) :
      Turn d (.complete op c) (d.receive m)
  | send {e : Event} {m : Bytes} (hm : Command m) (hl : d.live = true) : Turn d e (d.send m)
  | startVoice (hl : d.live = true) (hv : d.voiceStarting = false)
      (hn : d.voiceSessionId = none) : Turn d .startVoice d.startVoice
  | voiceData {s : Int32} (hl : d.live = true) (hv : d.voiceSessionId = some s) (pcm : Bytes) :
      Turn d (.sendVoiceData pcm) (d.sendAll (World.voicePayloads s pcm 0))
  | stopVoice (hl : d.voiceSessionId.isSome = true → d.live = true) :
      Turn d .stopVoice d.stopVoice
  | voiceTimeout {q : Wait Unit × Code} : Turn d (.voiceWait q) { d with voiceStarting := false }

end Dialogue

/-- The event ends the connection the object has. -/
def Event.closes (w : World) : Event → Bool
  | connect _ | disconnect | disconnectAndWait => true
  | reconnectWait q _ => q.2 = .success ∧ w.impl.userDisconnect = false
  | idleWait q =>
    q.2 = .success ∧ w.impl.userDisconnect = false ∧ q.1.captured = w.impl.generation
  | complete op c => op.generation = w.impl.generation ∧
      (c.error.isSome ∨ op.kind = .readLength ∧ w.impl.refuses (c.bytes.headD 0))
  | _ => false

namespace World

def said (w : World) : List (ℕ × Record) := w.trace.filter fun r ↦ r.2.isSaid

def tagged {α : Type} (f : Record → Option α) (w : World) : List (ℕ × α) :=
  w.trace.filterMap fun r ↦ (f r.2).map (Prod.mk r.1)

def dialogue (w : World) : Dialogue where
  generation := w.impl.generation
  live := w.impl.stream.isSome
  activeFeatures := w.impl.activeFeatures
  voiceEnabled := w.impl.voiceEnabled
  voiceStarting := w.impl.voiceStarting
  voiceSessionId := w.impl.voiceSessionId
  said := w.said

theorem filterMap_said {α : Type} {h : ℕ × Record → Option α} {w : World}
    (hh : ∀ r, r.2.isSaid = false → h r = none) : w.said.filterMap h = w.trace.filterMap h := by
  refine (List.filterMap_filter ..).trans (List.filterMap_congr ?_)
  intro r _
  cases hr : r.2.isSaid with
  | true => rfl
  | false => simp [hh r hr]

theorem tagged_dialogue {α : Type} {f : Record → Option α} {w : World}
    (hf : ∀ r, r.isSaid = false → f r = none) : w.dialogue.tagged f = w.tagged f :=
  filterMap_said fun r hr ↦ by rw [hf r.2 hr, Option.map_none]

theorem frames_dialogue {f : Record → Option Bytes} {w : World} {g : ℕ}
    (hf : ∀ r, r.isSaid = false → f r = none) : w.dialogue.frames f g = w.frames f g :=
  filterMap_said fun r hr ↦ by rw [hf r.2 hr, ite_self]

theorem mem_voicePayloads {s : Int32} {data m : Bytes} {offset : ℕ}
    (hm : m ∈ voicePayloads s data offset) : ∃ samples, m = remoteVoicePayload s samples := by
  fun_induction voicePayloads s data offset with
  | case1 offset hlt ih =>
    rcases List.mem_cons.mp hm with rfl | hm
    · exact ⟨_, rfl⟩
    · exact ih hm
  | case2 => cases hm

section Primitives

variable {w : World}

theorem said_append {w' : World} {l : List (ℕ × Record)} (ht : w'.trace = w.trace ++ l)
    (hl : l.filter (fun r ↦ r.2.isSaid) = []) : w'.said = w.said := by
  rw [said, ht, List.filter_append, hl, List.append_nil]
  rfl

theorem dialogue_eq {d : Dialogue} {l : List (ℕ × Record)} (hs : w.said = l)
    (h : { w.dialogue with said := l } = d) : w.dialogue = d := by
  rw [← h, ← hs]
  rfl

theorem dialogue_log {r : Record} (hr : r.isSaid = false) : (w.log r).dialogue = w.dialogue :=
  dialogue_eq (said_append (log_trace w r) (List.filter_cons_of_neg (by simp [hr]))) rfl

theorem dialogue_say {r : Record} (hr : r.isSaid = true) :
    (w.log r).dialogue = w.dialogue.say r := by
  refine dialogue_eq (l := w.said ++ [(w.impl.generation, r)]) ?_ rfl
  rw [said, log_trace, List.filter_append, List.filter_cons_of_pos (by exact hr)]
  rfl

theorem dialogue_beginWrite : w.beginWrite.dialogue = w.dialogue := by
  unfold beginWrite
  split
  · exact dialogue_log (w := { w with impl.writeInProgress := true }) rfl
  · rfl

theorem dialogue_queueMessage (m : Bytes) :
    (w.queueMessage m).dialogue = w.dialogue.send m := by
  cases hs : w.impl.stream with
  | none =>
    rw [queueMessage_none w m hs]
    exact (if_neg (by simp [dialogue, hs])).symm
  | some s =>
    have hlive : w.impl.stream.isSome = true := by simp [hs]
    have hsend : w.dialogue.send m = w.dialogue.say (.queued m) := if_pos hlive
    rw [queueMessage_eq w m hlive, hsend]
    have hsay := dialogue_say (r := .queued m)
      (w := { w.resetIdleTimer with impl.writeQueue := w.impl.writeQueue ++ [frame m] }) rfl
    simp only
    split
    · exact hsay
    · exact dialogue_beginWrite.trans hsay

theorem dialogue_sendAll (ms : List Bytes) :
    (ms.foldl (fun w m ↦ w.queueMessage m) w).dialogue = w.dialogue.sendAll ms := by
  induction ms generalizing w with
  | nil => rfl
  | cons m ms ih =>
    rw [List.foldl_cons, ih, dialogue_queueMessage]
    rfl

theorem dialogue_handleMessage (m : Bytes) :
    (w.handleMessage m).dialogue = w.dialogue.receive m := by
  have hsay : (w.log (.received m)).dialogue = w.dialogue.say (.received m) := dialogue_say rfl
  have hsaid := congrArg Dialogue.said hsay
  unfold handleMessage Dialogue.receive
  simp only
  cases hk : (parseRemote m).kind with
  | configure =>
    refine (dialogue_queueMessage _).trans (congrArg (Dialogue.send _) ?_)
    exact (dialogue_log rfl).trans (dialogue_eq hsaid rfl)
  | setActive => exact (dialogue_queueMessage _).trans (congrArg (Dialogue.send _) hsay)
  | imeKeyInject => exact (dialogue_log rfl).trans (dialogue_eq hsaid rfl)
  | imeBatchEdit => exact dialogue_eq hsaid rfl
  | volume => exact (dialogue_log rfl).trans (dialogue_eq hsaid rfl)
  | start =>
    refine (dialogue_log rfl).trans ((dialogue_log rfl).trans ((dialogue_log rfl).trans ?_))
    exact dialogue_eq hsaid rfl
  | ping => exact (dialogue_queueMessage _).trans (congrArg (Dialogue.send _) hsay)
  | error => exact (dialogue_log rfl).trans hsay
  | voiceBegin =>
    by_cases hv : w.impl.voiceStarting = true
    · rw [if_pos (by exact hv), if_pos (by exact hv)]
      refine (dialogue_say rfl).trans (congrArg (Dialogue.say _) ?_)
      refine (dialogue_queueMessage _).trans (congrArg (Dialogue.send _) ?_)
      exact dialogue_eq hsaid rfl
    · rw [if_neg (by exact hv), if_neg (by exact hv)]
      exact hsay
  | unknown => exact hsay

theorem dialogue_stopVoice : w.stopVoice.dialogue = w.dialogue.stopVoice := by
  cases hv : w.impl.voiceSessionId with
  | none =>
    rw [Dialogue.stopVoice_none (d := w.dialogue) hv, stopVoice_none hv]
    rfl
  | some s =>
    have hq := dialogue_queueMessage (w := { w with
      voiceTimer := w.voiceTimer.cancel
      impl.voiceStarting := false }) (remoteVoiceEnd s)
    rw [Dialogue.stopVoice_some (d := w.dialogue) hv, stopVoice_some hv]
    refine (dialogue_say rfl).trans (congrArg (Dialogue.say _) ?_)
    exact congrArg (fun d ↦ { d with voiceSessionId := none }) hq

theorem dialogue_startOnStream (hs : w.impl.stream.isSome = true) (op : Op) :
    (w.startOnStream op).dialogue = w.dialogue := by
  obtain ⟨s, hs⟩ := Option.isSome_iff_exists.mp hs
  simp only [startOnStream, hs]
  rfl

theorem dialogue_readOneLengthByte (g : ℕ) : (w.readOneLengthByte g).dialogue = w.dialogue := by
  unfold readOneLengthByte
  split <;> rfl

theorem dialogue_beginReadLength (g : ℕ) : (w.beginReadLength g).dialogue = w.dialogue := by
  unfold beginReadLength
  split
  · rfl
  · exact dialogue_readOneLengthByte (w := { w with impl.readLength := 0, impl.readShift := 0 }) g

end Primitives

section Closing

variable {w : World} (hu : w.impl.userDisconnect = false) (ha : w.impl.shuttingDown = false)

include hu ha

theorem dialogue_lose :
    (w.handleConnectionLoss w.impl.generation).dialogue = w.dialogue.close false := by
  rw [handleConnectionLoss_spec hu ha]
  simp only
  split_ifs
  all_goals exact dialogue_eq (said_append (List.append_assoc _ _ _) rfl) rfl

theorem dialogue_giveUp {g : ℕ} {d : Dialogue} (hg : w.impl.generation = g)
    (hd : w.dialogue = d) (error : String) :
    ((w.emitError error).handleConnectionLoss g).dialogue = d.close false := by
  subst hg hd
  refine (dialogue_lose (w := w.emitError error) hu ha).trans (congrArg (Dialogue.close false) ?_)
  exact dialogue_log rfl

theorem dialogue_connectionFailed (prefixText error : String) :
    (w.connectionFailed prefixText error w.impl.generation).dialogue = w.dialogue.close false := by
  rw [connectionFailed_spec prefixText error hu ha]
  exact dialogue_giveUp hu ha rfl rfl _

theorem dialogue_refuse (error : String) :
    (w.authenticationFailed error w.impl.generation).dialogue = w.dialogue.close false := by
  rw [authenticationFailed_spec error hu ha]
  simp only
  split_ifs
  all_goals
    exact dialogue_eq (said_append ((List.append_assoc _ _ _).trans (List.append_assoc _ _ _))
      rfl) rfl

theorem dialogue_beginConnect (reconnecting : Bool) (a : IdentityAttempt) :
    ∃ live, (w.beginConnect reconnecting a).dialogue = w.dialogue.close live := by
  obtain ⟨n, context, l, hl, h⟩ := beginConnect_cases reconnecting a ha hu
  have hnil : l.filter (fun r ↦ r.2.isSaid) = [] := by
    refine List.filter_eq_nil_iff.mpr ?_
    intro r hr
    obtain ⟨c, b, rfl⟩ := hl r hr
    exact Bool.false_ne_true
  obtain ⟨error, he⟩ | ⟨k, -, he⟩ := h
  all_goals
    rw [he]
    refine ⟨_, dialogue_eq (said_append rfl ?_) rfl⟩
    rw [List.filter_append, hnil]
    rfl

end Closing

/-- What an event does to the dialogue: it ends the connection, or it adds a
turn. -/
inductive Speaks (w : World) (e : Event) (w' : World) : Prop
  | closes (hc : e.closes w = true) (live : Bool) (h : w'.dialogue = w.dialogue.close live)
  | turn (hc : e.closes w = false) (h : Dialogue.Turn w.dialogue e w'.dialogue)

theorem Speaks.rest {w w' : World} {e : Event} (hc : e.closes w = false)
    (h : w'.dialogue = w.dialogue) : Speaks w e w' := .turn hc (h ▸ .rest)

section Completions

variable {v : World} {c : Completion} (hu : v.impl.userDisconnect = false)
  (ha : v.impl.shuttingDown = false)

include hu ha

/-- Every operation that fails ends its connection. -/
theorem dialogue_failed {k : OpKind} {error : String} (he : c.error = some error) :
    (v.handler ⟨v.impl.generation, k⟩ c).dialogue = v.dialogue.close false := by
  cases k with
  | resolve | connect | readLength | readBody =>
    simp only [handler, onResolve, onConnect, onReadLength, onReadBody, ne_eq, not_true_eq_false,
      if_false, he]
    exact dialogue_connectionFailed hu ha _ _
  | handshake =>
    simp only [handler, onHandshake, ne_eq, not_true_eq_false, if_false, he]
    exact dialogue_refuse hu ha error
  | write f =>
    simp only [handler, onWrite, ne_eq, not_true_eq_false, if_false, he]
    exact dialogue_connectionFailed (w := { v with impl.writeInProgress := false }) hu ha _ _

/-- The next byte of a length is refused, is not the last, or brings the end of
an empty message. -/
theorem dialogue_lengthByte (hs : v.impl.stream.isSome = true) (he : c.error = none) :
    if v.impl.refuses v.impl.lengthByte then
      (v.onReadLength v.impl.generation c).dialogue = v.dialogue.close false
    else (v.onReadLength v.impl.generation c).dialogue = v.dialogue ∨
      (v.onReadLength v.impl.generation c).dialogue = v.dialogue.receive [] := by
  simp only [onReadLength, ne_eq, not_true_eq_false, if_false, he, Impl.refuses]
  by_cases hb : (v.impl.lengthByte &&& 0x80 : UInt8) = 0
  · simp only [hb, not_true_eq_false, if_false, decide_eq_true_eq]
    split
    · exact dialogue_giveUp (by exact hu) (by exact ha) (by rfl) (by rfl) _
    · split
      · exact .inr ((dialogue_beginReadLength _).trans (dialogue_handleMessage _))
      · exact .inl (dialogue_startOnStream (by exact hs) _)
  · simp only [hb, not_false_eq_true, if_true, decide_eq_true_eq]
    split
    · exact dialogue_giveUp (by exact hu) (by exact ha) (by rfl) (by rfl) _
    · exact .inl (dialogue_readOneLengthByte _)

end Completions

theorem turn_succeeded {v : World} {c : Completion} {k : OpKind} (hs : v.impl.stream.isSome = true)
    (he : c.error = none) (hk : k ≠ .readLength) :
    Dialogue.Turn v.dialogue (.complete ⟨v.impl.generation, k⟩ c)
      (v.handler ⟨v.impl.generation, k⟩ c).dialogue := by
  cases k with
  | resolve | connect =>
    simp only [handler, onResolve, onConnect, ne_eq, not_true_eq_false, if_false, he]
    rw [dialogue_startOnStream hs]
    exact .rest
  | handshake =>
    simp only [handler, onHandshake, ne_eq, not_true_eq_false, if_false, he]
    have hread : ((World.beginReadLength v.impl.generation
        { v.log .handshake with impl.reconnectDelay := 100 }).resetIdleTimer).dialogue =
          v.dialogue :=
      (dialogue_beginReadLength _).trans (dialogue_log rfl)
    rw [hread]
    exact .rest
  | readLength => exact absurd rfl hk
  | readBody size =>
    simp only [handler, onReadBody, ne_eq, not_true_eq_false, if_false, he]
    rw [dialogue_beginReadLength, dialogue_handleMessage]
    exact .receive _ hs
  | write f =>
    simp only [handler, onWrite, ne_eq, not_true_eq_false, if_false, he]
    rw [dialogue_beginWrite]
    exact .rest

theorem fill_keeps (op : Op) (c : Completion) (w : World) :
    let v := { w with ops := w.ops.erase op }.fill op c
    v.dialogue = w.dialogue ∧ v.impl.generation = w.impl.generation ∧
      v.impl.stream = w.impl.stream ∧ v.impl.userDisconnect = w.impl.userDisconnect ∧
      v.impl.shuttingDown = w.impl.shuttingDown ∧
      ∀ byte, v.impl.refuses byte = w.impl.refuses byte := by
  obtain ⟨byte, body, hf⟩ := fill_eq op c { w with ops := w.ops.erase op }
  rw [hf]
  exact ⟨rfl, rfl, rfl, rfl, rfl, fun _ ↦ rfl⟩

theorem Inv.speaks_complete {w : World} (h : w.Inv) {op : Op} {c : Completion} (hop : op ∈ w.ops)
    (hfit : c.Fits op.kind) : Speaks w (.complete op c) (w.complete op c) := by
  obtain ⟨hd, hgen, hstream, hwant, halive, hrefuses⟩ := fill_keeps op c w
  by_cases hg : op.generation = w.impl.generation
  · have hs := h.live_of_op hop hg
    have hu := hwant.trans (h.opened hs).wanted
    have ha := halive.trans h.alive
    rw [← hstream] at hs
    obtain ⟨g, k⟩ := op
    obtain rfl : g = w.impl.generation := hg
    have hbyte : k = .readLength → c.error = none →
        (fill ⟨w.impl.generation, k⟩ c
          { w with ops := w.ops.erase ⟨w.impl.generation, k⟩ }).impl.lengthByte =
            c.bytes.headD 0 := by
      rintro rfl he
      exact fill_readLength hfit he _
    unfold World.complete
    generalize fill ⟨w.impl.generation, k⟩ c
      { w with ops := w.ops.erase ⟨w.impl.generation, k⟩ } = v at *
    cases he : c.error with
    | some error =>
      refine .closes (by simp [Event.closes, he]) false ?_
      rw [← hd, ← hgen]
      exact dialogue_failed hu ha he
    | none =>
      by_cases hk : k = .readLength
      · subst hk
        have hlength := dialogue_lengthByte hu ha hs he
        rw [hbyte rfl he, hrefuses, hd, hgen] at hlength
        cases hr : w.impl.refuses (c.bytes.headD 0) with
        | true =>
          rw [hr, if_pos rfl] at hlength
          exact .closes (by simp only [Event.closes, he, hr]; simp) false hlength
        | false =>
          rw [hr, if_neg (by decide)] at hlength
          refine .turn (by simp only [Event.closes, he, hr]; simp) ?_
          rcases hlength with hlength | hlength
          · exact hlength ▸ .rest
          · exact hlength ▸ .receive [] (by rw [dialogue, ← hstream]; exact hs)
      · refine .turn (by simp [Event.closes, he, hk]) ?_
        have hturn := turn_succeeded hs he hk
        rwa [hd, hgen] at hturn
  · refine .rest (by simp [Event.closes, hg]) ?_
    rw [World.complete_stale hg]
    exact hd

theorem Inv.speaks_attempt {w w' : World} {e : Event} {a : IdentityAttempt} (h : w.Inv)
    (he : w.step e = some w') (ha : e.attempt w = some a) (hc : e.closes w = true) :
    Speaks w e w' := by
  obtain ⟨reconnecting, delay, t, rfl⟩ := step_attempt ha he
  obtain ⟨live, hlive⟩ := dialogue_beginConnect (w := w.wanting delay t) rfl h.alive reconnecting a
  exact .closes hc live hlive

theorem speaks_command {w w' : World} {e : Event} {m : Bytes} (he : w.step e = some w')
    (hm : e.message w = some m) (hcommand : Dialogue.Command m) (hc : e.closes w = false) :
    Speaks w e w' := by
  rw [step_message hm he]
  refine .turn hc ?_
  rw [dialogue_queueMessage]
  cases hs : w.dialogue.live with
  | true => exact .send hcommand hs
  | false =>
    rw [Dialogue.send, hs, if_neg (by decide)]
    exact .rest

theorem Inv.speaks_startVoice {w : World} (h : w.Inv) : Speaks w .startVoice w.startVoice := by
  unfold World.startVoice
  split_ifs with hv hb hc
  · exact .rest rfl (dialogue_log rfl)
  · exact .rest rfl (dialogue_log rfl)
  · exact .rest rfl (dialogue_log rfl)
  · simp only [Bool.or_eq_true, not_or, Bool.not_eq_true, Option.isSome_eq_false_iff,
      Option.isNone_iff_eq_none] at hb
    have hturn := Dialogue.Turn.startVoice (d := w.dialogue)
      (h.live_of_connected (not_not.mp hc)) hb.1 hb.2
    exact .turn rfl ((dialogue_queueMessage _).symm ▸ hturn)

theorem Inv.speaks_sendVoiceData {w : World} (h : w.Inv) (pcm : Bytes) :
    Speaks w (.sendVoiceData pcm) (w.sendVoiceData pcm) := by
  unfold World.sendVoiceData
  split
  next => exact .rest rfl rfl
  next s hv =>
    have hturn := Dialogue.Turn.voiceData (d := w.dialogue) (h.live_of_session hv) hv pcm
    rw [sendVoiceChunks_eq]
    exact .turn rfl (dialogue_sendAll _ ▸ hturn)

theorem Inv.speaks {w w' : World} {e : Event} (h : w.Inv) (he : w.step e = some w') :
    Speaks w e w' := by
  cases happens_of_step he with
  | connect a => exact h.speaks_attempt he rfl rfl
  | disconnect =>
    exact .closes rfl false (dialogue_eq (said_append (List.append_assoc _ _ _) rfl) rfl)
  | disconnectAndWait =>
    exact .closes rfl false (dialogue_eq (said_append rfl rfl) rfl)
  | sendKey key direction => exact speaks_command he rfl (.key key direction) rfl
  | sendText text => exact speaks_command he rfl (.text text _ _) rfl
  | launchApp appLink => exact speaks_command he rfl (.appLink appLink) rfl
  | startVoice => exact h.speaks_startVoice
  | sendVoiceData pcm => exact h.speaks_sendVoiceData pcm
  | stopVoice =>
    refine .turn rfl ?_
    rw [dialogue_stopVoice]
    refine .stopVoice ?_
    intro hv
    obtain ⟨s, hs⟩ := Option.isSome_iff_exists.mp hv
    exact h.live_of_session hs
  | complete op c hop hfit => exact h.speaks_complete hop hfit
  | reconnectExpires | idleExpires | voiceExpires => exact .rest rfl rfl
  | reconnectWait q a =>
    by_cases hg : q.2 = .success ∧ w.impl.userDisconnect = false
    · exact h.speaks_attempt he (if_pos hg) (decide_eq_true hg)
    · rw [onReconnectWait, if_neg hg]
      exact .rest (decide_eq_false hg) rfl
  | idleWait q =>
    unfold onIdleWait
    split_ifs with hg
    · refine .closes (decide_eq_true hg) false ?_
      exact dialogue_giveUp (by exact hg.2.1) (by exact h.alive) hg.2.2.symm rfl _
    · exact .rest (decide_eq_false hg) rfl
  | voiceWait q =>
    unfold onVoiceWait
    split_ifs
    · refine .turn rfl ?_
      have hgive : (emitError "Android TV did not start a voice session within 2 seconds"
          { w with
            voiceTimer := w.voiceTimer.dequeue q
            impl.voiceStarting := false }).dialogue =
          { w.dialogue with voiceStarting := false } := dialogue_log rfl
      exact hgive ▸ .voiceTimeout
    · exact .rest rfl rfl

/-- The rule for what every turn preserves, and every close that meets a
condition. -/
theorem dialogue_along {P : Dialogue → Prop} {C : World → Event → Prop} {o : Options}
    {es : List Event} {w : World} (hr : Reaches o es w)
    (hC : Along World.step C (World.ofOptions o) es) (hinit : P (World.ofOptions o).dialogue)
    (hturn : ∀ d e d', P d → Dialogue.Turn d e d' → P d')
    (hclose : ∀ (w : World) e live, P w.dialogue → C w e → e.closes w = true →
      P (w.dialogue.close live)) : P w.dialogue := by
  refine (hr.invariant_along (I := fun w ↦ w.Inv ∧ P w.dialogue) ?_ hC ⟨inv_ofOptions o, hinit⟩).2
  intro v e v' ⟨hv, hp⟩ hc he
  refine ⟨hv.next he, ?_⟩
  cases hv.speaks he with
  | closes hcl live hd =>
    rw [hd]
    exact hclose v e live hp hc hcl
  | turn _ ht => exact hturn _ e _ hp ht

theorem dialogue_of_reaches {P : Dialogue → Prop} {o : Options} {es : List Event} {w : World}
    (hr : Reaches o es w) (hinit : P (World.ofOptions o).dialogue)
    (hturn : ∀ d e d', P d → Dialogue.Turn d e d' → P d')
    (hclose : ∀ d live, P d → P (d.close live)) : P w.dialogue :=
  dialogue_along (C := fun _ _ ↦ True) hr (fun _ _ _ _ _ _ ↦ trivial) hinit hturn
    fun w _ live hp _ _ ↦ hclose w.dialogue live hp

end World

end AndroidTvRemote
