import AndroidTvRemote.Invariant

namespace AndroidTvRemote

open Wire Protocol SteadyTimer Runs

namespace Record

def isOngoing : Record → Bool
  | callback (.connectionState state) => state = .connected
  | callback (.availabilityChanged available) => available
  | callback _ | handshake | queued _ | write _ | received _ => true
  | identity _ _ | opened _ | lost | refused | reconnectArmed _ | nullDereference => false

/-- The argument of `onAvailabilityChanged`. -/
def availability : Record → Option Bool
  | callback (.availabilityChanged available) => some available
  | _ => none

end Record

theorem isOngoing_of_isReport {c : Callback} (h : c.isReport = true) :
    (Record.callback c).isOngoing = true ∧ (Record.callback c).availability = none := by
  cases c <;> first | exact ⟨rfl, rfl⟩ | cases h

namespace World

def available (w : World) : Bool :=
  (w.trace.filterMap fun r ↦ r.2.availability).getLast?.getD false

theorem available_append {w w' : World} {l : List (ℕ × Record)} (ht : w'.trace = w.trace ++ l) :
    w'.available = (l.filterMap fun r ↦ r.2.availability).getLast?.getD w.available := by
  rw [available, ht, List.filterMap_append, List.getLast?_append]
  cases (l.filterMap fun r ↦ r.2.availability).getLast? <;> rfl

theorem available_eq {w w' : World} {l : List (ℕ × Record)} (ht : w'.trace = w.trace ++ l)
    (hl : ∀ r ∈ l, r.2.availability = none) : w'.available = w.available := by
  rw [available_append ht, List.filterMap_eq_nil_iff.mpr hl]
  rfl

structure Link where
  options : Options
  generation : ℕ
  stream : Option Stream
  sslContext : Option ℕ
  userDisconnect : Bool

def link (w : World) : Link where
  options := w.impl.options
  generation := w.impl.generation
  stream := w.impl.stream
  sslContext := w.impl.sslContext
  userDisconnect := w.impl.userDisconnect

/-- A world has gone on within its connection: only records of an ongoing
connection were added, and what is reported of the availability of the TV
follows the state. -/
structure Stays (w w' : World) : Prop where
  link : w'.link = w.link
  trace : ∃ l : List Record, w'.trace = w.trace ++ l.map (Prod.mk w.impl.generation) ∧
    ∀ r ∈ l, r.isOngoing = true
  available : w'.impl.state = w.impl.state ∧ w'.available = w.available ∨
    w'.impl.state = .connected ∧ w'.available = true

namespace Stays

variable {w w' w'' : World} (h : Stays w w')

include h

theorem generation : w'.impl.generation = w.impl.generation := congrArg Link.generation h.link

theorem stream : w'.impl.stream = w.impl.stream := congrArg Link.stream h.link

theorem context : w'.impl.sslContext = w.impl.sslContext := congrArg Link.sslContext h.link

theorem records : w.Extends w' := by
  obtain ⟨l, ht, -⟩ := h.trace
  refine ⟨_, ht, ?_⟩
  intro r hr
  obtain ⟨r', -, rfl⟩ := List.mem_map.mp hr
  rfl

theorem handshaken (hh : w.Handshaken) : w'.Handshaken := hh.extends h.records h.generation

theorem trans (h' : Stays w' w'') : Stays w w'' := by
  have hg := h.generation
  obtain ⟨hl, ⟨l, ht, hlo⟩, ha⟩ := h
  obtain ⟨hl', ⟨l', ht', hlo'⟩, ha'⟩ := h'
  refine ⟨hl'.trans hl, ⟨l ++ l', ?_, List.forall_mem_append.mpr ⟨hlo, hlo'⟩⟩, ?_⟩
  · rw [ht', ht, hg, List.map_append, List.append_assoc]
  · rcases ha' with ⟨hst, hav⟩ | hon
    · rw [hst, hav]
      exact ha
    · exact .inr hon

end Stays

theorem stays_of_trace {w w' : World} (hl : w'.link = w.link)
    (hst : w'.impl.state = w.impl.state) (ht : w'.trace = w.trace) : Stays w w' := by
  refine ⟨hl, ⟨[], by simp [ht], by simp⟩, .inl ⟨hst, ?_⟩⟩
  rw [World.available, ht]
  rfl

theorem stays_log (w : World) {r : Record} (hr : r.isOngoing = true) (ha : r.availability = none) :
    Stays w (w.log r) :=
  ⟨rfl, ⟨[r], rfl, by simp [hr]⟩, .inl ⟨rfl, available_eq (log_trace w r) (by simp [ha])⟩⟩

theorem stays_queueMessage {w : World} (h : w.Sound) (hs : w.impl.stream.isSome = true)
    (m : Bytes) : Stays w (w.queueMessage m) := by
  rw [queueMessage_spec m hs (h.opened hs).busy]
  refine ⟨rfl, ⟨.queued m :: if w.impl.writeQueue = [] then [.write (frame m)] else [], ?_, ?_⟩,
    .inl ⟨rfl, available_eq rfl ?_⟩⟩
  · split <;> simp
  · split <;> simp [Record.isOngoing]
  · split <;> simp [Record.availability]

theorem stays_wrote {w : World} (hs : w.impl.stream.isSome = true) :
    Stays w { w with impl.writeQueue := w.impl.writeQueue.tail }.beginWrite := by
  rw [wrote_spec hs]
  refine ⟨rfl, ⟨(w.impl.writeQueue.tail.head?.map Record.write).toList, ?_, ?_⟩,
    .inl ⟨rfl, available_eq rfl ?_⟩⟩
  all_goals cases w.impl.writeQueue.tail <;> simp [Record.isOngoing, Record.availability]

theorem stays_online (w : World) :
    Stays w ((w.setState .connected).emitAvailability true) :=
  ⟨rfl, ⟨[_, _], List.append_assoc _ _ _, by simp [Record.isOngoing]⟩,
    .inr ⟨rfl, (available_append (List.append_assoc _ _ _)).trans rfl⟩⟩

theorem Inner.stays {w w' : World} (hm : Inner w w') (h : w.Sound) : Stays w w' := by
  cases hm with
  | report c hc => exact stays_log w (isOngoing_of_isReport hc).1 (isOngoing_of_isReport hc).2
  | tune i hi =>
    have hlink : { w with impl := i }.link = w.link := congrArg (fun c : Core ↦
      Link.mk c.options c.generation c.stream c.sslContext c.userDisconnect) hi
    exact stays_of_trace hlink (congrArg Core.state hi) rfl
  | timers | voiceGiveUp => exact stays_of_trace rfl rfl rfl
  | received m => exact stays_log w rfl rfl
  | reply m _ hs _ => exact stays_queueMessage h hs m
  | online => exact stays_online w
  | voiceStart hs hc _ hn =>
    have hv := h.setVoice true w.impl.voiceSessionId (fun _ ↦ hn) (fun _ ↦ ⟨hs, hc⟩)
    have hset : Stays w { w with impl.voiceStarting := true } := stays_of_trace rfl rfl rfl
    exact hset.trans (stays_queueMessage hv hs _)
  | voiceBegin s hs hv _ =>
    have hc := (h.opened hs).voice_online (.inl hv)
    have hv := h.setVoice false (some s) (by simp) (fun _ ↦ ⟨hs, hc⟩)
    have hset : Stays w { w with impl.voiceStarting := false, impl.voiceSessionId := some s } :=
      stays_of_trace rfl rfl rfl
    exact (hset.trans (stays_queueMessage hv hs _)).trans (stays_log _ rfl rfl)
  | voicePayload s samples hs _ => exact stays_queueMessage h hs _
  | voiceEnd s hs _ =>
    have hq := stays_queueMessage h hs (remoteVoiceEnd s)
    have hset : Stays (w.queueMessage (remoteVoiceEnd s))
        { w.queueMessage (remoteVoiceEnd s) with impl.voiceSessionId := none } :=
      stays_of_trace rfl rfl rfl
    exact (hq.trans hset).trans (stays_log _ rfl rfl)

theorem Move.stays_or {w w' : World} (hm : Move w w') (h : w.Sound) :
    Stays w w' ∨ w.impl.stream.isSome = true ∧
      (w' = w.handleConnectionLoss w.impl.generation ∨
        ∃ error, w' = w.authenticationFailed error w.impl.generation) := by
  cases hm with
  | inner hi => exact .inl (hi.stays h)
  | consume | start | reconnectExpires | reconnectSkip => exact .inl (stays_of_trace rfl rfl rfl)
  | wrote hs _ => exact .inl (stays_wrote hs)
  | handshake => exact .inl (stays_log w rfl rfl)
  | lose hs => exact .inr ⟨hs, .inl rfl⟩
  | refuse error hs => exact .inr ⟨hs, .inr ⟨error, rfl⟩⟩

theorem Move.stays_or_ends {w w' : World} (hm : Move w w') (h : w.Sound) :
    Stays w w' ∨ Ends w w' := by
  apply (hm.stays_or h).imp_right
  rintro ⟨hs, rfl | ⟨error, rfl⟩⟩
  · exact ends_lose (h.opened hs).wanted h.alive
  · exact ends_refuse error (h.opened hs).wanted h.alive

theorem Move.trace_grows {w w' : World} (h : w.Sound) (hm : Move w w') :
    w.trace <+: w'.trace := by
  obtain hs | he := hm.stays_or_ends h
  · obtain ⟨l, ht, -⟩ := hs.trace
    exact ⟨_, ht.symm⟩
  · obtain ⟨-, -, -, l, -, -⟩ := he
    exact ⟨l, rfl⟩

theorem Does.trace_grows {w w' : World} {e : Event} (h : w.Sound) (hd : Does w e w') :
    w.trace <+: w'.trace := by
  cases hd with
  | moves hm =>
    exact hm.invariant (P := fun v ↦ w.trace <+: v.trace)
      (fun _ _ hv hp hm ↦ hp.trans (hm.trace_grows hv)) h (List.prefix_refl _)
  | send _ hs =>
    obtain ⟨l, ht, -⟩ := (stays_queueMessage h hs _).trace
    exact ⟨_, ht.symm⟩
  | attempt _ reconnecting delay t =>
    obtain ⟨n, context, l, -, ⟨error, he⟩ | ⟨k, -, he⟩⟩ :=
      beginConnect_cases reconnecting _ (h.toBounded.wanting delay t).alive rfl
    all_goals
      rw [he]
      exact ⟨_, rfl⟩
  | disconnect => exact ⟨_, (List.append_assoc _ _ _).symm⟩
  | disconnectAndWait => exact ⟨_, rfl⟩

theorem Does.generation_le {w w' : World} {e : Event} (h : w.Sound) (hd : Does w e w') :
    w.impl.generation ≤ w'.impl.generation := by
  cases hd with
  | moves hm =>
    refine hm.invariant (P := fun v ↦ w.impl.generation ≤ v.impl.generation) ?_ h le_rfl
    intro v v' hv hle hmove
    obtain hs | ⟨-, -, -, -, -, -⟩ := hmove.stays_or_ends hv
    · rw [hs.generation]
      exact hle
    · exact hle.trans (Nat.le_succ _)
  | send _ hs => exact (stays_queueMessage h hs _).generation.ge
  | attempt _ reconnecting delay t =>
    obtain ⟨n, context, l, -, ⟨error, he⟩ | ⟨k, -, he⟩⟩ :=
      beginConnect_cases reconnecting _ (h.toBounded.wanting delay t).alive rfl
    all_goals
      rw [he]
      exact Nat.le_succ _
  | disconnect => exact Nat.le_succ _
  | disconnectAndWait => exact Nat.le_succ _

end World

end AndroidTvRemote
