import AndroidTvRemote.Dialogue
import AndroidTvRemote.OutgoingFormat
import AndroidTvRemote.Slices

namespace AndroidTvRemote

open Wire Runs Protocol Slices

def Record.message : Record → Option Bytes
  | queued m => some m
  | _ => none

namespace World

theorem tagged_message_log (w : World) (r : Record) : (w.log r).tagged Record.message =
    w.tagged Record.message ++ ((Record.message r).map (Prod.mk w.impl.generation)).toList := by
  rw [tagged, log_trace, List.filterMap_append]
  cases h : Record.message r <;> simp [tagged, h]

theorem beginWrite_queues (w : World) : w.beginWrite.impl.writeQueue = w.impl.writeQueue ∧
    w.beginWrite.tagged Record.message = w.tagged Record.message := by
  unfold beginWrite
  split
  · exact ⟨rfl, (tagged_message_log _ _).trans (List.append_nil _)⟩
  · exact ⟨rfl, rfl⟩

theorem queueMessage_queues {w : World} (m : Bytes) (hs : w.impl.stream.isSome = true) :
    (w.queueMessage m).impl.writeQueue = w.impl.writeQueue ++ [frame m] ∧
      (w.queueMessage m).tagged Record.message =
        w.tagged Record.message ++ [(w.impl.generation, m)] := by
  rw [queueMessage_eq w m hs]
  simp only
  split
  · exact ⟨rfl, tagged_message_log _ _⟩
  · obtain ⟨hq, ht⟩ := beginWrite_queues (log (.queued m)
      { w.resetIdleTimer with impl.writeQueue := w.impl.writeQueue ++ [frame m] })
    exact ⟨hq, ht.trans (tagged_message_log _ _)⟩

theorem queueAll_queues {w : World} (ms : List Bytes) (hs : w.impl.stream.isSome = true) :
    (ms.foldl (fun w m ↦ w.queueMessage m) w).impl.writeQueue =
        w.impl.writeQueue ++ ms.map frame ∧
      (ms.foldl (fun w m ↦ w.queueMessage m) w).tagged Record.message =
        w.tagged Record.message ++ ms.map (Prod.mk w.impl.generation) := by
  induction ms generalizing w with
  | nil => exact ⟨(List.append_nil _).symm, (List.append_nil _).symm⟩
  | cons m ms ih =>
    obtain ⟨hq, ht⟩ := queueMessage_queues m hs
    obtain ⟨hstream, hg⟩ := queueMessage_keeps w m
    obtain ⟨hq', ht'⟩ := ih (w := w.queueMessage m) (by rw [hstream]; exact hs)
    rw [hq, List.append_assoc] at hq'
    rw [ht, hg, List.append_assoc] at ht'
    exact ⟨hq', ht'⟩

theorem voicePayloads_eq (s : Int32) (pcm : Bytes) (offset : ℕ) :
    voicePayloads s pcm offset =
      (List.range ((pcm.length - offset + 20479) / 20480)).map fun i ↦
        remoteVoicePayload s (voiceChunk pcm (offset + 20480 * i)) := by
  fun_induction voicePayloads s pcm offset with
  | case1 offset hlt ih =>
    have hcount : (pcm.length - offset + 20479) / 20480 =
        (pcm.length - (offset + voiceChunkSize) + 20479) / 20480 + 1 := by
      rw [voiceChunkSize]
      omega
    have hoff : ∀ i, offset + voiceChunkSize + 20480 * i = offset + 20480 * (i + 1) := by
      intro i
      rw [voiceChunkSize]
      omega
    rw [ih, hcount, List.range_succ_eq_map, List.map_cons, List.map_map]
    simp only [hoff]
    rfl
  | case2 offset hlt =>
    rw [Nat.div_eq_of_lt (by omega)]
    rfl

/-- A chunk as it is sent: a slice, with zeros behind it up to the smallest
size. -/
def pad (slice : Bytes) : Bytes := slice ++ List.replicate (8192 - slice.length) 0

theorem voiceChunk_eq (pcm : Bytes) (i : ℕ) :
    voiceChunk pcm (20480 * i) = pad (slice 20480 pcm i) := by
  have hslice : (pcm.drop (20480 * i)).take (min voiceChunkSize (pcm.length - 20480 * i)) =
      slice 20480 pcm i := by
    rw [slice, List.take_eq_take_iff, List.length_drop, voiceChunkSize]
    omega
  rw [voiceChunk, hslice, pad, voiceMinimumChunkSize]
  split
  next => rfl
  next h =>
    rw [Nat.sub_eq_zero_of_le (Nat.not_lt.mp h), List.replicate_zero, List.append_nil]

theorem voicePayloads_slices (s : Int32) (pcm : Bytes) :
    voicePayloads s pcm 0 = ((slices 20480 pcm).map pad).map (remoteVoicePayload s) := by
  simp only [voicePayloads_eq, slices, Slices.count, Nat.zero_add, Nat.sub_zero, List.map_map,
    voiceChunk_eq]
  rfl

theorem pad_length (slice : Bytes) : (pad slice).length = max slice.length 8192 := by
  rw [pad, List.length_append, List.length_replicate]
  omega

theorem pad_full {slice : Bytes} (h : 8192 ≤ slice.length) : pad slice = slice := by
  rw [pad, Nat.sub_eq_zero_of_le h, List.replicate_zero, List.append_nil]

theorem map_pad_snoc {front : List Bytes} (last : Bytes) (h : ∀ s ∈ front, s.length = 20480) :
    (front ++ [last]).map pad = front ++ [pad last] := by
  have hfront : front.map pad = front.map id := by
    apply List.map_congr_left
    intro s hs
    exact pad_full (by rw [h s hs]; decide)
  rw [List.map_append, List.map_singleton, hfront, List.map_id]

theorem decode_voicePayload (s : Int32) {samples : Bytes} (h : samples.length ≤ 20480) :
    Outgoing.decode (remoteVoicePayload s samples) = some (.voicePayload s samples) := by
  refine Outgoing.decode_bytes (.voicePayload s samples) ?_ trivial
  have hbody : (encoded (Outgoing.voicePayload s samples).body).length ≤
      20 + 0 + (20 + samples.length + 0) := encoded_length_le _
  have hall : (encoded (Outgoing.voicePayload s samples).layout).length ≤
      20 + (encoded (Outgoing.voicePayload s samples).body).length + 0 := encoded_length_le _
  rw [Outgoing.bytes_eq]
  omega

/-- Voice data goes out whole and in order: one message a slice, each under
the session id, with nothing between the slices and zeros behind the last one
only. No 16-bit sample is cut in two. -/
theorem voice_data_kept {o : Options} {es : List Event} {w : World} (h : Reaches o es w)
    {s : Int32} (hv : w.impl.voiceSessionId = some s) (pcm : Bytes) :
    ∃ w' chunks, w.step (.sendVoiceData pcm) = some w' ∧
      w'.tagged Record.message = w.tagged Record.message ++
        chunks.map (fun c ↦ (w.impl.generation, remoteVoicePayload s c)) ∧
      w'.impl.writeQueue = w.impl.writeQueue ++
        chunks.map (fun c ↦ frame (remoteVoicePayload s c)) ∧
      (∀ c ∈ chunks, Outgoing.decode (remoteVoicePayload s c) = some (.voicePayload s c) ∧
        8192 ≤ c.length ∧ c.length ≤ 20480) ∧
      chunks.length = (pcm.length + 20479) / 20480 ∧
      (pcm = [] ∧ chunks = [] ∨ ∃ front last, slices 20480 pcm = front ++ [last] ∧
        chunks = front ++ [last ++ List.replicate (8192 - last.length) 0] ∧
        chunks.flatten = pcm ++ List.replicate (8192 - last.length) 0) ∧
      (slices 20480 pcm).flatten = pcm ∧
      (Even pcm.length → ∀ i, Even (20480 * i) ∧ Even (slice 20480 pcm i).length) := by
  have hs := (inv_of_reaches h).live_of_session hv
  have hstep : w.sendVoiceData pcm =
      (((slices 20480 pcm).map pad).map (remoteVoicePayload s)).foldl
        (fun w m ↦ w.queueMessage m) w := by
    simp only [sendVoiceData, hv]
    rw [sendVoiceChunks_eq, voicePayloads_slices]
  obtain ⟨hq, ht⟩ := queueAll_queues (((slices 20480 pcm).map pad).map (remoteVoicePayload s)) hs
  rw [← hstep, List.map_map] at hq ht
  have hflat : (slices 20480 pcm).flatten = pcm := slices_flatten (by decide) pcm
  refine ⟨_, (slices 20480 pcm).map pad, rfl, ht, hq, ?_, ?_, ?_, hflat,
    slice_even (by decide)⟩
  · intro c hc
    obtain ⟨a, ha, rfl⟩ := List.mem_map.mp hc
    obtain ⟨i, -, rfl⟩ := List.mem_map.mp ha
    have hsize : (pad (slice 20480 pcm i)).length ≤ 20480 := by
      rw [pad_length, slice_length]
      omega
    exact ⟨decode_voicePayload s hsize, by rw [pad_length]; omega, hsize⟩
  · rw [List.length_map, slices_length, Slices.count]
  · by_cases hp : pcm = []
    · refine .inl ⟨hp, ?_⟩
      rw [hp, slices_nil (by decide), List.map_nil]
    · obtain ⟨front, last, hsnoc, hfront, -, -⟩ := slices_snoc (n := 20480) (by decide) hp
      refine .inr ⟨front, last, hsnoc, ?_, ?_⟩
      · rw [hsnoc, map_pad_snoc last hfront, pad]
      · rw [hsnoc] at hflat
        rw [hsnoc, map_pad_snoc last hfront, pad]
        rw [List.flatten_append, List.flatten_singleton] at hflat ⊢
        rw [← List.append_assoc, hflat]

theorem voice_data_kept_session_five :
    let pcm : Bytes := List.replicate 41000 1
    ∃ w, Reaches { enableVoice := true } (.connect {} :: Event.untilVoice 1) w ∧
      w.impl.voiceSessionId = some 5 ∧
      ∃ (w' : World) (chunks : List Bytes), w.step (.sendVoiceData pcm) = some w' ∧
        w'.tagged Record.message = w.tagged Record.message ++
          chunks.map (fun c ↦ (w.impl.generation, remoteVoicePayload 5 c)) ∧
        chunks.length = 3 ∧ (slices 20480 pcm).flatten = pcm := by
  intro pcm
  have hr : Reaches { enableVoice := true } (.connect {} :: Event.untilVoice 1) _ :=
    run_of_isSome (by decide +kernel)
  refine ⟨_, hr, by decide +kernel, ?_⟩
  obtain ⟨w', chunks, hstep, ht, -, -, hcount, -, hflat, -⟩ :=
    voice_data_kept hr (show _ = some 5 by decide +kernel) pcm
  refine ⟨w', chunks, hstep, ht, ?_, hflat⟩
  rw [hcount, List.length_replicate]

end World

end AndroidTvRemote
