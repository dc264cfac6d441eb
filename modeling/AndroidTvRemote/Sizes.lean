import AndroidTvRemote.Requests

namespace AndroidTvRemote

open Wire Protocol Runs Slices SyncTlsConnection

namespace Wire

mutual

/-- What an item comes to at most. -/
def Item.weight : Item → ℕ
  | .varint _ _ => 20
  | .bytes _ b | .string _ b => 20 + b.length
  | .message _ items => 20 + weights items

def weights : List Item → ℕ
  | [] => 0
  | i :: items => i.weight + weights items

end

mutual

theorem Item.length_le_weight : ∀ i : Item, (i.write {}).data.length ≤ i.weight
  | .varint n v => (Item.varint n v).length_le
  | .bytes n b => (Item.bytes n b).length_le
  | .string n s => (Item.string n s).length_le
  | .message n items =>
    (Item.message n items).length_le.trans (Nat.add_le_add_left (encoded_length_le_weights items) 20)

theorem encoded_length_le_weights : ∀ items : List Item, (encoded items).length ≤ weights items
  | [] => le_rfl
  | i :: items => by
    rw [encoded_cons, List.length_append, weights]
    exact Nat.add_le_add i.length_le_weight (encoded_length_le_weights items)

end

end Wire

namespace Protocol.Outgoing

def cargo : Outgoing → ℕ
  | text t _ _ => t.length
  | appLink l => l.length
  | voicePayload _ samples => samples.length
  | pairingRequest clientName => clientName.length
  | pairingSecret secretBytes => secretBytes.length
  | _ => 0

theorem length_le (o : Outgoing) : o.bytes.length ≤ 180 + o.cargo := by
  have hweights : weights o.layout ≤ 180 + o.cargo := by
    cases o <;> simp [layout, isPairing, body, imeObject, editInfo, device, symbols, one, atvremote,
      versionOne, weights, Item.weight, cargo]
    all_goals omega
  rw [bytes_eq]
  exact (encoded_length_le_weights _).trans hweights

theorem cargo_of_not_isRequest {o : Outgoing} (h : o.isRequest = false) (hs : o.Sendable) :
    o.cargo = 0 := by
  cases o with
  | text | appLink | voicePayload => cases h
  | pairingRequest | pairingSecret => cases hs
  | _ => rfl

end Protocol.Outgoing

/-- The bytes a call hands over to be sent in one message. -/
def Event.cargo : Event → ℕ
  | sendText text => text.length
  | launchApp appLink => appLink.length
  | _ => 0

theorem takeWhile_frames {ps : List Bytes} (hps : ∀ p ∈ ps, p.length < 2 ^ 64) :
    (receiveAll (ps.map frame).flatten).1 = ps.takeWhile (·.length ≤ 4 * 1024 * 1024) := by
  induction ps with
  | nil => exact World.payloads_of_frames (by simp)
  | cons p ps ih =>
    obtain ⟨hp, hps⟩ := List.forall_mem_cons.mp hps
    rw [List.map_cons, List.flatten_cons, frame_eq, Nat.mod_eq_of_lt hp]
    by_cases hle : p.length ≤ 4 * 1024 * 1024
    · rw [receiveAll_ok (receive_ok (Framing.cut_encode hle hp _)), ih hps,
        List.takeWhile_cons_of_pos (by simpa using hle)]
    · obtain ⟨failure, hfailure, -⟩ :=
        receive_error (Framing.cut_tooLong (Nat.lt_of_not_le hle) hp (ps.map frame).flatten)
      rw [receiveAll_error hfailure, List.takeWhile_cons_of_neg (by simpa using hle)]

namespace World

theorem mem_slices_length {n : ℕ} {l s : Bytes} (hs : s ∈ slices n l) :
    s.length ≤ n := by
  obtain ⟨i, -, rfl⟩ := List.mem_map.mp hs
  rw [slice_length]
  exact Nat.min_le_left n _

theorem cargo_asks (w : World) (e : Event) {a : Outgoing} (ha : a ∈ w.asks e) :
    a.cargo ≤ max e.cargo 20480 := by
  cases e with
  | sendText | launchApp =>
    obtain rfl := List.mem_singleton.mp ha
    exact Nat.le_max_left _ _
  | sendVoiceData pcm =>
    rw [asks] at ha
    split at ha
    · cases ha
    · obtain ⟨samples, hsamples, rfl⟩ := List.mem_map.mp ha
      have hlength := mem_slices_length hsamples
      have hpad := pad_length samples
      simp only [Outgoing.cargo]
      omega
  | sendKey =>
    obtain rfl := List.mem_singleton.mp ha
    exact Nat.zero_le _
  | startVoice =>
    rw [asks] at ha
    split at ha
    · obtain rfl := List.mem_singleton.mp ha
      exact Nat.zero_le _
    · cases ha
  | stopVoice =>
    obtain ⟨s, hs⟩ := Option.mem_toList.mp ha |> Option.map_eq_some_iff.mp
    obtain rfl := hs.2
    exact Nat.zero_le _
  | _ => cases ha

theorem cargo_requests {o : Options} {es : List Event} {w : World} (h : Reaches o es w) {n : ℕ}
    (hn : ∀ e ∈ es, e.cargo ≤ n) : ∀ x ∈ requests o es, x.2.cargo ≤ max n 20480 := by
  refine h.history (H := fun es _ ↦ (∀ e ∈ es, e.cargo ≤ n) → ∀ x ∈ requests o es,
    x.2.cargo ≤ max n 20480) (fun _ _ hx ↦ by cases hx) ?_ hn
  intro es t e u ht ih he hes x hx
  obtain ⟨hes, he'⟩ := List.forall_mem_append.mp hes
  rw [requests_snoc ht he] at hx
  rcases List.mem_append.mp hx with hx | hx
  · exact ih hes x hx
  · split at hx
    · obtain ⟨a, ha, rfl⟩ := List.mem_map.mp hx
      have hle := he' e (List.mem_singleton_self e)
      exact (t.cargo_asks e ha).trans (max_le_max_right _ hle)
    · cases hx

/-- A message is as long as what the application gave for it, or short. -/
theorem messages_length {o : Options} {es : List Event} {w : World} (h : Reaches o es w) {n : ℕ}
    (hn : ∀ e ∈ es, e.cargo ≤ n) {g : ℕ} {m : Bytes} (hm : m ∈ w.messages g) :
    m.length ≤ 180 + max n 20480 := by
  obtain ⟨script, hscript⟩ := script_of_reaches h
  rw [hscript.messages_eq g] at hm
  obtain ⟨a, ha, rfl⟩ := List.mem_map.mp hm
  have hmem := (mem_ofGeneration g).mp ha
  have hcargo : a.cargo ≤ max n 20480 := by
    cases hr : a.isRequest with
    | false =>
      rw [a.cargo_of_not_isRequest hr (hscript.sendable _ hmem)]
      exact Nat.zero_le _
    | true =>
      apply cargo_requests h hn (g, a)
      rw [← hscript.requests]
      exact List.mem_filter.mpr ⟨hmem, hr⟩
  exact a.length_le.trans (Nat.add_le_add_left hcargo 180)

/-- Nothing bounds the texts and links that are sent, and nothing else is long.
The TV reads the messages of a connection up to the first beyond its limit of
4 MiB, and nothing from there on; if no text and no link comes close to the
limit, it reads the requests of the run whatever they are. -/
theorem long_messages_cut_off {o : Options} {es : List Event} {w : World} (h : Reaches o es w)
    {n : ℕ} (hn : ∀ e ∈ es, e.cargo ≤ n) (hsize : n < 2 ^ 63) :
    (∀ g, ∀ m ∈ w.messages g, m.length ≤ 180 + max n 20480) ∧
    (∀ g bs, bs <+: w.sent g →
      (receiveAll bs).1 <+: (w.messages g).takeWhile (·.length ≤ 4 * 1024 * 1024)) ∧
    (w.impl.writeQueue = [] → (receiveAll (w.sent w.impl.generation)).1 =
      (w.messages w.impl.generation).takeWhile (·.length ≤ 4 * 1024 * 1024)) ∧
    (180 + n ≤ 4 * 1024 * 1024 → ∀ g bs, bs <+: w.sent g →
      ((receiveAll bs).1.filterMap Outgoing.decode).filter Outgoing.isRequest <+:
        ofGeneration g (requests o es)) := by
  have hlength : ∀ g, ∀ m ∈ w.messages g, m.length ≤ 180 + max n 20480 :=
    fun g m hm ↦ messages_length h hn hm
  have hfits : ∀ g, ∀ m ∈ w.messages g, m.length < 2 ^ 64 := by
    intro g m hm
    have hle := hlength g m hm
    omega
  have hd := delivers_of_reaches h
  refine ⟨hlength, ?_, ?_, ?_⟩
  · intro g bs hbs
    obtain ⟨more, hmore⟩ := hbs.trans (hd.sent_prefix g)
    have hprefix : (Framing.unframe (4 * 1024 * 1024) bs).payloads <+: _ :=
      Framing.payloads_append bs more
    rwa [hmore, unframe_receiveAll, unframe_receiveAll, takeWhile_frames (hfits g)] at hprefix
  · intro hq
    rw [hd.sent_all hq]
    exact takeWhile_frames (hfits _)
  · intro hlimit g bs hbs
    refine received_requests h ?_ hbs
    intro m hm
    have hle := hlength g m hm
    omega

theorem long_messages_cut_off_link :
    let es : List Event := [.connect {}, .sendKey 3 .short, .launchApp [0x61, 0x3a]]
    ∃ w, Reaches {} es w ∧
      (∀ m ∈ w.messages 1, m.length ≤ 20660) ∧
      ((receiveAll (w.sent 1)).1.filterMap Outgoing.decode).filter Outgoing.isRequest <+:
        [.key 3 .short, .appLink [0x61, 0x3a]] := by
  intro es
  have h : Reaches {} es _ := run_of_isSome (by decide +kernel)
  obtain ⟨hlength, -, -, harrive⟩ := long_messages_cut_off h (n := 2) (by decide) (by decide)
  exact ⟨_, h, hlength 1, harrive (by decide) 1 _ (List.prefix_refl _)⟩

end World

end AndroidTvRemote
