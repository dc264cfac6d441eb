import AndroidTvRemote.Records

namespace AndroidTvRemote.World

open Wire Protocol SteadyTimer Relation

/-- The outstanding operations of the current generation, apart from writes. -/
def current (w : World) : List Op :=
  w.ops.filter fun op ↦ op.generation == w.impl.generation && !op.kind.isWrite

def writes (w : World) : List Op :=
  w.ops.filter fun op ↦ op.generation == w.impl.generation && op.kind.isWrite

/-- The current operations are those of a list, and the front of the queue is
the only buffer being written. -/
structure Booked (w : World) (l : List OpKind) : Prop where
  current : w.current = l.map (Op.mk w.impl.generation)
  writes : w.writes = (w.impl.writeQueue.head?.map fun f ↦
    (⟨w.impl.generation, .write f⟩ : Op)).toList

/-- A live stream has exactly one operation outstanding besides its write. -/
def Ledger (w : World) : Prop :=
  w.impl.stream.isSome = true → ∃ k, w.Booked [k] ∧ (k.isRead = true → w.Handshaken)

structure Inv (w : World) : Prop extends Sound w where
  ledger : w.Ledger

/-- A handler took the object from one world to another by moves, and left
the books in order. -/
structure Reacts (w w' : World) : Prop where
  moves : Moves w w'
  ledger : w'.Ledger

theorem ledger_of_none {w : World} (h : w.impl.stream = none) : w.Ledger := by
  intro hs
  simp [h] at hs

theorem booked_nil {w : World} (hlt : ∀ op ∈ w.ops, op.generation < w.impl.generation)
    (hq : w.impl.writeQueue = []) : w.Booked [] := by
  constructor
  · apply List.filter_eq_nil_iff.mpr
    intro op hop
    simp [(hlt op hop).ne]
  · rw [hq]
    apply List.filter_eq_nil_iff.mpr
    intro op hop
    simp [(hlt op hop).ne]

theorem Booked.of_eq {w w' : World} {l : List OpKind} (h : w.Booked l) (hops : w'.ops = w.ops)
    (hgen : w'.impl.generation = w.impl.generation)
    (hq : w'.impl.writeQueue = w.impl.writeQueue) : w'.Booked l := by
  obtain ⟨hc, hw⟩ := h
  constructor
  · rw [World.current, hops, hgen]; exact hc
  · rw [World.writes, hops, hgen, hq]; exact hw

theorem Booked.queueMessage {w : World} {l : List OpKind} (h : w.Booked l) (ho : w.Opened)
    (hs : w.impl.stream.isSome = true) (m : Bytes) : (w.queueMessage m).Booked l := by
  obtain ⟨hc, hw⟩ := h
  rw [queueMessage_spec m hs ho.busy]
  cases hq : w.impl.writeQueue with
  | nil =>
    constructor
    · refine (List.filter_append _ _).trans ?_
      simpa [World.current] using hc
    · refine (List.filter_append _ _).trans ?_
      rw [hq] at hw
      simpa [World.writes] using hw
  | cons f q =>
    constructor
    · simpa [World.current] using hc
    · simpa [World.writes, hq] using hw

theorem Booked.inner {w w' : World} {l : List OpKind} (hb : w.Booked l) (h : w.Sound)
    (hm : Inner w w') : w'.Booked l := by
  cases hm with
  | report | received | timers | online | voiceGiveUp => exact hb.of_eq rfl rfl rfl
  | tune i hi => exact hb.of_eq rfl (congrArg Core.generation hi) (congrArg Core.writeQueue hi)
  | reply m _ hs _ => exact hb.queueMessage (h.opened hs) hs m
  | voiceStart hs hc _ hn =>
    have hv := h.setVoice true w.impl.voiceSessionId (fun _ ↦ hn) (fun _ ↦ ⟨hs, hc⟩)
    have hb' : { w with impl.voiceStarting := true }.Booked l := hb.of_eq rfl rfl rfl
    exact hb'.queueMessage (hv.opened hs) hs _
  | voiceBegin s hs hv _ =>
    have hc := (h.opened hs).voice_online (.inl hv)
    have hv := h.setVoice false (some s) (by simp) (fun _ ↦ ⟨hs, hc⟩)
    have hb' : { w with impl.voiceStarting := false, impl.voiceSessionId := some s }.Booked l :=
      hb.of_eq rfl rfl rfl
    exact (hb'.queueMessage (hv.opened hs) hs (remoteVoiceBegin s)).of_eq rfl rfl rfl
  | voicePayload s samples hs _ => exact hb.queueMessage (h.opened hs) hs _
  | voiceEnd s hs _ =>
    exact (hb.queueMessage (h.opened hs) hs (remoteVoiceEnd s)).of_eq rfl rfl rfl

theorem Inners.frame {w w' : World} (hm : Inners w w') (h : w.Sound) :
    w'.Sound ∧ Stays w w' ∧ ∀ l, w.Booked l → w'.Booked l := by
  induction hm with
  | refl => exact ⟨h, stays_of_trace rfl rfl rfl, fun _ hb ↦ hb⟩
  | tail _ hi ih =>
    obtain ⟨hsound, hs, hb⟩ := ih
    exact ⟨hsound.inner hi, hs.trans (hi.stays hsound), fun l hl ↦ (hb l hl).inner hsound hi⟩

theorem Inv.inners {w w' : World} (h : w.Inv) (hm : Inners w w') : Reacts w w' := by
  obtain ⟨-, hs, hb⟩ := hm.frame h.toSound
  refine ⟨hm.moves, ?_⟩
  intro hs'
  obtain ⟨k, hk, hread⟩ := h.ledger (hs.stream ▸ hs')
  exact ⟨k, hb _ hk, fun hr ↦ hs.handshaken (hread hr)⟩

theorem Booked.consume_stale {w : World} {l : List OpKind} (h : w.Booked l) {op : Op}
    (hg : op.generation ≠ w.impl.generation) : { w with ops := w.ops.erase op }.Booked l := by
  have hc : op ∉ w.current := by simp [World.current, hg]
  have hw : op ∉ w.writes := by simp [World.writes, hg]
  constructor
  · exact (List.erase_filter ..).symm.trans ((List.erase_of_not_mem hc).trans h.current)
  · exact (List.erase_filter ..).symm.trans ((List.erase_of_not_mem hw).trans h.writes)

theorem Booked.consume {w : World} {k : OpKind} (h : w.Booked [k]) (hk : k.isWrite = false) :
    { w with ops := w.ops.erase ⟨w.impl.generation, k⟩ }.Booked [] := by
  have hw : (⟨w.impl.generation, k⟩ : Op) ∉ w.writes := by simp [World.writes, hk]
  constructor
  · refine (List.erase_filter ..).symm.trans ?_
    exact (congrArg (List.erase · _) h.current).trans (by simp)
  · exact (List.erase_filter ..).symm.trans ((List.erase_of_not_mem hw).trans h.writes)

theorem Booked.start {w : World} (h : w.Booked []) {k : OpKind} (hk : k.isWrite = false) :
    (w.start ⟨w.impl.generation, k⟩).Booked [k] := by
  constructor
  · refine (List.filter_append _ _).trans ?_
    exact (congrArg (· ++ _) h.current).trans (by simp [hk, World.start])
  · refine (List.filter_append _ _).trans ?_
    exact (congrArg (· ++ _) h.writes).trans (by simp [hk, World.start])

theorem Booked.wrote {w : World} {l : List OpKind} (h : w.Booked l) {f : Bytes}
    (hs : w.impl.stream.isSome = true) (hop : (⟨w.impl.generation, .write f⟩ : Op) ∈ w.writes) :
    { w with
      ops := w.ops.erase ⟨w.impl.generation, .write f⟩
      impl.writeQueue := w.impl.writeQueue.tail }.beginWrite.Booked l := by
  have hc : (⟨w.impl.generation, .write f⟩ : Op) ∉ w.current := by simp [World.current]
  have hnone : w.writes.erase ⟨w.impl.generation, .write f⟩ = [] := by
    rw [h.writes] at hop ⊢
    cases hq : w.impl.writeQueue.head? with
    | none => simp [hq] at hop
    | some f' =>
      obtain rfl : f = f' := by simpa [hq] using hop
      simp
  have hcur := (List.erase_filter ..).symm.trans ((List.erase_of_not_mem hc).trans h.current)
  have hwr := (List.erase_filter ..).symm.trans hnone
  have hspec := wrote_spec (w := { w with ops := w.ops.erase ⟨w.impl.generation, .write f⟩ }) hs
  refine hspec ▸ ⟨?_, ?_⟩
  · refine (List.filter_append _ _).trans ((congrArg (· ++ _) hcur).trans ?_)
    cases w.impl.writeQueue.tail <;> simp
  · refine (List.filter_append _ _).trans ((congrArg (· ++ _) hwr).trans ?_)
    cases w.impl.writeQueue.tail <;> simp

end AndroidTvRemote.World
