import AndroidTvRemote.Dialogue
import AndroidTvRemote.SyncTlsConnection
import AndroidTvRemote.VoiceChunks

namespace AndroidTvRemote

open Wire Protocol SteadyTimer Runs SyncTlsConnection

namespace World

abbrev messages (g : ℕ) (w : World) : List Bytes := w.frames Record.message g

theorem pushed_eq (g : ℕ) (w : World) : w.pushed g = (w.messages g).map frame := by
  rw [pushed, messages, frames, frames, List.map_filterMap]
  apply List.filterMap_congr
  intro r _
  split
  · cases r.2 <;> rfl
  · rfl

def sent (g : ℕ) (w : World) : Bytes := (w.written g).flatten

theorem Delivers.sent_prefix {w : World} (h : w.Delivers) (g : ℕ) :
    w.sent g <+: ((w.messages g).map frame).flatten := by
  obtain ⟨rest, hrest⟩ := h.prefixed g
  rw [← pushed_eq, ← hrest, List.flatten_append]
  exact List.prefix_append _ _

theorem payloads_of_frames {ps : List Bytes} (hps : ∀ p ∈ ps, p.length ≤ 4 * 1024 * 1024) :
    (receiveAll (ps.map frame).flatten).1 = ps := by
  have hframes := unframe_frames hps []
  have hcut : Framing.cut (4 * 1024 * 1024) [] = .error (.needPrefix, []) :=
    Framing.cut_continues (by simp) (by simp)
  have hnil : (Framing.unframe (4 * 1024 * 1024) []).payloads = [] := by
    rw [Framing.unframe_error hcut]
  rw [List.append_nil, unframe_receiveAll] at hframes
  have hpayloads := congrArg Framing.Outcome.payloads hframes
  exact hpayloads.trans (by rw [Framing.Outcome.prepend, hnil, List.append_nil])

/-- Whatever of a connection's bytes has arrived, the receiver has the first of
the messages queued on it. -/
theorem Delivers.arrives {w : World} (h : w.Delivers) {g : ℕ}
    (hsize : ∀ m ∈ w.messages g, m.length ≤ 4 * 1024 * 1024) {bs : Bytes}
    (hbs : bs <+: w.sent g) : (receiveAll bs).1 <+: w.messages g := by
  obtain ⟨more, hmore⟩ := hbs.trans (h.sent_prefix g)
  have hprefix : (Framing.unframe (4 * 1024 * 1024) bs).payloads <+: _ :=
    Framing.payloads_append bs more
  rw [hmore, unframe_receiveAll, unframe_receiveAll, payloads_of_frames hsize] at hprefix
  exact hprefix

section Drain

variable {w w' : World}

/-- The object with its queue written: the write in progress has ended, and for
every frame behind it one was begun and has ended. -/
def drained (w : World) : World :=
  { w with
    impl.writeQueue := []
    impl.writeInProgress := false
    ops := w.ops.filter fun op ↦ !(op.generation == w.impl.generation && op.kind.isWrite)
    trace := w.trace ++ w.impl.writeQueue.tail.map fun f ↦ (w.impl.generation, .write f) }

def drain (w : World) : List Event :=
  w.impl.writeQueue.map fun f ↦ .complete ⟨w.impl.generation, .write f⟩ {}

theorem Inv.write_front (h : w.Inv) (hs : w.impl.stream.isSome = true) {front : Bytes}
    {rest : List Bytes} (hq : w.impl.writeQueue = front :: rest) :
    w.step (.complete ⟨w.impl.generation, .write front⟩ {}) = some { w with
      impl.writeQueue := rest
      impl.writeInProgress := !rest.isEmpty
      ops := w.ops.erase ⟨w.impl.generation, .write front⟩ ++
        (rest.head?.map fun f ↦ (⟨w.impl.generation, .write f⟩ : Op)).toList
      trace := w.trace ++ (rest.head?.map fun f ↦
        (w.impl.generation, Record.write f)).toList } := by
  have hop : (⟨w.impl.generation, .write front⟩ : Op) ∈ w.ops := by
    have hmem : (⟨w.impl.generation, .write front⟩ : Op) ∈ w.writes := by
      rw [h.writes_eq, hq]
      exact List.mem_singleton_self _
    exact List.mem_of_mem_filter hmem
  have hfits : ({} : Completion).Fits (.write front) := ⟨le_rfl, fun _ ↦ rfl⟩
  have hspec := wrote_spec (w := { w with
    ops := w.ops.erase ⟨w.impl.generation, .write front⟩ }) hs
  rw [step_complete _ _ _ ⟨hop, hfits⟩]
  simp only [hq, List.tail_cons] at hspec
  simp only [World.complete, handler, fill, onWrite, ne_eq, not_true_eq_false, if_false, hq,
    List.tail_cons]
  exact congrArg some hspec

theorem Inv.drained_nil (h : w.Inv) (hs : w.impl.stream.isSome = true)
    (hq : w.impl.writeQueue = []) : w.drained = w := by
  have hb : w.impl.writeInProgress = false := by simp [(h.opened hs).busy, hq]
  have hwrites := h.writes_eq
  rw [hq, writes, List.head?_nil, Option.map_none, Option.toList_none,
    List.filter_eq_nil_iff] at hwrites
  have hops : w.ops.filter (fun op ↦ !(op.generation == w.impl.generation && op.kind.isWrite)) =
      w.ops := by
    rw [List.filter_eq_self]
    intro op hop
    rw [Bool.not_eq_true']
    exact Bool.not_eq_true _ ▸ hwrites op hop
  have htrace : w.trace ++ w.impl.writeQueue.tail.map
      (fun f ↦ (w.impl.generation, Record.write f)) = w.trace := by simp [hq]
  rw [drained, hops, htrace, ← hb, ← hq]

theorem drained_next {w w' : World} {front : Bytes} {rest : List Bytes}
    (hq : w.impl.writeQueue = front :: rest) (hw : w' = { w with
      impl.writeQueue := rest
      impl.writeInProgress := !rest.isEmpty
      ops := w.ops.erase ⟨w.impl.generation, .write front⟩ ++
        (rest.head?.map fun f ↦ (⟨w.impl.generation, .write f⟩ : Op)).toList
      trace := w.trace ++ (rest.head?.map fun f ↦
        (w.impl.generation, Record.write f)).toList }) : w'.drained = w.drained := by
  have hops : (w.ops.erase ⟨w.impl.generation, .write front⟩ ++
      (rest.head?.map fun f ↦ (⟨w.impl.generation, .write f⟩ : Op)).toList).filter
        (fun op ↦ !(op.generation == w.impl.generation && op.kind.isWrite)) =
      w.ops.filter fun op ↦ !(op.generation == w.impl.generation && op.kind.isWrite) := by
    rw [List.filter_append, ← List.erase_filter, List.erase_of_not_mem (by simp [OpKind.isWrite])]
    cases rest <;> simp [OpKind.isWrite]
  have htrace : w.trace ++ (rest.head?.map fun f ↦ (w.impl.generation, Record.write f)).toList ++
      rest.tail.map (fun f ↦ (w.impl.generation, Record.write f)) =
        w.trace ++ w.impl.writeQueue.tail.map fun f ↦ (w.impl.generation, Record.write f) := by
    rw [hq]
    cases rest <;> simp
  subst hw
  simp only [drained, hops, htrace]

theorem Inv.drains {q : List Bytes} (h : w.Inv) (hs : w.impl.stream.isSome = true)
    (hq : w.impl.writeQueue = q) : Run World.step w w.drain w.drained := by
  induction q generalizing w with
  | nil =>
    rw [drain, hq, h.drained_nil hs hq]
    exact .nil w
  | cons front rest ih =>
    have hstep := h.write_front hs hq
    have hrun := ih (h.next hstep) hs rfl
    rw [drained_next hq rfl] at hrun
    rw [drain, hq]
    exact .cons hstep hrun

theorem messages_drained (w : World) (g : ℕ) : w.drained.messages g = w.messages g := by
  rw [messages, frames_append (w := w) rfl]
  refine (congrArg _ (List.filterMap_eq_nil_iff.mpr ?_)).trans (List.append_nil _)
  intro r hr
  obtain ⟨f, -, rfl⟩ := List.mem_map.mp hr
  exact ite_self _

theorem Delivers.sent_all (h : w.Delivers) (hq : w.impl.writeQueue = []) :
    w.sent w.impl.generation = ((w.messages w.impl.generation).map frame).flatten := by
  have heq : w.pushed w.impl.generation = w.written w.impl.generation ++ w.impl.writeQueue.tail :=
    h.orderly.pushed_eq
  rw [hq, List.tail_nil, List.append_nil] at heq
  rw [sent, ← heq, pushed_eq]

end Drain

theorem drains_of_reaches {o : Options} {es : List Event} {w : World} (h : Reaches o es w)
    (hs : w.impl.stream.isSome = true) : Run World.step w w.drain w.drained ∧
      (∀ g, w.drained.messages g = w.messages g) ∧
      ((∀ m ∈ w.messages w.impl.generation, m.length ≤ 4 * 1024 * 1024) →
        (receiveAll (w.drained.sent w.impl.generation)).1 = w.messages w.impl.generation) := by
  have hrun := (inv_of_reaches h).drains hs rfl
  refine ⟨hrun, messages_drained w, ?_⟩
  intro hsize
  have hall : w.drained.sent w.impl.generation = _ :=
    (delivers_of_reaches (h.trans hrun)).sent_all rfl
  rw [hall]
  exact (congrArg (fun ps ↦ (receiveAll (ps.map frame).flatten).1) (messages_drained w _)).trans
    (payloads_of_frames hsize)

/-- Messages reach the TV as they were queued. Of the bytes of a connection,
however many have arrived, the receiver makes the first of the messages queued
on it; and as soon as the writes of the queue have ended well, which changes
nothing but the queue, its writes and their records, all of them are on their
way. -/
theorem messages_are_delivered {o : Options} {es : List Event} {w : World} (h : Reaches o es w) :
    (∀ g bs, (∀ m ∈ w.messages g, m.length ≤ 4 * 1024 * 1024) → bs <+: w.sent g →
      (receiveAll bs).1 <+: w.messages g) ∧
    (w.impl.stream.isSome = true → Run World.step w w.drain w.drained ∧
      (∀ g, w.drained.messages g = w.messages g) ∧
      ((∀ m ∈ w.messages w.impl.generation, m.length ≤ 4 * 1024 * 1024) →
        (receiveAll (w.drained.sent w.impl.generation)).1 = w.messages w.impl.generation)) :=
  ⟨fun _ _ hsize hbs ↦ (delivers_of_reaches h).arrives hsize hbs, drains_of_reaches h⟩

theorem messages_are_delivered_two_keys :
    let w := (((World.ofOptions {}).connect {}).sendKey 3 .short).sendKey 4 .short
    Reaches {} [.connect {}, .sendKey 3 .short, .sendKey 4 .short] w ∧
      (receiveAll (w.sent 1)).1 <+: w.messages 1 ∧
      Run World.step w w.drain w.drained ∧
      (receiveAll (w.drained.sent 1)).1 = [remoteKey 3 .short, remoteKey 4 .short] := by
  intro w
  have h : Reaches {} [.connect {}, .sendKey 3 .short, .sendKey 4 .short] w :=
    .cons rfl (.cons rfl (.one rfl))
  have hmessages : w.messages 1 = [remoteKey 3 .short, remoteKey 4 .short] := by decide +kernel
  have hsize : ∀ m ∈ w.messages 1, m.length ≤ 4 * 1024 * 1024 := by
    rw [hmessages]
    decide +kernel
  obtain ⟨harrives, hdrain⟩ := messages_are_delivered h
  obtain ⟨hrun, -, hall⟩ := hdrain rfl
  exact ⟨h, harrives 1 _ hsize (List.prefix_refl _), hrun, (hall hsize).trans hmessages⟩

end World

end AndroidTvRemote
