import AndroidTvRemote.ReadLoop
import AndroidTvRemote.SyncTlsConnection

namespace AndroidTvRemote.World

open Base128 Wire Runs Framing SyncTlsConnection

/-- The read loop of a live connection stands between two frames. -/
structure AtBoundary (w : World) : Prop where
  live : w.impl.stream.isSome = true
  reading : (⟨w.impl.generation, .readLength⟩ : Op) ∈ w.ops
  readLength : w.impl.readLength = 0
  readShift : w.impl.readShift = 0

theorem AtBoundary.awaits {w : World} (h : w.AtBoundary) :
    Awaits w.impl.generation (.length []) w := by
  refine ⟨rfl, h.live, h.reading, ⟨by simp, by simp⟩, ?_⟩
  rintro _ ⟨⟩
  exact ⟨h.readLength, h.readShift⟩

theorem Awaits.atBoundary {g : ℕ} {w : World} (h : Awaits g (.length []) w) : w.AtBoundary := by
  obtain rfl := h.generation
  obtain ⟨hl, hs⟩ := h.length [] rfl
  exact ⟨h.live, h.reading, hl, hs⟩

/-- The stream gives the outstanding read of the current connection the bytes
it asks for, if it holds that many. -/
def feed : World × Bytes → World × Bytes
  | (w, bs) =>
    match w.ops.find? fun op ↦ op.generation == w.impl.generation && op.kind.isRead with
    | none => (w, bs)
    | some op =>
      if op.kind.capacity ≤ bs.length then
        (w.complete op { bytes := bs.take op.kind.capacity }, bs.drop op.kind.capacity)
      else (w, bs)

section Feed

variable {g : ℕ} {ph : Phase} {w : World}

theorem Awaits.find (hw : w.Inv) (ha : Awaits g ph w) :
    (w.ops.find? fun op ↦ op.generation == w.impl.generation && op.kind.isRead) =
      some ⟨g, ph.kind⟩ := by
  have hsome : (w.ops.find? fun op ↦
      op.generation == w.impl.generation && op.kind.isRead).isSome = true := by
    rw [List.find?_isSome]
    exact ⟨_, ha.reading, by simp [ha.generation, ph.isRead_kind]⟩
  obtain ⟨op, hop⟩ := Option.isSome_iff_exists.mp hsome
  have hp := List.find?_some hop
  simp only [Bool.and_eq_true, beq_iff_eq] at hp
  obtain ⟨g', k⟩ := op
  obtain rfl : g' = g := hp.1.trans ha.generation
  rw [hop, ha.unique hw (List.mem_of_find?_eq_some hop) (OpKind.isWrite_of_isRead hp.2)]

theorem Awaits.feed (hw : w.Inv) (ha : Awaits g ph w) {portion : Bytes}
    (hp : portion.length = ph.capacity) (more : Bytes) :
    World.feed (w, portion ++ more) =
      (w.complete ⟨g, ph.kind⟩ { bytes := portion }, more) := by
  simp only [World.feed, ha.find hw, ph.capacity_kind, ← hp]
  rw [if_pos (by rw [List.length_append]; omega), List.take_left, List.drop_left]

theorem Awaits.feed_short (hw : w.Inv) (ha : Awaits g ph w) {bs : Bytes}
    (h : bs.length < ph.capacity) : World.feed (w, bs) = (w, bs) := by
  simp only [World.feed, ha.find hw, ph.capacity_kind]
  rw [if_neg (Nat.not_le.mpr h)]

theorem feed_closed (hw : w.Inv) (hs : w.impl.stream = none) (bs : Bytes) :
    feed (w, bs) = (w, bs) := by
  have hnone : (w.ops.find? fun op ↦
      op.generation == w.impl.generation && op.kind.isRead) = none := by
    rw [List.find?_eq_none]
    intro op hop
    simp [((hw.closed hs).ops_lt op hop).ne]
  simp only [feed, hnone]

theorem feed_step (w : World) (bs : Bytes) :
    feed (w, bs) = (w, bs) ∨ ∃ e portion more w', bs = portion ++ more ∧
      e.portion w.impl.generation = some portion ∧ w.step e = some w' ∧
      feed (w, bs) = (w', more) := by
  cases hop : w.ops.find? fun op ↦ op.generation == w.impl.generation && op.kind.isRead with
  | none => simp only [feed, hop, true_or]
  | some op =>
    by_cases hcap : op.kind.capacity ≤ bs.length
    · have hp := List.find?_some hop
      simp only [Bool.and_eq_true, beq_iff_eq] at hp
      have hlen : (bs.take op.kind.capacity).length = op.kind.capacity :=
        List.length_take_of_le hcap
      have hstep := step_complete w op { bytes := bs.take op.kind.capacity }
        ⟨List.mem_of_find?_eq_some hop, hlen.le, fun _ ↦ hlen⟩
      refine .inr ⟨.complete op { bytes := bs.take op.kind.capacity }, _, _, _,
        (List.take_append_drop _ _).symm, if_pos ⟨hp.1, hp.2, rfl⟩, hstep, ?_⟩
      simp only [feed, hop, if_pos hcap]
    · simp only [feed, hop, if_neg hcap, true_or]

theorem feed_inv {n : ℕ} (hw : w.Inv) (bs : Bytes) : (World.feed^[n] (w, bs)).1.Inv := by
  induction n generalizing w bs with
  | zero => exact hw
  | succ n ih =>
    rw [Function.iterate_succ_apply]
    obtain hstay | ⟨e, portion, more, w', -, -, he, hfeed⟩ := feed_step w bs
    · rw [hstay]
      exact ih hw bs
    · rw [hfeed]
      exact ih (hw.next he) more

theorem Awaits.next (hw : w.Inv) (ha : Awaits g ph w) {portion : Bytes}
    (hp : portion.length = ph.capacity) :
    (w.complete ⟨g, ph.kind⟩ { bytes := portion }).Inv := by
  have hinv := feed_inv (n := 1) hw (portion ++ [])
  rwa [Function.iterate_one, ha.feed hw hp] at hinv

end Feed

/-- Where the loop of a connection has come to a stop, and why. -/
def StoppedFor (g : ℕ) (w : World) : Stop → Prop
  | .needPrefix => w.impl.generation = g ∧ (⟨g, .readLength⟩ : Op) ∈ w.ops
  | .needBody => w.impl.generation = g ∧ ∃ size, (⟨g, .readBody size⟩ : Op) ∈ w.ops
  | s => w.impl.generation = g + 1 ∧ w.impl.stream = none ∧
    ∃ l l', w.trace = l ++ (g, .callback (.error (complaint s))) :: (g, .lost) :: l' ∧
      ∀ r ∈ l', r.2.handled = none

theorem Awaits.stoppedFor {g : ℕ} {ph : Phase} {w : World} (h : Awaits g ph w) :
    w.StoppedFor g ph.stop := by
  cases ph with
  | length seen => exact ⟨h.generation, h.reading⟩
  | body size => exact ⟨h.generation, size, h.reading⟩

theorem GaveUp.stoppedFor {w w' : World} {s : Stop} (h : GaveUp w s w')
    (hs : s = .overlong ∨ s = .tooLong) : w'.StoppedFor w.impl.generation s := by
  obtain ⟨l, ht, hl⟩ := h.trace
  rcases hs with rfl | rfl
  · exact ⟨h.generation, h.stream, w.trace, l, ht, hl⟩
  · exact ⟨h.generation, h.stream, w.trace, l, ht, hl⟩

theorem GaveUp.received_eq {w w' : World} {s : Stop} (h : GaveUp w s w') (g : ℕ) :
    w'.received g = w.received g := by
  obtain ⟨l, ht, hl⟩ := h.trace
  rw [received, frames_append ht]
  refine (congrArg _ (List.filterMap_eq_nil_iff.mpr ?_)).trans (List.append_nil _)
  intro r hr
  rcases List.mem_cons.mp hr with rfl | hr
  · simp [Record.handled]
  rcases List.mem_cons.mp hr with rfl | hr
  · simp [Record.handled]
  · simp [hl r hr]

theorem Awaits.fed {g n : ℕ} {ph : Phase} {w : World} (hw : w.Inv) (ha : Awaits g ph w)
    {bs : Bytes} (hn : bs.length ≤ n) :
    (World.feed^[n] (w, bs)).1.received g =
      w.received g ++ (resume maxFrameSize ph bs).payloads ∧
    (World.feed^[n] (w, bs)).2 = (resume maxFrameSize ph bs).unread ∧
    (World.feed^[n] (w, bs)).1.StoppedFor g (resume maxFrameSize ph bs).stop ∧
    World.feed (World.feed^[n] (w, bs)) = World.feed^[n] (w, bs) := by
  have hcap := ha.valid.capacity_pos
  induction n generalizing ph w bs with
  | zero =>
    have hshort : bs.length < ph.capacity := by omega
    rw [Function.iterate_zero_apply, resume_short ha.valid hshort]
    exact ⟨(List.append_nil _).symm, rfl, ha.stoppedFor, ha.feed_short hw hshort⟩
  | succ n ih =>
    by_cases hshort : bs.length < ph.capacity
    · have hfix := ha.feed_short hw hshort
      rw [Function.iterate_fixed hfix, resume_short ha.valid hshort]
      exact ⟨(List.append_nil _).symm, rfl, ha.stoppedFor, hfix⟩
    · obtain ⟨portion, more, rfl, hp⟩ : ∃ portion more, bs = portion ++ more ∧
          portion.length = ph.capacity :=
        ⟨bs.take ph.capacity, bs.drop ph.capacity, (List.take_append_drop _ _).symm,
          List.length_take_of_le (Nat.not_lt.mp hshort)⟩
      rw [List.length_append] at hn
      have hv := ha.next hw hp
      rw [Function.iterate_succ_apply, ha.feed hw hp]
      cases hadv : advance maxFrameSize ph portion with
      | ok next =>
        obtain ⟨ps, ph'⟩ := next
        obtain ⟨ha', hrec⟩ := ha.complete_ok hp hadv
        have hih := ih hv ha' (show more.length ≤ n by omega) ha'.valid.capacity_pos
        rw [hrec, List.append_assoc] at hih
        rw [resume_ok ha.valid hp hadv]
        exact hih
      | error s =>
        have hgone := ha.complete_error hw hp hadv
        have hfix := feed_closed hv hgone.stream more
        rw [Function.iterate_fixed hfix, resume_error ha.valid hp hadv]
        have hstop := hgone.stoppedFor (advance_error ha.valid hp hadv)
        rw [ha.generation] at hstop
        exact ⟨(hgone.received_eq g).trans (List.append_nil _).symm, rfl, hstop, hfix⟩

theorem Awaits.feed_length {g : ℕ} {seen p : Bytes} {w : World} (hw : w.Inv)
    (ha : Awaits g (.length seen) w) (hp : Groups p) (hlen : seen.length + p.length ≤ 10)
    (t : Bytes) :
    ∃ seen' b v, v.Inv ∧ Awaits g (.length seen') v ∧ b.toNat < 128 ∧ seen' ++ [b] = seen ++ p ∧
      v.received g = w.received g ∧ World.feed^[p.length - 1] (w, p ++ t) = (v, b :: t) := by
  induction hp generalizing seen w with
  | @last b hb => exact ⟨seen, b, w, hw, ha, hb, rfl, rfl, rfl⟩
  | @more b p hb hp ih =>
    have hpos := List.length_pos_iff.mpr hp.ne_nil
    rw [List.length_cons] at hlen
    have hadv : advance maxFrameSize (.length seen) [b] = .ok ([], .length (seen ++ [b])) := by
      have hl : (seen ++ [b]).length < 10 := by
        rw [List.length_append, List.length_singleton]
        omega
      simp only [advance, List.headD_cons, if_pos (Nat.not_lt.mp hb), if_pos hl]
    have hone : [b].length = (Phase.length seen).capacity := rfl
    obtain ⟨ha', hrec⟩ := ha.complete_ok hone hadv
    obtain ⟨seen', c, v, hv, hav, hc, heq, hrec', hfeed⟩ := ih (ha.next hw hone) ha'
      (by rw [List.length_append, List.length_singleton]; omega)
    refine ⟨seen', c, v, hv, hav, hc, by rw [heq, List.append_assoc]; rfl, ?_, ?_⟩
    · rw [hrec', hrec, List.append_nil]
    · have hn : (b :: p).length - 1 = p.length - 1 + 1 := by
        rw [List.length_cons]
        omega
      rw [hn, Function.iterate_succ_apply]
      exact (congrArg _ (ha.feed hw hone (p ++ t))).trans hfeed

/-- The loop goes on with a length it has read: it gives up, handles an empty
message, or asks for exactly that many bytes. -/
def TakesLength (g : ℕ) (w : World) (length : UInt64) (w' : World) : Prop :=
  if maxFrameSize < length.toNat then
    w'.StoppedFor g .tooLong ∧ w'.received g = w.received g
  else if length = 0 then
    w'.AtBoundary ∧ w'.impl.generation = g ∧ w'.received g = w.received g ++ [[]]
  else
    w'.impl.generation = g ∧ (⟨g, .readBody length.toNat⟩ : Op) ∈ w'.ops ∧
      w'.received g = w.received g

theorem Awaits.takesLength {g : ℕ} {p : Bytes} {w : World} (hw : w.Inv)
    (ha : Awaits g (.length []) w) (hp : Groups p) (hlen : p.length ≤ 10) (t : Bytes) :
    (World.feed^[p.length] (w, p ++ t)).2 = t ∧
      TakesLength g w (UInt64.ofNat (denote p)) (World.feed^[p.length] (w, p ++ t)).1 := by
  obtain ⟨seen, b, v, hv, hav, hb, heq, hrec, hfeed⟩ :=
    ha.feed_length hw hp (by simpa using hlen) t
  rw [List.nil_append] at heq
  have hpos := List.length_pos_iff.mpr hp.ne_nil
  have hn : p.length = p.length - 1 + 1 := by omega
  have hone : [b].length = (Phase.length seen).capacity := rfl
  have hlast : World.feed^[p.length] (w, p ++ t) =
      (v.complete ⟨g, .readLength⟩ { bytes := [b] }, t) := by
    rw [hn, Function.iterate_succ_apply', hfeed]
    exact hav.feed hv hone t
  have hsize : (UInt64.ofNat (denote p)).toNat = denote p % 2 ^ 64 := UInt64.toNat_ofNat'
  have hadv := advances hav.valid hone
  rw [hlast]
  refine ⟨rfl, ?_⟩
  have hzero : UInt64.ofNat (denote p) = 0 ↔ denote p % 2 ^ 64 = 0 := by
    rw [← hsize, ← UInt64.toNat_inj]
    rfl
  rw [← heq] at hsize hzero ⊢
  unfold TakesLength
  simp only [hsize, hzero, ← hrec]
  generalize hr : advance maxFrameSize (.length seen) [b] = r at hadv
  cases hadv with
  | more hb' _ => exact absurd hb hb'
  | overlong hb' _ => exact absurd hb hb'
  | tooLong _ hl =>
    have hgone := hav.complete_error hv rfl hr
    have hstop := hgone.stoppedFor (.inr rfl)
    rw [hav.generation] at hstop
    rw [if_pos hl]
    exact ⟨hstop, hgone.received_eq g⟩
  | empty _ h0 =>
    obtain ⟨ha', hrec'⟩ := hav.complete_ok hone hr
    rw [if_neg (by omega), if_pos h0]
    exact ⟨ha'.atBoundary, ha'.generation, hrec'⟩
  | size _ hl h0 =>
    obtain ⟨ha', hrec'⟩ := hav.complete_ok hone hr
    rw [if_neg (by omega), if_neg (by omega)]
    exact ⟨ha'.generation, ha'.reading, hrec'.trans (List.append_nil _)⟩

theorem Awaits.feed_frame {g : ℕ} {w : World} (hw : w.Inv) (ha : Awaits g (.length []) w)
    {bs p t : Bytes} (h : cut maxFrameSize bs = .ok (p, t)) :
    ∃ n w', World.feed^[n] (w, bs) = (w', t) ∧ w'.Inv ∧ Awaits g (.length []) w' ∧
      w'.received g = w.received g ++ [p] := by
  unfold cut at h
  split at h
  · cases h
  next q u hs =>
    obtain ⟨rfl, hq, hlen⟩ := scan_eq_some_iff.mp hs
    obtain ⟨hrest, htakes⟩ := ha.takesLength hw hq hlen u
    have hinv := feed_inv (n := q.length) hw (q ++ u)
    have hsize : (UInt64.ofNat (denote q)).toNat = denote q % 2 ^ 64 := UInt64.toNat_ofNat'
    simp only at h
    split at h
    · cases h
    next hl =>
      split at h
      · cases h
      next hu =>
        obtain ⟨rfl, rfl⟩ := Prod.mk.inj (Except.ok.inj h)
        rw [TakesLength, hsize, if_neg hl] at htakes
        split at htakes
        next h0 =>
          obtain ⟨hb, hg, hrec⟩ := htakes
          have hzero : denote q % 2 ^ 64 = 0 := by rw [← hsize, h0]; rfl
          rw [hzero, List.take_zero, List.drop_zero]
          exact ⟨q.length, _, Prod.ext rfl hrest, hinv, hg ▸ hb.awaits, hrec⟩
        next h0 =>
          obtain ⟨hg, hop, hrec⟩ := htakes
          have hne : denote q % 2 ^ 64 ≠ 0 := by
            intro hz
            exact h0 (UInt64.toNat_inj.mp (hsize.trans hz))
          have hbody : Awaits g (.body (denote q % 2 ^ 64))
              (World.feed^[q.length] (w, q ++ u)).1 :=
            ⟨hg, hinv.live_of_op hop hg.symm, hop, ⟨by omega, by omega⟩, fun _ h ↦ by cases h⟩
          have hp : (u.take (denote q % 2 ^ 64)).length = denote q % 2 ^ 64 :=
            List.length_take_of_le (by omega)
          obtain ⟨ha', hrec'⟩ := hbody.complete_ok hp rfl
          refine ⟨q.length + 1, _, ?_, hbody.next hinv hp, ha', by rw [hrec', hrec]⟩
          rw [Function.iterate_succ_apply', ← hbody.feed hinv hp, List.take_append_drop]
          exact congrArg _ (Prod.ext rfl hrest)

theorem Awaits.feed_frames {g : ℕ} {w : World} (hw : w.Inv) (ha : Awaits g (.length []) w)
    {ps : List Bytes} (hps : ∀ p ∈ ps, p.length ≤ 4 * 1024 * 1024) (t : Bytes) :
    ∃ n w', World.feed^[n] (w, (ps.map frame).flatten ++ t) = (w', t) ∧
      Awaits g (.length []) w' ∧ w'.received g = w.received g ++ ps := by
  induction ps generalizing w with
  | nil => exact ⟨0, w, rfl, ha, (List.append_nil _).symm⟩
  | cons p ps ih =>
    obtain ⟨hp, hps⟩ := List.forall_mem_cons.mp hps
    rw [List.map_cons, List.flatten_cons, List.append_assoc]
    obtain ⟨n, v, hfeed, hv, hav, hrec⟩ := ha.feed_frame hw (cut_frame hp _)
    obtain ⟨n', w', hfeed', ha', hrec'⟩ := ih hv hav hps
    refine ⟨n' + n, w', ?_, ha', by rw [hrec', hrec, List.append_assoc]; rfl⟩
    rw [Function.iterate_add_apply, hfeed, hfeed']

theorem Awaits.run_frames {g : ℕ} {w w' : World} {es : List Event} (hw : w.Inv)
    (ha : Awaits g (.length []) w) (hr : Run World.step w es w') (hg : w'.impl.generation = g)
    {ps : List Bytes} (hps : ∀ p ∈ ps, p.length ≤ 4 * 1024 * 1024)
    (hd : delivered g es = (ps.map frame).flatten) :
    w'.AtBoundary ∧ w'.received g = w.received g ++ ps := by
  obtain ⟨ph, ps', ha', hrec, hres⟩ := ha.run hw hr hg
  have hout : ∀ more, (resume maxFrameSize ph more).prepend ps' =
      (unframe maxFrameSize more).prepend ps := by
    intro more
    rw [← hres more, hd]
    exact unframe_frames hps more
  obtain ⟨rfl, rfl⟩ := boundary_of_resume ha'.valid (by decide) hout
  exact ⟨ha'.atBoundary, hrec⟩

/-- Payloads sent in frames come out of both receivers as they went in. The
loop of the object, given the bytes it asks for, handles them in order and
stands at a frame boundary with the rest unread; it does so too when the
deliveries come interleaved with any other events of the connection. -/
theorem frames_received_in_order {o : Options} {es : List Event} {w : World}
    (h : Reaches o es w) (hb : w.AtBoundary) {ps : List Bytes}
    (hps : ∀ p ∈ ps, p.length ≤ 4 * 1024 * 1024) (t : Bytes) :
    (∃ n w', feed^[n] (w, (ps.map frame).flatten ++ t) = (w', t) ∧ w'.AtBoundary ∧
      w'.impl.generation = w.impl.generation ∧
      w'.received w.impl.generation = w.received w.impl.generation ++ ps) ∧
    (∀ es' w', Run World.step w es' w' → w'.impl.generation = w.impl.generation →
      delivered w.impl.generation es' = (ps.map frame).flatten →
      w'.AtBoundary ∧ w'.received w.impl.generation = w.received w.impl.generation ++ ps) ∧
    receives ps.length ((ps.map frame).flatten ++ t) = (ps.map .ok, t) := by
  have hw := inv_of_reaches h
  refine ⟨?_, ?_, receives_frames hps t⟩
  · obtain ⟨n, w', hfeed, ha, hrec⟩ := hb.awaits.feed_frames hw hps t
    exact ⟨n, w', hfeed, ha.atBoundary, ha.generation, hrec⟩
  · intro es' w' hr hg hd
    exact hb.awaits.run_frames hw hr hg hps hd

/-- The two receivers make the same of every stream: the same payloads, and a
stop at the same byte for the same reason. The length either takes for a frame
is what `decodeVarintPrefix` finds at its boundary, and where that finds none
neither gets to a length. -/
theorem receivers_agree {o : Options} {es : List Event} {w : World} (h : Reaches o es w)
    (hb : w.AtBoundary) (bs : Bytes) :
    ((feed^[bs.length] (w, bs)).1.received w.impl.generation =
        w.received w.impl.generation ++ (receiveAll bs).1 ∧
      (feed^[bs.length] (w, bs)).2 = (receiveAll bs).2.2 ∧
      (feed^[bs.length] (w, bs)).1.StoppedFor w.impl.generation (receiveAll bs).2.1.stop ∧
      feed (feed^[bs.length] (w, bs)) = feed^[bs.length] (w, bs)) ∧
    (∀ length n, decodeVarintPrefix bs = (true, length, n) →
      receiveLength 0 0 bs = (.ok length, bs.drop n) ∧
      (feed^[n] (w, bs)).2 = bs.drop n ∧
      TakesLength w.impl.generation w length (feed^[n] (w, bs)).1) ∧
    ((decodeVarintPrefix bs).1 = false →
      (∃ failure unread, receiveLength 0 0 bs = (.error failure, unread)) ∧
      (receiveAll bs).1 = [] ∧
      ((receiveAll bs).2.1.stop = .needPrefix ∨ (receiveAll bs).2.1.stop = .overlong)) := by
  have hw := inv_of_reaches h
  have hall := unframe_receiveAll bs
  refine ⟨?_, ?_, ?_⟩
  · have hfed := hb.awaits.fed hw (le_refl bs.length)
    have hres : resume maxFrameSize (.length []) bs = unframe (4 * 1024 * 1024) bs := rfl
    rw [hres, hall] at hfed
    exact hfed
  · intro length n hdec
    cases hs : scan 10 bs with
    | none =>
      have hfalse := decodeVarintPrefix_none hs
      rw [hdec] at hfalse
      cases hfalse
    | some found =>
      obtain ⟨p, t⟩ := found
      obtain ⟨rfl, hp, hlen⟩ := scan_eq_some_iff.mp hs
      rw [decodeVarintPrefix_some hs] at hdec
      obtain ⟨-, hdec⟩ := Prod.mk.inj hdec
      obtain ⟨rfl, rfl⟩ := Prod.mk.inj hdec
      rw [receiveLength_scan, hs, List.drop_left]
      exact ⟨rfl, hb.awaits.takesLength hw hp hlen t⟩
  · intro hfalse
    cases hs : scan 10 bs with
    | some found =>
      rw [decodeVarintPrefix_some hs] at hfalse
      cases hfalse
    | none => exact receiveAll_of_scan_none hs

def greeted : Option World := exec World.step (World.ofOptions {}) (.connect {} :: Event.handshakes 1)

theorem greeted_reaches : Reaches {} (.connect {} :: Event.handshakes 1)
    (greeted.get (by decide +kernel)) := run_of_isSome (by decide +kernel)

theorem greeted_atBoundary : (greeted.get (by decide +kernel)).AtBoundary :=
  ⟨by decide +kernel, by decide +kernel, by decide +kernel, by decide +kernel⟩

theorem frames_received_in_order_greeted :
    let w := greeted.get (by decide +kernel)
    Reaches {} (.connect {} :: Event.handshakes 1) w ∧ w.AtBoundary ∧
      ∃ n w', feed^[n] (w, ([[8, 1], []].map frame).flatten ++ [200]) = (w', [200]) ∧
        w'.AtBoundary ∧ w'.impl.generation = w.impl.generation ∧
        w'.received w.impl.generation = w.received w.impl.generation ++ [[8, 1], []] :=
  ⟨greeted_reaches, greeted_atBoundary,
    (frames_received_in_order greeted_reaches greeted_atBoundary
      (show ∀ p ∈ ([[8, 1], []] : List Bytes), p.length ≤ 4 * 1024 * 1024 by decide) [200]).1⟩

theorem receivers_agree_greeted :
    let w := greeted.get (by decide +kernel)
    Reaches {} (.connect {} :: Event.handshakes 1) w ∧ w.AtBoundary ∧
      decodeVarintPrefix [130, 0, 7, 9] = (true, 2, 2) ∧
      receiveLength 0 0 [130, 0, 7, 9] = (.ok 2, [7, 9]) :=
  ⟨greeted_reaches, greeted_atBoundary, by decide,
    ((receivers_agree greeted_reaches greeted_atBoundary [130, 0, 7, 9]).2.1 2 2 (by decide)).1⟩

def greetedWorld : World := greeted.get (by decide +kernel)

end AndroidTvRemote.World
