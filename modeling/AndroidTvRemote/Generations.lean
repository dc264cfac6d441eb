import AndroidTvRemote.Reactions

namespace AndroidTvRemote

open Wire Protocol SteadyTimer Runs

namespace Record

/-- The connection was given up by `handleConnectionLoss` or by
`authenticationFailed`. -/
def isEnd : Record → Bool
  | lost | refused => true
  | _ => false

def isArming : Record → Bool
  | reconnectArmed _ => true
  | _ => false

def isUnavailable : Record → Bool
  | callback (.availabilityChanged available) => !available
  | _ => false

theorem not_isEnd_of_isOngoing (r : Record) (h : r.isOngoing = true) : r.isEnd = false := by
  cases r <;> first | rfl | cases h

theorem not_isArming_of_isOngoing (r : Record) (h : r.isOngoing = true) : r.isArming = false := by
  cases r <;> first | rfl | cases h

theorem not_isUnavailable_of_isOngoing (r : Record) (h : r.isOngoing = true) :
    r.isUnavailable = false := by
  unfold isUnavailable
  split
  next available => simpa [isOngoing] using h
  next => rfl

end Record

namespace World

def count (P : Record → Bool) (g : ℕ) (w : World) : ℕ :=
  w.trace.countP fun r ↦ r.1 == g && P r.2

theorem count_append {P : Record → Bool} {g : ℕ} {w w' : World} {l : List (ℕ × Record)}
    (ht : w'.trace = w.trace ++ l) :
    w'.count P g = w.count P g + l.countP fun r ↦ r.1 == g && P r.2 := by
  rw [count, ht, List.countP_append]
  rfl

theorem count_stays {P : Record → Bool} (hP : ∀ r, r.isOngoing = true → P r = false)
    {w w' : World} (h : Stays w w') (g : ℕ) : w'.count P g = w.count P g := by
  obtain ⟨l, ht, hl⟩ := h.trace
  have hzero : (l.map (Prod.mk w.impl.generation)).countP (fun r ↦ r.1 == g && P r.2) = 0 := by
    rw [List.countP_eq_zero]
    intro r hr
    obtain ⟨r', hr', rfl⟩ := List.mem_map.mp hr
    simp [hP r' (hl r' hr')]
  rw [count_append ht, hzero, Nat.add_zero]

theorem Bounded.count_eq_zero {w : World} (h : w.Bounded) {g : ℕ} (hg : w.impl.generation < g)
    (P : Record → Bool) : w.count P g = 0 := by
  apply List.countP_eq_zero.mpr
  intro r hr
  have hne : r.1 ≠ g := ((h.trace_le r hr).trans_lt hg).ne
  simp [hne]

/-- A connection ends at most once; a reconnect wait is armed by such an end;
a generation reports at most once that the TV became unavailable; and no null
pointer was ever dereferenced. -/
structure Once (w : World) : Prop where
  ended : ∀ g, w.count Record.isEnd g ≤ if g < w.impl.generation then 1 else 0
  armed : ∀ g, w.count Record.isArming (g + 1) ≤ w.count Record.isEnd g
  unavailable : ∀ g, w.count Record.isUnavailable g ≤ 1
  valid : ∀ r ∈ w.trace, r.2 ≠ .nullDereference

theorem Once.stays {w w' : World} (h : w.Once) (hs : Stays w w') : w'.Once := by
  have hend := count_stays Record.not_isEnd_of_isOngoing hs
  have harm := count_stays Record.not_isArming_of_isOngoing hs
  have hun := count_stays Record.not_isUnavailable_of_isOngoing hs
  refine ⟨?_, ?_, ?_, ?_⟩
  · intro g
    rw [hend, hs.generation]
    exact h.ended g
  · intro g
    rw [hend, harm]
    exact h.armed g
  · intro g
    rw [hun]
    exact h.unavailable g
  · intro r hr
    obtain ⟨l, ht, hl⟩ := hs.trace
    rw [ht] at hr
    rcases List.mem_append.mp hr with hr | hr
    · exact h.valid r hr
    · obtain ⟨r', hr', rfl⟩ := List.mem_map.mp hr
      rintro rfl
      cases hl _ hr'

theorem Once.closing {w w' : World} (h : w.Once) (hb : w.Bounded) {l : List (ℕ × Record)}
    (hg : w'.impl.generation = w.impl.generation + 1) (ht : w'.trace = w.trace ++ l)
    (hend : ∀ g, l.countP (fun r ↦ r.1 == g && r.2.isEnd) ≤ if w.impl.generation = g then 1 else 0)
    (harm : ∀ g, l.countP (fun r ↦ r.1 == g + 1 && r.2.isArming) ≤
      l.countP fun r ↦ r.1 == g && r.2.isEnd)
    (hun : ∀ g, l.countP (fun r ↦ r.1 == g && r.2.isUnavailable) ≤
      if w.impl.generation + 1 = g then 1 else 0)
    (hvalid : ∀ r ∈ l, r.2 ≠ .nullDereference) : w'.Once := by
  refine ⟨?_, ?_, ?_, ?_⟩
  · intro g
    have h₁ := h.ended g
    have h₂ := hend g
    rw [count_append ht, hg]
    split_ifs at h₁ h₂ ⊢ <;> omega
  · intro g
    rw [count_append ht, count_append ht]
    exact Nat.add_le_add (h.armed g) (harm g)
  · intro g
    have h₁ := h.unavailable g
    have h₂ := hun g
    rw [count_append ht]
    split_ifs at h₂ with hgen
    · have h₃ := hb.count_eq_zero (g := g) (by omega) Record.isUnavailable
      omega
    · omega
  · intro r hr
    rw [ht] at hr
    rcases List.mem_append.mp hr with hr | hr
    · exact h.valid r hr
    · exact hvalid r hr

theorem Once.handleConnectionLoss {w : World} (h : w.Once) (hb : w.Sound)
    (hs : w.impl.stream.isSome = true) : (w.handleConnectionLoss w.impl.generation).Once := by
  rw [handleConnectionLoss_spec (hb.opened hs).wanted hb.alive]
  simp only
  split_ifs
  all_goals
    refine h.closing hb.toBounded rfl (List.append_assoc _ _ _) (fun g ↦ ?_) (fun g ↦ ?_)
      (fun g ↦ ?_) ?_
    all_goals simp [List.countP_cons, Record.isEnd, Record.isArming, Record.isUnavailable]

theorem Once.authenticationFailed {w : World} (h : w.Once) (hb : w.Sound) (error : String)
    (hs : w.impl.stream.isSome = true) :
    (w.authenticationFailed error w.impl.generation).Once := by
  rw [authenticationFailed_spec error (hb.opened hs).wanted hb.alive]
  simp only
  split_ifs
  all_goals
    refine h.closing hb.toBounded rfl
      ((List.append_assoc _ _ _).trans (List.append_assoc _ _ _)) (fun g ↦ ?_) (fun g ↦ ?_)
      (fun g ↦ ?_) ?_
    all_goals simp [List.countP_cons, Record.isEnd, Record.isArming, Record.isUnavailable]

theorem Once.disconnectAndWait {w : World} (h : w.Once) (hb : w.Bounded) :
    w.disconnectAndWait.Once := by
  refine h.closing hb rfl (l := [(w.impl.generation + 1, _)]) rfl (fun g ↦ ?_) (fun g ↦ ?_)
    (fun g ↦ ?_) ?_
  all_goals simp [Record.isEnd, Record.isArming, Record.isUnavailable]

theorem Once.disconnect {w : World} (h : w.Once) (hb : w.Bounded) : w.disconnect.Once := by
  refine h.closing hb rfl (l := [(w.impl.generation + 1, _), (w.impl.generation + 1, _)])
    (List.append_assoc _ _ _) (fun g ↦ ?_) (fun g ↦ ?_) (fun g ↦ ?_) ?_
  all_goals simp [List.countP_cons, Record.isEnd, Record.isArming, Record.isUnavailable]

theorem Once.beginConnect {w : World} (h : w.Once) (hb : w.Bounded)
    (hu : w.impl.userDisconnect = false) (reconnecting : Bool) (a : IdentityAttempt) :
    (w.beginConnect reconnecting a).Once := by
  obtain ⟨n, context, l, hl, ⟨error, he⟩ | ⟨k, rfl, he⟩⟩ :=
    beginConnect_cases reconnecting a hb.alive hu
  all_goals
    have hzero : ∀ P : ℕ × Record → Bool, (∀ c b, P (w.impl.generation + 1, .identity c b) = false) →
        l.countP P = 0 := by
      intro P hP
      apply List.countP_eq_zero.mpr
      intro r hr
      obtain ⟨c, b, rfl⟩ := hl r hr
      simp [hP]
    rw [he]
    refine h.closing hb rfl rfl ?_ ?_ ?_ ?_
    · intro g
      simp [hzero, Record.isEnd]
    · intro g
      simp [hzero, Record.isEnd, Record.isArming]
    · intro g
      simp [hzero, Record.isUnavailable]
    · intro r hr
      rcases List.mem_append.mp hr with hr | hr
      · obtain ⟨c, b, rfl⟩ := hl r hr
        simp
      · simp at hr
        rcases hr with rfl | rfl <;> simp

theorem Once.move {w w' : World} (hb : w.Sound) (h : w.Once) (hm : Move w w') : w'.Once := by
  obtain hs | ⟨hs, rfl | ⟨error, rfl⟩⟩ := hm.stays_or hb
  · exact h.stays hs
  · exact h.handleConnectionLoss hb hs
  · exact h.authenticationFailed hb error hs

theorem Once.does {w w' : World} {e : Event} (hb : w.Sound) (h : w.Once) (hd : Does w e w') :
    w'.Once := by
  cases hd with
  | moves hm => exact hm.invariant (fun _ _ ↦ Once.move) hb h
  | send _ hs => exact h.stays (stays_queueMessage hb hs _)
  | attempt _ reconnecting delay t =>
    have hset : (w.wanting delay t).Once := ⟨h.ended, h.armed, h.unavailable, h.valid⟩
    exact hset.beginConnect (hb.toBounded.wanting delay t) rfl _ _
  | disconnect => exact h.disconnect hb.toBounded
  | disconnectAndWait => exact h.disconnectAndWait hb.toBounded

theorem once_ofOptions (o : Options) : (World.ofOptions o).Once where
  ended _ := Nat.zero_le _
  armed _ := le_rfl
  unavailable _ := Nat.zero_le _
  valid _ h := by cases h

/-- Generation isolation. A completion of an earlier generation only fills the
receive buffer of its operation; one of the current generation finds the stream;
and a connection ends, arms a reconnect wait and reports its loss at most
once. What the end of generation `g` arms and reports belongs to generation
`g + 1`. -/
theorem generations_isolated {o : Options} {es : List Event} {w : World} (h : Reaches o es w) :
    (∀ op ∈ w.ops, op.generation ≠ w.impl.generation → ∀ c,
      w.complete op c = { w with ops := w.ops.erase op }.fill op c ∧ ∃ byte body,
      w.complete op c = { w with
        ops := w.ops.erase op
        impl.lengthByte := byte
        impl.readBody := body }) ∧
    (∀ op ∈ w.ops, op.generation = w.impl.generation → w.impl.stream.isSome = true) ∧
    (∀ g, (g, Record.nullDereference) ∉ w.trace) ∧
    ∀ g, w.count Record.isEnd g ≤ 1 ∧
      w.count Record.isArming (g + 1) ≤ w.count Record.isEnd g ∧
      w.count Record.isUnavailable (g + 1) ≤ 1 := by
  have hinv := inv_of_reaches h
  have honce := invariant_of_reaches h (once_ofOptions o) fun _ _ _ ↦ Once.does
  refine ⟨?_, ?_, ?_, ?_⟩
  · intro op _ hg c
    obtain ⟨byte, body, hf⟩ := fill_eq op c { w with ops := w.ops.erase op }
    exact ⟨complete_stale hg c, byte, body, (complete_stale hg c).trans hf⟩
  · intro op hop hg
    exact hinv.live_of_op hop hg
  · intro g hg
    exact honce.valid _ hg rfl
  · intro g
    refine ⟨(honce.ended g).trans ?_, honce.armed g, honce.unavailable _⟩
    split <;> omega

theorem generations_isolated_second_connect :
    let w := ((World.ofOptions {}).connect {}).connect {}
    Reaches {} [.connect {}, .connect {}] w ∧
      (∃ op ∈ w.ops, op.generation ≠ w.impl.generation) ∧
      (∃ op ∈ w.ops, op.generation = w.impl.generation) ∧ w.count Record.isEnd 1 ≤ 1 := by
  have h : Reaches {} [.connect {}, .connect {}] (((World.ofOptions {}).connect {}).connect {}) :=
    .cons rfl (.cons rfl (.nil _))
  exact ⟨h, by decide +kernel, by decide +kernel, ((generations_isolated h).2.2.2 1).1⟩

end World

end AndroidTvRemote
