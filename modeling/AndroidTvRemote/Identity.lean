import AndroidTvRemote.Reactions

namespace AndroidTvRemote.World

open Wire Protocol SteadyTimer Runs

/-- A stream was made from a context whose identity had been loaded. -/
def FromLoaded (earlier : List (ℕ × Record)) (r : ℕ × Record) : Prop :=
  ∀ c, r.2 = .opened c → ∃ g, (g, Record.identity c true) ∈ earlier

theorem FromLoaded.append (pre l : List (ℕ × Record)) (r : ℕ × Record) (h : FromLoaded pre r) :
    FromLoaded (pre ++ l) r := by
  intro c hr
  obtain ⟨g, hg⟩ := h c hr
  exact ⟨g, List.mem_append_left l hg⟩

def Retries (w : World) : Prop :=
  ∀ a : IdentityAttempt, a.contextError = none →
    ∃ l, (w.connect a).trace = w.trace ++ l ∧ ∃ g c b, (g, Record.identity c b) ∈ l

def Loads (w : World) (e : Event) : Prop :=
  ∀ a, e.attempt w = some a → w.impl.sslContext = none → a.contextError = none →
    loadClientIdentity w.impl.options.certificateFile w.impl.options.privateKeyFile a = .ok ()

/-- The cached context has its identity, and so had those of all streams. -/
structure Identified (w : World) : Prop where
  cached : ∀ c, w.impl.sslContext = some c → ∃ g, (g, Record.identity c true) ∈ w.trace
  justified : Justified FromLoaded w.trace

theorem Identified.keeps {w w' : World} (h : w.Identified) {l : List (ℕ × Record)}
    (hc : w'.impl.sslContext = w.impl.sslContext) (ht : w'.trace = w.trace ++ l)
    (hl : ∀ r ∈ l, ∀ c, r.2 ≠ .opened c) : w'.Identified := by
  refine ⟨?_, ?_⟩
  · intro c hs
    obtain ⟨g, hg⟩ := h.cached c (hc ▸ hs)
    exact ⟨g, ht ▸ List.mem_append_left l hg⟩
  · rw [ht]
    exact h.justified.append FromLoaded.append fun r hr c hr' ↦ absurd hr' (hl r hr c)

theorem Identified.stays {w w' : World} (h : w.Identified) (hs : Stays w w') :
    w'.Identified := by
  obtain ⟨l, ht, hl⟩ := hs.trace
  apply h.keeps hs.context ht
  intro r hr c hr'
  obtain ⟨r', hmem, rfl⟩ := List.mem_map.mp hr
  obtain rfl : r' = .opened c := hr'
  cases hl _ hmem

theorem Identified.move {w w' : World} (hw : w.Sound) (h : w.Identified) (hm : Move w w') :
    w'.Identified := by
  obtain hs | he := hm.stays_or_ends hw
  · exact h.stays hs
  · obtain ⟨state, delay, t, l, -, hl⟩ := he
    refine h.keeps rfl rfl ?_
    intro r hr c hr'
    cases (congrArg Record.isClosing hr').symm.trans (hl r hr).2

theorem Identified.opened {w w' : World} (h : w.Identified) {c g : ℕ} {state : ConnectionState}
    (hc : w'.impl.sslContext = w.impl.sslContext) (hs : w.impl.sslContext = some c)
    (ht : w'.trace = w.trace ++ [(g, .callback (.connectionState state)), (g, .opened c)]) :
    w'.Identified := by
  obtain ⟨g', hg'⟩ := h.cached c hs
  refine ⟨?_, ?_⟩
  · intro c' hs'
    obtain rfl : c = c' := Option.some.inj (hs.symm.trans (hc.symm.trans hs'))
    exact ⟨g', ht ▸ List.mem_append_left _ hg'⟩
  · rw [ht]
    apply h.justified.append FromLoaded.append
    intro r hr c' hr'
    rcases List.mem_cons.mp hr with rfl | hr
    · cases hr'
    · obtain rfl := List.mem_singleton.mp hr
      obtain rfl := Record.opened.inj hr'
      exact ⟨g', hg'⟩

theorem Identified.beginConnect {w : World} (h : w.Identified) (ha : w.impl.shuttingDown = false)
    (hu : w.impl.userDisconnect = false) (reconnecting : Bool) (a : IdentityAttempt)
    (hload : w.impl.sslContext = none → a.contextError = none →
      loadClientIdentity w.impl.options.certificateFile w.impl.options.privateKeyFile a = .ok ()) :
    (w.beginConnect reconnecting a).Identified := by
  cases hc : w.impl.sslContext with
  | some c =>
    rw [beginConnect_ok reconnecting ha hu (ensureSslContext_cached hc) hc]
    exact h.opened rfl hc rfl
  | none =>
    cases hx : a.contextError with
    | some error =>
      rw [beginConnect_error reconnecting ha hu (ensureSslContext_no_context hc hx)]
      exact h.keeps rfl rfl (by simp)
    | none =>
      rw [beginConnect_ok reconnecting ha hu (ensureSslContext_loaded hc hx (hload hc hx)) rfl]
      have hid : { w with
          impl.sslContext := some w.contexts
          trace := w.trace ++ [(w.impl.generation + 1, Record.identity w.contexts true)] }.Identified := by
        refine ⟨fun c hs ↦ ⟨w.impl.generation + 1, ?_⟩, ?_⟩
        · obtain rfl := Option.some.inj hs
          simp
        · apply h.justified.append FromLoaded.append
          intro r hr c hr'
          obtain rfl := List.mem_singleton.mp hr
          cases hr'
      exact hid.opened rfl rfl rfl

theorem Identified.does {w w' : World} {e : Event} (hw : w.Sound) (h : w.Identified)
    (hload : Loads w e) (hd : Does w e w') : w'.Identified := by
  cases hd with
  | moves hm => exact hm.invariant (fun _ _ ↦ Identified.move) hw h
  | send _ hs => exact h.stays (stays_queueMessage hw hs _)
  | @attempt _ a ha reconnecting delay t =>
    have hset : (w.wanting delay t).Identified := ⟨h.cached, h.justified⟩
    exact hset.beginConnect hw.alive rfl reconnecting a (hload a ha)
  | disconnect => exact h.keeps rfl (List.append_assoc _ _ _) (by simp)
  | disconnectAndWait => exact h.keeps rfl rfl (by simp)

theorem retries_of_none {w : World} (ha : w.impl.shuttingDown = false)
    (hc : w.impl.sslContext = none) : w.Retries := by
  intro a hx
  let v := w.wanting 100 w.reconnectTimer.cancel
  have hcon : w.connect a = v.beginConnect false a := rfl
  cases hl : loadClientIdentity w.impl.options.certificateFile
      w.impl.options.privateKeyFile a with
  | ok =>
    have he := beginConnect_ok (w := v) false ha rfl (ensureSslContext_loaded hc hx hl) rfl
    exact ⟨_, (congrArg World.trace (hcon.trans he)).trans (List.append_assoc _ _ _),
      _, _, _, List.mem_append_left _ (List.mem_singleton.mpr rfl)⟩
  | error error =>
    have he := beginConnect_error (w := v) false ha rfl (ensureSslContext_not_loaded hc hx hl)
    exact ⟨_, (congrArg World.trace (hcon.trans he)).trans (List.append_assoc _ _ _),
      _, _, _, List.mem_append_left _ (List.mem_singleton.mpr rfl)⟩

/-- A cached context is never loaded again, whether it has an identity or not. -/
theorem not_retries_of_some {w : World} (ha : w.impl.shuttingDown = false) {c : ℕ}
    (hc : w.impl.sslContext = some c) : ¬ w.Retries := by
  intro hr
  obtain ⟨l, ht, g, c', b, hmem⟩ := hr {} rfl
  let v := w.wanting 100 w.reconnectTimer.cancel
  have hcon : w.connect {} = v.beginConnect false {} := rfl
  have he := beginConnect_ok (w := v) (a := {}) false ha rfl (ensureSslContext_cached hc) hc
  have hl := List.append_cancel_left (ht.symm.trans (congrArg World.trace (hcon.trans he)))
  rw [hl] at hmem
  simp at hmem

theorem ensureSslContext_throws {w : World} {a : IdentityAttempt} {error : String}
    (h : (w.ensureSslContext a).2 = .error error) : w.impl.sslContext = none ∧
      (a.contextError = some error ∨ a.contextError = none ∧ loadClientIdentity
        w.impl.options.certificateFile w.impl.options.privateKeyFile a = .error error) := by
  cases hc : w.impl.sslContext with
  | some c =>
    rw [ensureSslContext_cached hc] at h
    cases h
  | none =>
    refine ⟨rfl, ?_⟩
    cases hx : a.contextError with
    | some error' =>
      rw [ensureSslContext_no_context hc hx] at h
      exact .inl (congrArg some (Except.error.inj h))
    | none =>
      refine .inr ⟨rfl, ?_⟩
      cases hl : loadClientIdentity w.impl.options.certificateFile
          w.impl.options.privateKeyFile a with
      | ok =>
        rw [ensureSslContext_loaded hc hx hl] at h
        cases h
      | error error' =>
        rw [ensureSslContext_not_loaded hc hx hl] at h
        exact h

/-- Every stream is made from a context with a loaded identity and every throw
of `ensureSslContext` is followed by another try, exactly when no call of
`loadClientIdentity` throws: the context it throws in stays cached. -/
theorem identity_loaded_iff {o : Options} {es : List Event} {w : World} (h : Reaches o es w) :
    (Justified FromLoaded w.trace ∧
      ∀ pre e post t t' a error, es = pre ++ e :: post → Reaches o pre t → t.step e = some t' →
        e.attempt t = some a → (t.ensureSslContext a).2 = .error error → t'.Retries) ↔
      Along World.step Loads (World.ofOptions o) es := by
  constructor
  · intro h'
    obtain ⟨-, hretry⟩ := h'
    refine h.along_or.resolve_right ?_
    intro h'
    obtain ⟨pre, e, post, t, t', hes, ht, he, -, hbad⟩ := h'
    simp only [Loads, not_forall] at hbad
    obtain ⟨a, ha, hc, hx, hl⟩ := hbad
    have halive := (inv_of_reaches ht).alive
    cases hres : loadClientIdentity t.impl.options.certificateFile
        t.impl.options.privateKeyFile a with
    | ok => exact hl hres
    | error error =>
      have hthrow := congrArg Prod.snd (ensureSslContext_not_loaded hc hx hres)
      obtain ⟨reconnecting, delay, tm, rfl⟩ := step_attempt ha he
      have hspec := beginConnect_error (w := t.wanting delay tm) reconnecting halive rfl
        (ensureSslContext_not_loaded hc hx hres)
      refine not_retries_of_some (c := t.contexts) ?_ ?_
        (hretry pre e post t _ a error hes ht he ha hthrow)
      · exact (inv_of_reaches (ht.trans (.one he))).alive
      · rw [hspec]
        rfl
  · intro hA
    have hinit : (World.ofOptions o).Identified :=
      ⟨fun c hs ↦ (by cases hs), justified_nil _⟩
    refine ⟨(invariant_along h hA hinit fun _ _ _ ↦ Identified.does).justified, ?_⟩
    intro pre e post t t' a error hes ht he ha hthrow
    obtain ⟨hc, hx | ⟨hx, hl⟩⟩ := ensureSslContext_throws hthrow
    · have halive := (inv_of_reaches ht).alive
      obtain ⟨reconnecting, delay, tm, rfl⟩ := step_attempt ha he
      have hspec := beginConnect_error (w := t.wanting delay tm) reconnecting halive rfl
        (ensureSslContext_no_context hc hx)
      refine retries_of_none (inv_of_reaches (ht.trans (.one he))).alive ?_
      rw [hspec]
      exact hc
    · cases hl.symm.trans (hA pre e post t hes ht a ha hc hx)

theorem identity_loaded_first_connect :
    let w := (World.ofOptions {}).connect {}
    Reaches {} [.connect {}] w ∧ w.impl.stream.isSome = true ∧ Justified FromLoaded w.trace := by
  intro w
  have h : Reaches {} [.connect {}] w := .cons rfl (.nil _)
  have hA : Along World.step Loads (World.ofOptions {}) [.connect {}] := by
    refine along_cons rfl ?_ (along_nil _ _)
    intro a ha _ _
    obtain rfl := Option.some.inj ha
    rfl
  exact ⟨h, by decide +kernel, ((identity_loaded_iff h).mpr hA).1⟩

/-- The certificate file is missing at the first `connect` and there at the
second. -/
theorem opened_without_identity :
    let w := ((World.ofOptions {}).connect { certPem := none }).connect {}
    Reaches {} [.connect { certPem := none }, .connect {}] w ∧
      ¬ Justified FromLoaded w.trace := by
  intro w
  refine ⟨.cons rfl (.cons rfl (.nil _)), ?_⟩
  intro hj
  have ht : w.trace = w.trace.dropLast ++ [(2, .opened 0)] := by decide +kernel
  obtain ⟨g, hg⟩ := hj _ _ _ ht 0 rfl
  have hnone : ∀ r ∈ w.trace.dropLast, r.2 ≠ .identity 0 true := by decide +kernel
  exact hnone _ hg rfl

end AndroidTvRemote.World
