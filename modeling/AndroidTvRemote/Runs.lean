import Mathlib.Data.List.Induction

namespace AndroidTvRemote.Runs

variable {σ ε : Type} {step : σ → ε → Option σ}

/-- The finite runs of a partial step function: every event of the list was
enabled in the state it met. -/
inductive Run (step : σ → ε → Option σ) : σ → List ε → σ → Prop
  | nil (s : σ) : Run step s [] s
  | cons {s t u : σ} {e : ε} {es : List ε} :
      step s e = some t → Run step t es u → Run step s (e :: es) u

def exec (step : σ → ε → Option σ) : σ → List ε → Option σ
  | s, [] => some s
  | s, e :: es => (step s e).bind fun t ↦ exec step t es

theorem exec_run {s u : σ} {es : List ε} (h : exec step s es = some u) : Run step s es u := by
  induction es generalizing s with
  | nil => obtain rfl := Option.some.inj h; exact .nil _
  | cons e es ih =>
    obtain ⟨t, ht, hu⟩ := Option.bind_eq_some_iff.mp h
    exact .cons ht (ih hu)

theorem run_of_isSome {s : σ} {es : List ε} (h : (exec step s es).isSome = true) :
    Run step s es ((exec step s es).get h) := exec_run (Option.some_get h).symm

theorem Run.exec_eq {s u : σ} {es : List ε} (h : Run step s es u) : exec step s es = some u := by
  induction h with
  | nil => rfl
  | cons hs _ ih => simp only [exec, hs, Option.bind_some, ih]

theorem Run.one {s t : σ} {e : ε} (h : step s e = some t) : Run step s [e] t := .cons h (.nil t)

theorem Run.trans {s t u : σ} {es es' : List ε} (h : Run step s es t) (h' : Run step t es' u) :
    Run step s (es ++ es') u := by
  induction h with
  | nil => exact h'
  | cons hs _ ih => exact .cons hs (ih h')

theorem Run.split {s u : σ} {es es' : List ε} (h : Run step s (es ++ es') u) :
    ∃ t, Run step s es t ∧ Run step t es' u := by
  induction es generalizing s with
  | nil => exact ⟨s, .nil s, h⟩
  | cons e es ih =>
    cases h with
    | cons hs ht =>
      obtain ⟨t, h₁, h₂⟩ := ih ht
      exact ⟨t, .cons hs h₁, h₂⟩

theorem Run.split_at {s u : σ} {es es' : List ε} {e : ε} (h : Run step s (es ++ e :: es') u) :
    ∃ t t', Run step s es t ∧ step t e = some t' ∧ Run step t' es' u := by
  obtain ⟨t, h₁, h₂⟩ := h.split
  cases h₂ with
  | cons hs h₂ => exact ⟨t, _, h₁, hs, h₂⟩

theorem Run.unique {s t u : σ} {es : List ε} (h : Run step s es t) (h' : Run step s es u) :
    t = u := by
  have := h.exec_eq.symm.trans h'.exec_eq
  exact Option.some.inj this

theorem Run.invariant {I : σ → Prop} (hstep : ∀ s e t, I s → step s e = some t → I t)
    {s u : σ} {es : List ε} (h : Run step s es u) (hs : I s) : I u := by
  induction h with
  | nil => exact hs
  | cons he _ ih => exact ih (hstep _ _ _ hs he)

/-- What holds of the start, and goes on holding with every further step, holds
of the events and the end of every run. -/
theorem Run.history {H : List ε → σ → Prop} {s u : σ} {es : List ε} (h : Run step s es u)
    (hinit : H [] s)
    (hstep : ∀ es t e u, Run step s es t → H es t → step t e = some u → H (es ++ [e]) u) :
    H es u := by
  induction es using List.reverseRecOn generalizing u with
  | nil =>
    cases h
    exact hinit
  | append_singleton es e ih =>
    obtain ⟨t, ht, hlast⟩ := h.split
    cases hlast with
    | cons he hnil =>
      cases hnil
      exact hstep es t e u ht (ih ht) he

/-- Every step taken along the events `es` from `s` meets `C`, a condition on
the state before the step and on its event. -/
def Along (step : σ → ε → Option σ) (C : σ → ε → Prop) (s : σ) (es : List ε) : Prop :=
  ∀ pre e post t, es = pre ++ e :: post → Run step s pre t → C t e

theorem Along.head {C : σ → ε → Prop} {s : σ} {e : ε} {es : List ε}
    (h : Along step C s (e :: es)) : C s e := h [] e es s rfl (.nil s)

theorem Along.tail {C : σ → ε → Prop} {s t : σ} {e : ε} {es : List ε}
    (h : Along step C s (e :: es)) (hs : step s e = some t) : Along step C t es := by
  intro pre e' post u he hu
  exact h (e :: pre) e' post u (by rw [he, List.cons_append]) (.cons hs hu)

theorem Along.of_append {C : σ → ε → Prop} {s : σ} {es es' : List ε}
    (h : Along step C s (es ++ es')) : Along step C s es := by
  intro pre e post t he ht
  exact h pre e (post ++ es') t (by rw [he, List.append_assoc, List.cons_append]) ht

theorem along_nil (C : σ → ε → Prop) (s : σ) : Along step C s [] := by
  intro pre e post t he
  simp at he

theorem along_cons_iff {C : σ → ε → Prop} {s : σ} {e : ε} {es : List ε} :
    Along step C s (e :: es) ↔ C s e ∧ ∀ t ∈ step s e, Along step C t es := by
  refine ⟨fun h ↦ ⟨h.head, fun t ht ↦ h.tail ht⟩, ?_⟩
  rintro ⟨hC, h⟩ pre e' post u he hu
  cases hu with
  | nil =>
    obtain ⟨rfl, rfl⟩ := List.cons.inj he
    exact hC
  | cons hs hu =>
    obtain ⟨rfl, he'⟩ := List.cons.inj he
    exact h _ hs _ e' post u he' hu

theorem along_cons {C : σ → ε → Prop} {s t : σ} {e : ε} {es : List ε} (hs : step s e = some t)
    (hC : C s e) (h : Along step C t es) : Along step C s (e :: es) := by
  refine along_cons_iff.mpr ⟨hC, ?_⟩
  intro u hu
  obtain rfl := Option.some.inj (hs.symm.trans hu)
  exact h

instance decidableAlong {C : σ → ε → Prop} [∀ s e, Decidable (C s e)] :
    ∀ (s : σ) (es : List ε), Decidable (Along step C s es)
  | s, [] => isTrue (along_nil C s)
  | _, _ :: es =>
    have : ∀ t, Decidable (Along step C t es) := fun t ↦ decidableAlong t es
    decidable_of_iff _ along_cons_iff.symm

theorem Run.invariant_along {I : σ → Prop} {C : σ → ε → Prop}
    (hstep : ∀ s e t, I s → C s e → step s e = some t → I t)
    {s u : σ} {es : List ε} (h : Run step s es u) (hC : Along step C s es) (hs : I s) : I u := by
  induction h with
  | nil => exact hs
  | cons he _ ih => exact ih (hC.tail he) (hstep _ _ _ hs hC.head he)

/-- A run either meets a condition at all of its steps or has a first part
after which one step breaks it. -/
theorem Run.along_or {C : σ → ε → Prop} {s u : σ} {es : List ε} (h : Run step s es u) :
    Along step C s es ∨ ∃ pre e post t t', es = pre ++ e :: post ∧ Run step s pre t ∧
      step t e = some t' ∧ Run step t' post u ∧ ¬ C t e := by
  by_contra! hn
  obtain ⟨hA, hn⟩ := hn
  apply hA
  intro pre e post t he ht
  rw [he] at h
  obtain ⟨t₁, t', h₁, h₂, h₃⟩ := h.split_at
  obtain rfl := ht.unique h₁
  exact hn pre e post t t' he ht h₂ h₃

section Simulation

variable {τ δ : Type} {step' : τ → δ → Option τ} {view : σ → τ} {act : ε → Option δ}
  {I : σ → Prop} {C : σ → ε → Prop}

/-- If every step shows as the act its event stands for, or does not show at
all, a run shows as a run of its acts. -/
theorem Run.shown
    (hstep : ∀ s e t, I s → C s e → step s e = some t →
      I t ∧ Run step' (view s) (act e).toList (view t))
    {s u : σ} {es : List ε} (h : Run step s es u) (hC : Along step C s es) (hs : I s) :
    Run step' (view s) (es.filterMap act) (view u) := by
  induction h with
  | nil s => exact .nil _
  | @cons s t u e es he _ ih =>
    obtain ⟨ht, hshow⟩ := hstep s e t hs hC.head he
    have hacts : (e :: es).filterMap act = (act e).toList ++ es.filterMap act := by
      cases ha : act e <;> simp [ha]
    rw [hacts]
    exact hshow.trans (ih (hC.tail he) ht)

/-- If moreover the acts of a kind are steps whenever they are shown possible,
a run of such acts is shown by a run. -/
theorem Run.taken {D : δ → Prop}
    (hstep : ∀ s e t, I s → C s e → step s e = some t →
      I t ∧ Run step' (view s) (act e).toList (view t))
    (hact : ∀ s d t', I s → D d → step' (view s) d = some t' →
      ∃ e t, act e = some d ∧ C s e ∧ step s e = some t)
    {s' u' : τ} {ds : List δ} (h : Run step' s' ds u') (hD : ∀ d ∈ ds, D d) {s : σ}
    (hs : I s) (hv : view s = s') :
    ∃ es u, Run step s es u ∧ Along step C s es ∧ es.filterMap act = ds ∧ view u = u' := by
  induction h generalizing s with
  | nil => exact ⟨[], s, .nil s, along_nil C s, rfl, hv⟩
  | @cons s' t' u' d ds hd _ ih =>
    subst hv
    obtain ⟨hd₀, hds⟩ := List.forall_mem_cons.mp hD
    obtain ⟨e, t, ha, hc, he⟩ := hact s d t' hs hd₀ hd
    obtain ⟨ht, hshow⟩ := hstep s e t hs hc he
    rw [ha] at hshow
    obtain ⟨es, u, hr, hA, hes, hu⟩ := ih hds ht (hshow.unique (.one hd))
    exact ⟨e :: es, u, .cons he hr, along_cons he hc hA, by simp [ha, hes], hu⟩

section Acts

variable {τ δ : Type} {step' : τ → δ → Option τ} {view : σ → τ} {act : σ → ε → Option δ}

/-- The acts that events stand for, each in the state it meets. -/
def acts (step : σ → ε → Option σ) (act : σ → ε → Option δ) : σ → List ε → List δ
  | _, [] => []
  | s, e :: es => (act s e).toList ++ ((step s e).map fun t ↦ acts step act t es).getD []

theorem acts_cons {s t : σ} {e : ε} (h : step s e = some t) (es : List ε) :
    acts step act s (e :: es) = (act s e).toList ++ acts step act t es := by
  simp [acts, h]

theorem Run.acts_append {s t : σ} {es : List ε} (h : Run step s es t) (es' : List ε) :
    acts step act s (es ++ es') = acts step act s es ++ acts step act t es' := by
  induction h with
  | nil => rfl
  | cons hs _ ih => rw [List.cons_append, acts_cons hs, acts_cons hs, ih, List.append_assoc]

theorem acts_filterMap {κ : Type} (f : δ → Option κ) (s : σ) (es : List ε) :
    (acts step act s es).filterMap f = acts step (fun s e ↦ (act s e).bind f) s es := by
  induction es generalizing s with
  | nil => rfl
  | cons e es ih =>
    have hone : (act s e).toList.filterMap f = ((act s e).bind f).toList := by
      cases act s e with
      | none => rfl
      | some d => cases hd : f d <;> simp [hd]
    rw [acts, acts, List.filterMap_append, hone]
    cases step s e with
    | none => rfl
    | some t => exact congrArg (_ ++ ·) (ih t)

theorem Run.acts_eq_filterMap {f : ε → Option δ} {s u : σ} {es : List ε} (h : Run step s es u) :
    acts step (fun _ e ↦ f e) s es = es.filterMap f := by
  induction h with
  | nil => rfl
  | @cons s t u e es he _ ih =>
    rw [acts_cons he, ih, List.filterMap_cons]
    cases f e <;> rfl

theorem not_mem_acts {C : σ → ε → Prop} {d : δ} (hd : ∀ s e, C s e → act s e ≠ some d) {s : σ}
    {es : List ε} (h : Along step C s es) : d ∉ acts step act s es := by
  induction es generalizing s with
  | nil => exact List.not_mem_nil
  | cons e es ih =>
    rw [acts, List.mem_append, not_or, Option.mem_toList]
    refine ⟨hd s e h.head, ?_⟩
    cases hs : step s e with
    | none => exact List.not_mem_nil
    | some t => exact ih (h.tail hs)

theorem Run.refines {I : σ → Prop} (hstep : ∀ s e t, I s → step s e = some t →
      I t ∧ Run step' (view s) (act s e).toList (view t))
    {s u : σ} {es : List ε} (h : Run step s es u) (hs : I s) :
    Run step' (view s) (acts step act s es) (view u) := by
  induction h with
  | nil s => exact .nil _
  | @cons s t u e es he _ ih =>
    obtain ⟨ht, hshow⟩ := hstep s e t hs he
    rw [acts_cons he]
    exact hshow.trans (ih ht)

end Acts

end Simulation

section History

variable {α : Type} {J : List α → α → Prop}

theorem grown_trans {p : α → Prop} {s t u : List α} (h : ∃ l, t = s ++ l ∧ ∀ x ∈ l, p x)
    (h' : ∃ l, u = t ++ l ∧ ∀ x ∈ l, p x) : ∃ l, u = s ++ l ∧ ∀ x ∈ l, p x := by
  obtain ⟨l, rfl, hl⟩ := h
  obtain ⟨l', rfl, hl'⟩ := h'
  exact ⟨l ++ l', List.append_assoc s l l', List.forall_mem_append.mpr ⟨hl, hl'⟩⟩

/-- Every entry of a history is justified by the entries before it. -/
def Justified (J : List α → α → Prop) (t : List α) : Prop :=
  ∀ pre x post, t = pre ++ x :: post → J pre x

theorem justified_nil (J : List α → α → Prop) : Justified J [] := by
  intro pre x post h
  simp at h

theorem Justified.append (hJ : ∀ pre l x, J pre x → J (pre ++ l) x) {t l : List α}
    (h : Justified J t) (hl : ∀ x ∈ l, J t x) : Justified J (t ++ l) := by
  intro pre x post he
  rcases List.append_eq_append_iff.mp he with ⟨a, rfl, rfl⟩ | ⟨c, rfl, hc⟩
  · exact hJ t a x (hl x (by simp))
  · cases c with
    | nil =>
      obtain rfl : x :: post = l := by simpa using hc
      simpa using hl x (by simp)
    | cons y c =>
      obtain ⟨rfl, -⟩ := List.cons.inj hc
      exact h pre x c rfl

theorem Justified.snoc {t : List α} (h : Justified J t) {x : α} (hx : J t x) :
    Justified J (t ++ [x]) := by
  intro pre y post he
  rcases List.append_eq_append_iff.mp he with ⟨a, rfl, ha⟩ | ⟨c, hc, hx'⟩
  · cases a with
    | nil =>
      obtain ⟨rfl, -⟩ := List.cons.inj ha
      simpa using hx
    | cons z a => simp at ha
  · cases c with
    | nil =>
      obtain ⟨rfl, -⟩ := List.cons.inj hx'
      obtain rfl : t = pre := by simpa using hc
      exact hx
    | cons z c =>
      obtain ⟨rfl, -⟩ := List.cons.inj hx'
      exact h pre _ c hc

def JustifiedFrom (J : List α → α → Prop) : List α → List α → Prop
  | _, [] => True
  | t, x :: l => J t x ∧ JustifiedFrom J (t ++ [x]) l

theorem Justified.append_from {t l : List α} (h : Justified J t) (hl : JustifiedFrom J t l) :
    Justified J (t ++ l) := by
  induction l generalizing t with
  | nil => rwa [List.append_nil]
  | cons x l ih =>
    rw [List.append_cons]
    exact ih (h.snoc hl.1) hl.2

theorem Justified.earlier {t t' : List α} (h : Justified J t') (hp : t <+: t') :
    Justified J t := by
  obtain ⟨l, rfl⟩ := hp
  intro pre x post he
  exact h pre x (post ++ l) (by rw [he, List.append_assoc, List.cons_append])

variable {β : Type}

def latest (f : α → Option β) (b : β) (t : List α) : β := (t.filterMap f).getLast?.getD b

theorem latest_append (f : α → Option β) (b : β) (t l : List α) :
    latest f b (t ++ l) = latest f (latest f b t) l := by
  rw [latest, latest, List.filterMap_append, List.getLast?_append]
  cases (l.filterMap f).getLast? <;> rfl

theorem latest_snoc (f : α → Option β) (b : β) (t : List α) (x : α) :
    latest f b (t ++ [x]) = (f x).getD (latest f b t) := by
  rw [latest_append]
  cases hx : f x <;> simp [latest, hx]

/-- A member that every entry either sets or leaves alone has the last value
it was set to. -/
theorem foldl_eq_latest {κ : Type} {hear : κ → α → κ} {get : κ → β} {f : α → Option β}
    (h : ∀ k x, get (hear k x) = (f x).getD (get k)) (k : κ) (t : List α) :
    get (t.foldl hear k) = latest f (get k) t := by
  induction t using List.reverseRecOn with
  | nil => rfl
  | append_singleton t x ih =>
    rw [List.foldl_append, List.foldl_cons, List.foldl_nil, h, ih, latest_snoc]

end History

end AndroidTvRemote.Runs
