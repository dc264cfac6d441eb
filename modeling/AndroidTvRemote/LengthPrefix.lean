import AndroidTvRemote.Receivers
import AndroidTvRemote.VarintForm

namespace AndroidTvRemote

open Base128 Wire Runs Framing SyncTlsConnection

/-- A receiver that goes on behind a length goes on with a body of as many
bytes as the length denotes, no more than the limit, and it reports a length
that denotes more. -/
structure Limited (p : Bytes) (reads : ℕ → Prop) (reports : Prop) : Prop where
  exact : ∀ n, reads n → denote p ≤ 4 * 1024 * 1024 ∧ n = denote p
  reported : 4 * 1024 * 1024 < denote p → reports

/-- The ten groups of a length may hold more than 64 bits, and what is left of
them passes for a short length. -/
def WrapsShort (p : Bytes) : Prop :=
  p.length ≤ 10 ∧ 2 ^ 64 ≤ denote p ∧ denote p % 2 ^ 64 ≤ 4 * 1024 * 1024

theorem limited_iff {p : Bytes} {reads : ℕ → Prop} {reports : Prop}
    (hlong : 4 * 1024 * 1024 < denote p % 2 ^ 64 → reports ∧ ∀ n, ¬ reads n)
    (hshort : denote p % 2 ^ 64 ≤ 4 * 1024 * 1024 →
      reads (denote p % 2 ^ 64) ∧ ∀ n, reads n → n = denote p % 2 ^ 64)
    (hlen : p.length ≤ 10) : Limited p reads reports ↔ ¬ WrapsShort p := by
  constructor
  · rintro ⟨hexact, -⟩ ⟨-, hwrap, hle⟩
    have h := (hexact _ (hshort hle).1).1
    omega
  · intro h
    by_cases hle : denote p % 2 ^ 64 ≤ 4 * 1024 * 1024
    · have hlt : denote p < 2 ^ 64 := by
        by_contra hge
        exact h ⟨hlen, Nat.le_of_not_lt hge, hle⟩
      rw [Nat.mod_eq_of_lt hlt] at hle hshort
      exact ⟨fun n hn ↦ ⟨hle, (hshort hle).2 n hn⟩, fun hgt ↦ by omega⟩
    · obtain ⟨hrep, hnone⟩ := hlong (Nat.lt_of_not_le hle)
      exact ⟨fun n hn ↦ absurd hn (hnone n), fun _ ↦ hrep⟩

theorem limited_of_reports {p : Bytes} {reads : ℕ → Prop} {reports : Prop} (hrep : reports)
    (hnone : ∀ n, ¬ reads n) (hlen : ¬ p.length ≤ 10) :
    Limited p reads reports ↔ ¬ WrapsShort p :=
  iff_of_true ⟨fun n hn ↦ absurd hn (hnone n), fun _ ↦ hrep⟩ fun h ↦ hlen h.1

theorem Base128.Groups.continues_ten {p : List UInt8} (hp : Groups p) (hlen : ¬ p.length ≤ 10) :
    ∃ q u, p = q ++ u ∧ q.length = 10 ∧ ∀ b ∈ q, ¬ b.toNat < 128 := by
  obtain ⟨front, last, rfl, hfront, -⟩ := hp.split
  rw [List.length_append, List.length_singleton] at hlen
  refine ⟨front.take 10, front.drop 10 ++ [last], ?_, ?_, ?_⟩
  · rw [← List.append_assoc, List.take_append_drop]
  · rw [List.length_take]
    omega
  · intro b hb
    exact hfront b (List.mem_of_mem_take hb)

namespace SyncTlsConnection

def bodySize : Except Failure Bytes → Option ℕ
  | .ok body => some body.length
  | .error (.read (.payload size)) => some size
  | .error _ => none

def ReadsBody (bs : Bytes) (n : ℕ) : Prop := bodySize (receive bs).1 = some n

def Reports (bs : Bytes) : Prop := ∃ what, (receive bs).1 = .error (.runtimeError what)

theorem receivePayload_long {length : UInt64} (t : Bytes) (h : 4 * 1024 * 1024 < length.toNat) :
    receivePayload length t =
      (.error (.runtimeError "protobuf frame exceeds safety limit"), t) := by
  rw [receivePayload, if_pos h]

theorem bodySize_receivePayload {length : UInt64} (t : Bytes)
    (h : ¬ 4 * 1024 * 1024 < length.toNat) :
    bodySize (receivePayload length t).1 = some length.toNat := by
  rw [receivePayload, if_neg h]
  split
  next h0 => rw [h0]; rfl
  next => split
          next => rfl
          next ht => exact congrArg some (List.length_take_of_le (Nat.not_lt.mp ht))

theorem receive_overlong {q : Bytes} (t : Bytes) (hq : q.length = 10)
    (hcont : ∀ b ∈ q, ¬ b.toNat < 128) :
    receive (q ++ t) = (.error (.runtimeError "invalid protobuf frame length"), t) := by
  have hscan := scan_continues hcont 0 t
  rw [hq] at hscan
  rw [receive, receiveLength_scan, hscan]
  simp only [scan, Option.map_none, List.length_append]
  rw [if_neg (by omega), ← hq, List.drop_left]

theorem receive_limited {p : Bytes} (t : Bytes) (hp : Groups p) :
    Limited p (ReadsBody (p ++ t)) (Reports (p ++ t)) ↔ ¬ WrapsShort p := by
  by_cases hlen : p.length ≤ 10
  · have hsize : (UInt64.ofNat (denote p)).toNat = denote p % 2 ^ 64 := UInt64.toNat_ofNat'
    have hr : receive (p ++ t) = receivePayload (UInt64.ofNat (denote p)) t := by
      rw [receive, receiveLength_scan, scan_groups t hp hlen]
    refine limited_iff ?_ ?_ hlen
    · intro hgt
      rw [receivePayload_long t (by rwa [hsize])] at hr
      refine ⟨⟨_, by rw [hr]⟩, ?_⟩
      intro n hn
      rw [ReadsBody, hr] at hn
      cases hn
    · intro hle
      have hbody := bodySize_receivePayload t (show ¬ _ < (UInt64.ofNat (denote p)).toNat by omega)
      rw [← hr, hsize] at hbody
      refine ⟨hbody, ?_⟩
      intro n hn
      exact Option.some.inj (hn.symm.trans hbody)
  · obtain ⟨q, u, rfl, hq, hcont⟩ := hp.continues_ten hlen
    have hr := receive_overlong (u ++ t) hq hcont
    rw [← List.append_assoc] at hr
    refine limited_of_reports ⟨_, by rw [hr]⟩ ?_ hlen
    intro n hn
    rw [ReadsBody, hr] at hn
    cases hn

end SyncTlsConnection

namespace World

/-- The loop of a connection, having taken a length, waits for a body of `n`
bytes or has handled an empty one. -/
def ReadsBody (g : ℕ) (w w' : World) (n : ℕ) : Prop :=
  w'.impl.generation = g ∧ ((⟨g, .readBody n⟩ : Op) ∈ w'.ops ∨
    n = 0 ∧ w'.received g = w.received g ++ [[]])

def Reports (g : ℕ) (w : World) : Prop := w.StoppedFor g .overlong ∨ w.StoppedFor g .tooLong

variable {g : ℕ} {w : World}

theorem Reports.not_readsBody {w' : World} (h : Reports g w') (n : ℕ) : ¬ ReadsBody g w w' n := by
  intro h'
  obtain ⟨hg, -⟩ := h'
  rcases h with h | h
  · have hg' := h.1
    omega
  · have hg' := h.1
    omega

theorem Awaits.feed_overlong {seen q : Bytes} (hw : w.Inv) (ha : Awaits g (.length seen) w)
    (hq : ∀ b ∈ q, ¬ b.toNat < 128) (hlen : seen.length + q.length = 10) (t : Bytes) :
    ∃ w', World.feed^[q.length] (w, q ++ t) = (w', t) ∧ w'.Inv ∧ w'.impl.stream = none ∧
      w'.StoppedFor g .overlong := by
  induction q generalizing seen w with
  | nil =>
    have hvalid := ha.valid.2
    simp only [List.length_nil] at hlen
    omega
  | cons b q ih =>
    obtain ⟨hb, hq⟩ := List.forall_mem_cons.mp hq
    have hone : [b].length = (Phase.length seen).capacity := rfl
    have hnext := ha.next hw hone
    have hfeed := ha.feed hw hone (q ++ t)
    rw [List.length_cons, Function.iterate_succ_apply]
    by_cases hl : (seen ++ [b]).length < 10
    · have hadv : advance maxFrameSize (.length seen) [b] = .ok ([], .length (seen ++ [b])) := by
        simp only [advance, List.headD_cons, if_pos (Nat.not_lt.mp hb), if_pos hl]
      obtain ⟨w', hw'⟩ := ih hnext (ha.complete_ok hone hadv).1 hq (by simp at hlen ⊢; omega)
      exact ⟨w', (congrArg _ hfeed).trans hw'.1, hw'.2⟩
    · have hadv : advance maxFrameSize (.length seen) [b] = .error .overlong := by
        simp only [advance, List.headD_cons, if_pos (Nat.not_lt.mp hb), if_neg hl]
      have hgone := ha.complete_error hw hone hadv
      have hstop := hgone.stoppedFor (.inl rfl)
      rw [ha.generation] at hstop
      obtain rfl : q = [] := by
        apply List.length_eq_zero_iff.mp
        simp at hlen hl
        omega
      exact ⟨_, hfeed, hnext, hgone.stream, hstop⟩

theorem readsBody_of_takesLength {w' : World} {length : UInt64} (hw' : w'.Inv)
    (h : TakesLength g w length w') (hle : ¬ maxFrameSize < length.toNat) :
    ReadsBody g w w' length.toNat ∧ ∀ n, ReadsBody g w w' n → n = length.toNat := by
  rw [TakesLength, if_neg hle] at h
  split at h
  next h0 =>
    obtain ⟨hb, rfl, hrec⟩ := h
    rw [h0]
    refine ⟨⟨rfl, .inr ⟨rfl, hrec⟩⟩, ?_⟩
    rintro n ⟨-, hop | ⟨rfl, -⟩⟩
    · have hkind := hb.awaits.unique hw' hop rfl
      cases hkind
    · rfl
  next h0 =>
    obtain ⟨hg, hop, hrec⟩ := h
    have hpos : 0 < length.toNat := by
      rw [Nat.pos_iff_ne_zero]
      intro hz
      exact h0 (UInt64.toNat_inj.mp hz)
    have hbody : Awaits g (.body length.toNat) w' :=
      ⟨hg, hw'.live_of_op hop hg.symm, hop, ⟨hpos, by omega⟩, fun _ h ↦ by cases h⟩
    refine ⟨⟨hg, .inl hop⟩, ?_⟩
    rintro n ⟨-, hop' | ⟨-, hrec'⟩⟩
    · have hkind := hbody.unique hw' hop' rfl
      cases hkind
      rfl
    · rw [hrec] at hrec'
      simp at hrec'

theorem loop_limited (hw : w.Inv) (hb : w.AtBoundary) {p : Bytes} (t : Bytes) (hp : Groups p) :
    Limited p (ReadsBody w.impl.generation w (feed^[p.length] (w, p ++ t)).1)
      (Reports w.impl.generation (feed^[p.length] (w, p ++ t)).1) ↔ ¬ WrapsShort p := by
  by_cases hlen : p.length ≤ 10
  · have hsize : (UInt64.ofNat (denote p)).toNat = denote p % 2 ^ 64 := UInt64.toNat_ofNat'
    have htakes := (hb.awaits.takesLength hw hp hlen t).2
    have hinv := feed_inv (n := p.length) hw (p ++ t)
    refine limited_iff ?_ ?_ hlen
    · intro hgt
      rw [TakesLength, hsize, if_pos (show maxFrameSize < _ from hgt)] at htakes
      exact ⟨.inr htakes.1, Reports.not_readsBody (.inr htakes.1)⟩
    · intro hle
      have hreads := readsBody_of_takesLength hinv htakes (by rw [hsize]; exact Nat.not_lt.mpr hle)
      rwa [hsize] at hreads
  · obtain ⟨q, u, rfl, hq, hcont⟩ := hp.continues_ten hlen
    obtain ⟨w', hfeed, hw', hs, hstop⟩ := hb.awaits.feed_overlong hw hcont (by simpa using hq) (u ++ t)
    have hall : feed^[(q ++ u).length] (w, q ++ u ++ t) = (w', u ++ t) := by
      rw [List.length_append, Nat.add_comm, Function.iterate_add_apply, List.append_assoc, hfeed]
      exact Function.iterate_fixed (feed_closed hw' hs _) _
    rw [hall]
    exact limited_of_reports (.inl hstop) (Reports.not_readsBody (.inl hstop)) hlen

/-- Both receivers keep the limit on a stream exactly if it does not start
with a length whose groups wrap to a short one. -/
theorem length_limit_kept_iff {o : Options} {es : List Event} {w : World} (h : Reaches o es w)
    (hb : w.AtBoundary) (bs : Bytes) :
    ((∀ p t, bs = p ++ t → Groups p →
        Limited p (SyncTlsConnection.ReadsBody bs) (SyncTlsConnection.Reports bs)) ↔
      ∀ p t, bs = p ++ t → Groups p → ¬ WrapsShort p) ∧
    ((∀ p t, bs = p ++ t → Groups p →
        Limited p (ReadsBody w.impl.generation w (feed^[p.length] (w, bs)).1)
          (Reports w.impl.generation (feed^[p.length] (w, bs)).1)) ↔
      ∀ p t, bs = p ++ t → Groups p → ¬ WrapsShort p) := by
  have hw := inv_of_reaches h
  constructor
  · apply forall₂_congr
    rintro p t
    apply forall₂_congr
    rintro rfl hp
    exact receive_limited t hp
  · apply forall₂_congr
    rintro p t
    apply forall₂_congr
    rintro rfl hp
    exact loop_limited hw hb t hp

theorem length_limit_kept_iff_greeted :
    let w := greetedWorld
    Reaches {} (.connect {} :: Event.handshakes 1) w ∧ w.AtBoundary ∧
      ∀ p t, [2, 7, 9] = p ++ t → Groups p →
        Limited p (ReadsBody w.impl.generation w (feed^[p.length] (w, [2, 7, 9])).1)
          (Reports w.impl.generation (feed^[p.length] (w, [2, 7, 9])).1) := by
  refine ⟨greeted_reaches, greeted_atBoundary, ?_⟩
  apply (length_limit_kept_iff greeted_reaches greeted_atBoundary [2, 7, 9]).2.mpr
  rintro p t hpt - ⟨-, hwrap, -⟩
  have hlen := congrArg List.length hpt
  rw [List.length_append] at hlen
  have hle : 128 ^ p.length ≤ 128 ^ 3 := Nat.pow_le_pow_right (by decide) (by simp at hlen; omega)
  have hlt := denote_lt p
  omega

def wrappingLength : Bytes := List.replicate 9 0x80 ++ [0x02]

/-- Both receivers take it for an empty frame. -/
theorem wrapped_length_accepted :
    Groups wrappingLength ∧ denote wrappingLength = 2 ^ 64 ∧
    SyncTlsConnection.ReadsBody wrappingLength 0 ∧
    ¬ Limited wrappingLength (SyncTlsConnection.ReadsBody wrappingLength)
      (SyncTlsConnection.Reports wrappingLength) ∧
    let w := greetedWorld
    let w' := (feed^[wrappingLength.length] (w, wrappingLength)).1
    ReadsBody w.impl.generation w w' 0 ∧
    ¬ Limited wrappingLength (ReadsBody w.impl.generation w w') (Reports w.impl.generation w') := by
  have hgroups : Groups wrappingLength :=
    groups_append (by decide +kernel) (.last (by decide))
  have hdenote : denote wrappingLength = 2 ^ 64 := by decide +kernel
  have hsync : SyncTlsConnection.ReadsBody wrappingLength 0 := by
    rw [SyncTlsConnection.ReadsBody]
    decide +kernel
  have hloop : ReadsBody greetedWorld.impl.generation
      greetedWorld
      (feed^[wrappingLength.length] (greetedWorld, wrappingLength)).1 0 :=
    ⟨by decide +kernel, .inr ⟨rfl, by decide +kernel⟩⟩
  refine ⟨hgroups, hdenote, hsync, ?_, hloop, ?_⟩
  · intro h'
    obtain ⟨hexact, -⟩ := h'
    have h := (hexact 0 hsync).1
    omega
  · intro h'
    obtain ⟨hexact, -⟩ := h'
    have h := (hexact 0 hloop).1
    omega

end World

end AndroidTvRemote
