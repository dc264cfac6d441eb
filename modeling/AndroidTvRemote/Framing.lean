import AndroidTvRemote.Base128

namespace AndroidTvRemote.Framing

open Base128

variable {limit : ℕ}

/-- Why a receiver cannot return another payload. -/
inductive Stop
  | needPrefix
  | needBody
  | overlong
  | tooLong
  deriving DecidableEq, Repr

/-- The first payload of a stream and what follows it, or why there is none
and what is left unread. -/
def cut (limit : ℕ) (bs : List UInt8) :
    Except (Stop × List UInt8) (List UInt8 × List UInt8) :=
  match scan 10 bs with
  | none => .error (if bs.length < 10 then (.needPrefix, []) else (.overlong, bs.drop 10))
  | some (p, t) =>
    let size := denote p % 2 ^ 64
    if limit < size then .error (.tooLong, t)
    else if t.length < size then .error (.needBody, t)
    else .ok (t.take size, t.drop size)

theorem cut_shrinks {bs p t : List UInt8} (h : cut limit bs = .ok (p, t)) :
    t.length < bs.length := by
  unfold cut at h
  split at h
  · cases h
  next q u hs =>
    obtain ⟨rfl, hq, -⟩ := scan_eq_some_iff.mp hs
    have hpos := List.length_pos_iff.mpr hq.ne_nil
    simp only at h
    split at h
    · cases h
    split at h
    · cases h
    obtain ⟨-, rfl⟩ := Prod.mk.inj (Except.ok.inj h)
    rw [List.length_drop, List.length_append]
    omega

structure Outcome where
  payloads : List (List UInt8)
  stop : Stop
  unread : List UInt8
  deriving DecidableEq, Repr

def Outcome.prepend (ps : List (List UInt8)) (o : Outcome) : Outcome :=
  { o with payloads := ps ++ o.payloads }

@[simp] theorem Outcome.prepend_nil (o : Outcome) : o.prepend [] = o := rfl

@[simp] theorem Outcome.prepend_prepend (ps qs : List (List UInt8)) (o : Outcome) :
    (o.prepend qs).prepend ps = o.prepend (ps ++ qs) := by
  simp [prepend, List.append_assoc]

def unframe (limit : ℕ) (bs : List UInt8) : Outcome :=
  match _h : cut limit bs with
  | .error (stop, unread) => ⟨[], stop, unread⟩
  | .ok (p, t) => (unframe limit t).prepend [p]
termination_by bs.length
decreasing_by exact cut_shrinks _h

theorem unframe_error {bs u : List UInt8} {s : Stop} (h : cut limit bs = .error (s, u)) :
    unframe limit bs = ⟨[], s, u⟩ := by
  rw [unframe]
  split
  next h' => cases h.symm.trans h'; rfl
  next h' => cases h.symm.trans h'

theorem unframe_ok {bs p t : List UInt8} (h : cut limit bs = .ok (p, t)) :
    unframe limit bs = (unframe limit t).prepend [p] := by
  rw [unframe]
  split
  next h' => cases h.symm.trans h'
  next h' => cases h.symm.trans h'; rfl

theorem cut_encode {p : List UInt8} (hp : p.length ≤ limit) (h64 : p.length < 2 ^ 64)
    (t : List UInt8) : cut limit (encode p.length ++ p ++ t) = .ok (p, t) := by
  have hscan := scan_encode (k := 10) (p ++ t) (encode_length_le 9 (n := p.length) (by omega))
  rw [List.append_assoc, cut, hscan]
  simp only [denote_encode, Nat.mod_eq_of_lt h64]
  rw [if_neg (by omega), if_neg (by rw [List.length_append]; omega), List.take_left,
    List.drop_left]

theorem cut_tooLong {p : List UInt8} (hp : limit < p.length) (h64 : p.length < 2 ^ 64)
    (t : List UInt8) : cut limit (encode p.length ++ p ++ t) = .error (.tooLong, p ++ t) := by
  have hscan := scan_encode (k := 10) (p ++ t) (encode_length_le 9 (n := p.length) (by omega))
  rw [List.append_assoc, cut, hscan]
  simp only [denote_encode, Nat.mod_eq_of_lt h64]
  rw [if_pos hp]

/-- Bytes that follow do not change the first payload. -/
theorem cut_append {bs p t : List UInt8} (h : cut limit bs = .ok (p, t)) (more : List UInt8) :
    cut limit (bs ++ more) = .ok (p, t ++ more) := by
  unfold cut at h
  split at h
  · cases h
  next q u hs =>
    obtain ⟨rfl, hq⟩ := scan_eq_some_iff.mp hs
    have hscan : scan 10 (q ++ u ++ more) = some (q, u ++ more) :=
      scan_eq_some_iff.mpr ⟨List.append_assoc q u more, hq⟩
    simp only at h
    split at h
    · cases h
    next hl =>
      split at h
      · cases h
      next hu =>
        obtain ⟨rfl, rfl⟩ := Prod.mk.inj (Except.ok.inj h)
        rw [cut, hscan]
        simp only [if_neg hl]
        rw [if_neg (by rw [List.length_append]; omega), List.take_append_of_le_length (by omega),
          List.drop_append_of_le_length (by omega)]

theorem payloads_append (bs more : List UInt8) :
    (unframe limit bs).payloads <+: (unframe limit (bs ++ more)).payloads := by
  induction bs using unframe.induct limit with
  | case1 bs stop unread h =>
    rw [unframe_error h]
    exact List.nil_prefix
  | case2 bs p t h ih =>
    rw [unframe_ok h, unframe_ok (cut_append h more)]
    exact (List.prefix_append_right_inj [p]).mpr ih

/-- What a receiver that is given its bytes in portions waits for. -/
inductive Phase
  | length (seen : List UInt8)
  | body (size : ℕ)
  deriving DecidableEq, Repr

namespace Phase

def Valid (limit : ℕ) : Phase → Prop
  | length seen => (∀ b ∈ seen, ¬ b.toNat < 128) ∧ seen.length < 10
  | body size => 0 < size ∧ size ≤ limit

def capacity : Phase → ℕ
  | length _ => 1
  | body size => size

def stop : Phase → Stop
  | length _ => .needPrefix
  | body _ => .needBody

end Phase

/-- What becomes of the rest of a stream in a phase. -/
def resume (limit : ℕ) : Phase → List UInt8 → Outcome
  | .length seen, bs => unframe limit (seen ++ bs)
  | .body size, bs =>
    if bs.length < size then ⟨[], .needBody, bs⟩
    else (unframe limit (bs.drop size)).prepend [bs.take size]

def advance (limit : ℕ) : Phase → List UInt8 → Except Stop (List (List UInt8) × Phase)
  | .length seen, portion =>
    let seen := seen ++ portion
    if 128 ≤ (portion.headD 0).toNat then
      if seen.length < 10 then .ok ([], .length seen) else .error .overlong
    else
      let size := denote seen % 2 ^ 64
      if limit < size then .error .tooLong
      else if size = 0 then .ok ([[]], .length [])
      else .ok ([], .body size)
  | .body _, portion => .ok ([portion], .length [])

variable (limit) in
theorem cut_last {seen : List UInt8} {b : UInt8} (hseen : ∀ b ∈ seen, ¬ b.toNat < 128)
    (hlen : seen.length < 10) (hb : b.toNat < 128) (t : List UInt8) :
    cut limit (seen ++ b :: t) =
      let size := denote (seen ++ [b]) % 2 ^ 64
      if limit < size then .error (.tooLong, t)
      else if t.length < size then .error (.needBody, t)
      else .ok (t.take size, t.drop size) := by
  have hscan := scan_groups (k := 10) t (groups_append hseen (.last hb))
    (by rw [List.length_append, List.length_singleton]; omega)
  rw [List.append_assoc, List.singleton_append] at hscan
  rw [cut, hscan]

theorem cut_continues {seen : List UInt8} (hseen : ∀ b ∈ seen, ¬ b.toNat < 128)
    (hlen : seen.length < 10) : cut limit seen = .error (.needPrefix, []) := by
  have hscan := scan_continues hseen (10 - seen.length) []
  have hnil : ∀ k, scan k [] = none := by
    intro k
    cases k <;> rfl
  rw [List.append_nil, hnil, Nat.add_sub_cancel' hlen.le] at hscan
  rw [cut, hscan]
  simp [hlen]

theorem cut_overlong {seen : List UInt8} (hseen : ∀ b ∈ seen, ¬ b.toNat < 128)
    (hlen : seen.length = 10) (t : List UInt8) :
    cut limit (seen ++ t) = .error (.overlong, t) := by
  have hscan := scan_continues hseen 0 t
  rw [hlen] at hscan
  rw [cut, hscan, ← hlen]
  simp [scan]

theorem continues_append {seen : List UInt8} (h : ∀ b ∈ seen, ¬ b.toNat < 128) {b : UInt8}
    (hb : ¬ b.toNat < 128) : ∀ c ∈ seen ++ [b], ¬ c.toNat < 128 := by
  intro c hc
  rcases List.mem_append.mp hc with hc | hc
  · exact h c hc
  · rw [List.mem_singleton.mp hc]
    exact hb

/-- All that a portion of the size asked for can do. -/
inductive Advances (limit : ℕ) : Phase → List UInt8 → Except Stop (List (List UInt8) × Phase) → Prop
  | more {seen : List UInt8} {b : UInt8} (hb : ¬ b.toNat < 128) (hl : (seen ++ [b]).length < 10) :
      Advances limit (.length seen) [b] (.ok ([], .length (seen ++ [b])))
  | overlong {seen : List UInt8} {b : UInt8} (hb : ¬ b.toNat < 128)
      (hl : (seen ++ [b]).length = 10) : Advances limit (.length seen) [b] (.error .overlong)
  | tooLong {seen : List UInt8} {b : UInt8} (hb : b.toNat < 128)
      (hl : limit < denote (seen ++ [b]) % 2 ^ 64) :
      Advances limit (.length seen) [b] (.error .tooLong)
  | empty {seen : List UInt8} {b : UInt8} (hb : b.toNat < 128)
      (h0 : denote (seen ++ [b]) % 2 ^ 64 = 0) :
      Advances limit (.length seen) [b] (.ok ([[]], .length []))
  | size {seen : List UInt8} {b : UInt8} (hb : b.toNat < 128)
      (hl : denote (seen ++ [b]) % 2 ^ 64 ≤ limit) (h0 : 0 < denote (seen ++ [b]) % 2 ^ 64) :
      Advances limit (.length seen) [b] (.ok ([], .body (denote (seen ++ [b]) % 2 ^ 64)))
  | body {portion : List UInt8} :
      Advances limit (.body portion.length) portion (.ok ([portion], .length []))

theorem advances {ph : Phase} (hv : ph.Valid limit) {portion : List UInt8}
    (hp : portion.length = ph.capacity) :
    Advances limit ph portion (advance limit ph portion) := by
  cases ph with
  | body size =>
    obtain rfl : portion.length = size := hp
    exact .body
  | length seen =>
    have hlen := hv.2
    obtain ⟨b, rfl⟩ := List.length_eq_one_iff.mp hp
    by_cases hb : 128 ≤ b.toNat
    · by_cases hl : (seen ++ [b]).length < 10
      · simp only [advance, List.headD_cons, if_pos hb, if_pos hl]
        exact .more (by omega) hl
      · simp only [advance, List.headD_cons, if_pos hb, if_neg hl]
        rw [List.length_append, List.length_singleton] at hl
        exact .overlong (by omega) (by rw [List.length_append, List.length_singleton]; omega)
    · by_cases hl : limit < denote (seen ++ [b]) % 2 ^ 64
      · simp only [advance, List.headD_cons, if_neg hb, if_pos hl]
        exact .tooLong (by omega) hl
      · by_cases h0 : denote (seen ++ [b]) % 2 ^ 64 = 0
        · simp only [advance, List.headD_cons, if_neg hb, if_neg hl, if_pos h0]
          exact .empty (by omega) h0
        · simp only [advance, List.headD_cons, if_neg hb, if_neg hl, if_neg h0]
          exact .size (by omega) (by omega) (by omega)

section Advance

variable {ph : Phase} (hv : ph.Valid limit) {portion : List UInt8}
  (hp : portion.length = ph.capacity)

include hv hp

theorem resume_ok {ph' : Phase} {ps : List (List UInt8)}
    (h : advance limit ph portion = .ok (ps, ph')) (more : List UInt8) :
    resume limit ph (portion ++ more) = (resume limit ph' more).prepend ps := by
  have hadv := advances hv hp
  rw [h] at hadv
  cases hadv with
  | more hb hl => simp only [resume, Outcome.prepend_nil, List.append_assoc]
  | empty hb h0 =>
    have hcut := cut_last limit hv.1 hv.2 hb more
    simp only [h0, Nat.not_lt_zero, if_false] at hcut
    exact unframe_ok hcut
  | size hb hl h0 =>
    have hcut := cut_last limit hv.1 hv.2 hb more
    simp only [if_neg (Nat.not_lt.mpr hl)] at hcut
    simp only [resume, Outcome.prepend_nil]
    split
    next hm => rw [if_pos hm] at hcut; exact unframe_error hcut
    next hm => rw [if_neg hm] at hcut; exact unframe_ok hcut
  | body =>
    simp only [resume, List.nil_append]
    rw [if_neg (by rw [List.length_append]; omega), List.take_left, List.drop_left]

theorem resume_error {s : Stop} (h : advance limit ph portion = .error s) (more : List UInt8) :
    resume limit ph (portion ++ more) = ⟨[], s, more⟩ := by
  have hadv := advances hv hp
  rw [h] at hadv
  cases hadv with
  | overlong hb hl =>
    rw [resume, ← List.append_assoc]
    exact unframe_error (cut_overlong (continues_append hv.1 hb) hl more)
  | tooLong hb hl =>
    have hcut := cut_last limit hv.1 hv.2 hb more
    simp only [if_pos hl] at hcut
    exact unframe_error hcut

theorem advance_valid {ph' : Phase} {ps : List (List UInt8)}
    (h : advance limit ph portion = .ok (ps, ph')) : ph'.Valid limit := by
  have hadv := advances hv hp
  rw [h] at hadv
  cases hadv with
  | more hb hl => exact ⟨continues_append hv.1 hb, hl⟩
  | size hb hl h0 => exact ⟨h0, hl⟩
  | empty | body => exact ⟨by simp, by simp⟩

theorem advance_error {s : Stop} (h : advance limit ph portion = .error s) :
    s = .overlong ∨ s = .tooLong := by
  have hadv := advances hv hp
  rw [h] at hadv
  cases hadv with
  | overlong => exact .inl rfl
  | tooLong => exact .inr rfl

end Advance

theorem Phase.Valid.capacity_pos {ph : Phase} (hv : ph.Valid limit) : 0 < ph.capacity := by
  cases ph with
  | length => exact Nat.one_pos
  | body => exact hv.1

theorem resume_short {ph : Phase} (hv : ph.Valid limit) {bs : List UInt8}
    (h : bs.length < ph.capacity) : resume limit ph bs = ⟨[], ph.stop, bs⟩ := by
  cases ph with
  | body size => exact if_pos h
  | length seen =>
    obtain rfl : bs = [] := List.length_eq_zero_iff.mp (Nat.lt_one_iff.mp h)
    obtain ⟨hseen, hlen⟩ := hv
    rw [resume, List.append_nil, unframe_error (cut_continues hseen hlen)]
    rfl

theorem resume_nil {ph : Phase} (hv : ph.Valid limit) :
    resume limit ph [] = ⟨[], ph.stop, []⟩ := resume_short hv hv.capacity_pos

theorem resume_boundary (bs : List UInt8) :
    resume limit (.length []) bs = unframe limit bs := rfl

/-- The phase between two frames is known by what becomes of the streams that
follow. -/
theorem boundary_of_resume {ph : Phase} (hv : ph.Valid limit) (hl : 1 ≤ limit)
    {ps ps' : List (List UInt8)}
    (h : ∀ more, (resume limit ph more).prepend ps' = (unframe limit more).prepend ps) :
    ph = .length [] ∧ ps' = ps := by
  have hnew : (Phase.length []).Valid limit := ⟨by simp, by simp⟩
  have hnil : resume limit (.length []) [] = ⟨[], .needPrefix, []⟩ :=
    resume_short hnew Nat.one_pos
  have hshort : resume limit ph [] = ⟨[], ph.stop, []⟩ := resume_short hv hv.capacity_pos
  have hend := h []
  rw [← resume_boundary, hnil, hshort] at hend
  have hps : ps' = ps := by
    have := congrArg Outcome.payloads hend
    simpa [Outcome.prepend] using this
  refine ⟨?_, hps⟩
  cases ph with
  | body size => cases congrArg Outcome.stop hend
  | length seen =>
    cases seen with
    | nil => rfl
    | cons b seen =>
      exfalso
      -- a length of one, put behind what was seen, is no longer a length of one
      have hone : unframe limit [1, 7] = ⟨[[7]], .needPrefix, []⟩ := by
        have hcut : cut limit (encode 1 ++ [7] ++ []) = .ok ([7], []) :=
          cut_encode hl (show [(7 : UInt8)].length < 2 ^ 64 by decide) []
        rw [encode_small (by decide)] at hcut
        exact (unframe_ok hcut).trans (congrArg (Outcome.prepend [[7]]) hnil)
      have hsize : 1 < denote (b :: seen ++ [1]) % 2 ^ 64 := by
        have hlen : seen.length + 1 < 10 := hv.2
        have hpow : (128 : ℕ) ^ (seen.length + 1) ≤ 128 ^ 9 :=
          Nat.pow_le_pow_right (by decide) (by omega)
        have hpos : (128 : ℕ) ^ 1 ≤ 128 ^ (seen.length + 1) :=
          Nat.pow_le_pow_right (by decide) (by omega)
        have hlt := denote_lt (b :: seen)
        have hden : denote (b :: seen ++ [1]) = denote (b :: seen) + 128 ^ (seen.length + 1) := by
          rw [denote_append, List.length_cons]
          exact congrArg _ (Nat.mul_one _)
        rw [List.length_cons] at hlt
        omega
      have hcut := cut_last limit hv.1 hv.2 (b := 1) (by decide) [7]
      have hbad := h [1, 7]
      rw [hone, resume] at hbad
      simp only at hcut
      split at hcut
      next =>
        rw [unframe_error hcut] at hbad
        cases congrArg Outcome.stop hbad
      next =>
        rw [if_pos (by simpa using hsize)] at hcut
        rw [unframe_error hcut] at hbad
        cases congrArg Outcome.stop hbad

end AndroidTvRemote.Framing
