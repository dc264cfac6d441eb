import AndroidTvRemote.Framing
import AndroidTvRemote.Wire

namespace AndroidTvRemote.SyncTlsConnection

open Base128 Wire Framing

inductive Buffer
  | byte
  | payload (size : ℕ)
  deriving DecidableEq, Repr

/-- Why a call of `receive` does not return: `asio::read` asks for more bytes
than the stream holds, or the length was refused. -/
inductive Failure
  | read (buffer : Buffer)
  | runtimeError (what : String)
  deriving DecidableEq, Repr

def receiveLength (length : UInt64) (shift : ℕ) : Bytes → Except Failure UInt64 × Bytes
  | [] => (.error (.read .byte), [])
  | byte :: rest =>
    let length := length ||| ((byte &&& 0x7f).toUInt64 <<< UInt64.ofNat shift)
    if byte &&& 0x80 = 0 then (.ok length, rest)
    else if shift + 7 > 63 then (.error (.runtimeError "invalid protobuf frame length"), rest)
    else receiveLength length (shift + 7) rest

def receivePayload (length : UInt64) (unread : Bytes) : Except Failure Bytes × Bytes :=
  if length.toNat > 4 * 1024 * 1024 then
    (.error (.runtimeError "protobuf frame exceeds safety limit"), unread)
  else if length.toNat = 0 then (.ok [], unread)
  else if unread.length < length.toNat then
    (.error (.read (.payload length.toNat)), unread)
  else (.ok (unread.take length.toNat), unread.drop length.toNat)

def receive (unread : Bytes) : Except Failure Bytes × Bytes :=
  match receiveLength 0 0 unread with
  | (.error failure, unread) => (.error failure, unread)
  | (.ok length, unread) => receivePayload length unread

/-- What a failure says about the stream. -/
def Failure.stop : Failure → Stop
  | read .byte => .needPrefix
  | read (.payload _) => .needBody
  | runtimeError what =>
    if what = "invalid protobuf frame length" then .overlong else .tooLong

theorem receiveLength_eq (k : ℕ) {seen : Bytes} (hk : seen.length + k = 9) (bs : Bytes) :
    receiveLength (UInt64.ofNat (denote seen)) (7 * seen.length) bs =
      match scan (k + 1) bs with
      | some (p, t) => (.ok (UInt64.ofNat (denote (seen ++ p))), t)
      | none => if bs.length < k + 1 then (.error (.read .byte), [])
        else (.error (.runtimeError "invalid protobuf frame length"), bs.drop (k + 1)) := by
  induction k generalizing seen bs with
  | zero =>
    cases bs with
    | nil => rfl
    | cons b bs =>
      have hacc := Reader.accumulate seen b (by omega)
      simp only [receiveLength, hacc, continues_iff, scan]
      by_cases hb : b.toNat < 128
      · simp [hb]
      · rw [if_neg hb, if_pos (by omega), if_neg hb]
        simp
  | succ k ih =>
    cases bs with
    | nil => rfl
    | cons b bs =>
      have hacc := Reader.accumulate seen b (by omega)
      simp only [receiveLength, hacc, continues_iff]
      rw [scan]
      by_cases hb : b.toNat < 128
      · simp [hb]
      · have hk' : (seen ++ [b]).length + k = 9 := by
          rw [List.length_append, List.length_singleton]
          omega
        have hih := ih hk' bs
        rw [List.length_append, List.length_singleton, Nat.mul_add] at hih
        rw [if_neg hb, if_neg (by omega), hih, if_neg hb]
        cases scan (k + 1) bs with
        | none => simp
        | some p => simp

theorem receiveLength_scan (bs : Bytes) : receiveLength 0 0 bs =
    match scan 10 bs with
    | some (p, t) => (.ok (UInt64.ofNat (denote p)), t)
    | none => if bs.length < 10 then (.error (.read .byte), [])
      else (.error (.runtimeError "invalid protobuf frame length"), bs.drop 10) :=
  receiveLength_eq 9 (rfl : ([] : Bytes).length + 9 = 9) bs

theorem receive_ok {bs p t : Bytes} (h : cut (4 * 1024 * 1024) bs = .ok (p, t)) :
    receive bs = (.ok p, t) := by
  unfold cut at h
  split at h
  · cases h
  next q u hs =>
    rw [receive, receiveLength_scan, hs]
    simp only [receivePayload, UInt64.toNat_ofNat'] at h ⊢
    split at h
    · cases h
    next hl =>
      split at h
      · cases h
      next hu =>
        obtain ⟨rfl, rfl⟩ := Prod.mk.inj (Except.ok.inj h)
        rw [if_neg hl]
        split
        next h0 => rw [h0, List.take_zero, List.drop_zero]
        next => rfl

theorem receive_error {bs u : Bytes} {s : Stop}
    (h : cut (4 * 1024 * 1024) bs = .error (s, u)) :
    ∃ f, receive bs = (.error f, u) ∧ f.stop = s := by
  unfold cut at h
  split at h
  next hs =>
    rw [receive, receiveLength_scan, hs]
    split at h
    next hl =>
      obtain ⟨rfl, rfl⟩ := Prod.mk.inj (Except.error.inj h)
      simp only [if_pos hl]
      exact ⟨_, rfl, rfl⟩
    next hl =>
      obtain ⟨rfl, rfl⟩ := Prod.mk.inj (Except.error.inj h)
      simp only [if_neg hl]
      exact ⟨_, rfl, rfl⟩
  next q t hs =>
    rw [receive, receiveLength_scan, hs]
    simp only [receivePayload, UInt64.toNat_ofNat'] at h ⊢
    split at h
    next hl =>
      obtain ⟨rfl, rfl⟩ := Prod.mk.inj (Except.error.inj h)
      rw [if_pos hl]
      exact ⟨_, rfl, rfl⟩
    next hl =>
      split at h
      next hu =>
        obtain ⟨rfl, rfl⟩ := Prod.mk.inj (Except.error.inj h)
        rw [if_neg hl, if_neg (by omega), if_pos hu]
        exact ⟨_, rfl, rfl⟩
      next => cases h

theorem receive_cases (bs : Bytes) :
    (∃ p t, cut (4 * 1024 * 1024) bs = .ok (p, t) ∧ receive bs = (.ok p, t)) ∨
    ∃ f u, cut (4 * 1024 * 1024) bs = .error (f.stop, u) ∧ receive bs = (.error f, u) := by
  cases h : cut (4 * 1024 * 1024) bs with
  | ok r => exact .inl ⟨r.1, r.2, rfl, receive_ok h⟩
  | error e =>
    obtain ⟨f, hf, hs⟩ := receive_error h
    exact .inr ⟨f, e.2, by rw [hs], hf⟩

theorem receive_shrinks {bs p t : Bytes} (h : receive bs = (.ok p, t)) :
    t.length < bs.length := by
  obtain ⟨p', t', hc, hr⟩ | ⟨f, u, -, hr⟩ := receive_cases bs
  · obtain ⟨-, rfl⟩ := Prod.mk.inj (h.symm.trans hr)
    exact cut_shrinks hc
  · cases (Prod.mk.inj (h.symm.trans hr)).1

/-- `receive` called until it fails: the payloads returned, the failure, and
the bytes left unread. -/
def receiveAll (bs : Bytes) : List Bytes × Failure × Bytes :=
  match _h : receive bs with
  | (.error failure, unread) => ([], failure, unread)
  | (.ok payload, unread) => (payload :: (receiveAll unread).1, (receiveAll unread).2)
termination_by bs.length
decreasing_by all_goals exact receive_shrinks _h

theorem receiveAll_error {bs u : Bytes} {f : Failure} (h : receive bs = (.error f, u)) :
    receiveAll bs = ([], f, u) := by
  rw [receiveAll]
  split
  next h' =>
    obtain ⟨hf, rfl⟩ := Prod.mk.inj (h.symm.trans h')
    obtain rfl := Except.error.inj hf
    rfl
  next h' => cases (Prod.mk.inj (h.symm.trans h')).1

theorem receiveAll_ok {bs p t : Bytes} (h : receive bs = (.ok p, t)) :
    receiveAll bs = (p :: (receiveAll t).1, (receiveAll t).2) := by
  rw [receiveAll]
  split
  next h' => cases (Prod.mk.inj (h.symm.trans h')).1
  next h' =>
    obtain ⟨hp, rfl⟩ := Prod.mk.inj (h.symm.trans h')
    obtain rfl := Except.ok.inj hp
    rfl

theorem unframe_receiveAll (bs : Bytes) : unframe (4 * 1024 * 1024) bs =
    ⟨(receiveAll bs).1, (receiveAll bs).2.1.stop, (receiveAll bs).2.2⟩ := by
  induction bs using receiveAll.induct with
  | case1 bs f u h =>
    obtain ⟨p', t', -, hr⟩ | ⟨f', u', hc, hr⟩ := receive_cases bs
    · cases (Prod.mk.inj (h.symm.trans hr)).1
    · rw [receiveAll_error hr]
      exact unframe_error hc
  | case2 bs p t h ih =>
    obtain ⟨p', t', hc, hr⟩ | ⟨f', u', -, hr⟩ := receive_cases bs
    · obtain ⟨-, rfl⟩ := Prod.mk.inj (h.symm.trans hr)
      rw [receiveAll_ok hr, unframe_ok hc, ih]
      rfl
    · cases (Prod.mk.inj (h.symm.trans hr)).1

theorem receiveAll_of_scan_none {bs : Bytes} (hs : scan 10 bs = none) :
    (∃ failure unread, receiveLength 0 0 bs = (.error failure, unread)) ∧
      (receiveAll bs).1 = [] ∧
      ((receiveAll bs).2.1.stop = .needPrefix ∨ (receiveAll bs).2.1.stop = .overlong) := by
  have hall := unframe_receiveAll bs
  have hlength := receiveLength_scan bs
  rw [hs] at hlength
  by_cases hlen : bs.length < 10
  · have hcut : cut (4 * 1024 * 1024) bs = .error (.needPrefix, []) := by
      rw [cut, hs]
      simp only [if_pos hlen]
    rw [unframe_error hcut] at hall
    simp only [if_pos hlen] at hlength
    exact ⟨⟨_, _, hlength⟩, (congrArg Outcome.payloads hall).symm,
      .inl (congrArg Outcome.stop hall).symm⟩
  · have hcut : cut (4 * 1024 * 1024) bs = .error (.overlong, bs.drop 10) := by
      rw [cut, hs]
      simp only [if_neg hlen]
    rw [unframe_error hcut] at hall
    simp only [if_neg hlen] at hlength
    exact ⟨⟨_, _, hlength⟩, (congrArg Outcome.payloads hall).symm,
      .inr (congrArg Outcome.stop hall).symm⟩

def receives : ℕ → Bytes → List (Except Failure Bytes) × Bytes
  | 0, bs => ([], bs)
  | n + 1, bs =>
    let (result, unread) := receive bs
    let (results, unread) := receives n unread
    (result :: results, unread)

theorem cut_frame {p : Bytes} (hp : p.length ≤ 4 * 1024 * 1024) (t : Bytes) :
    cut (4 * 1024 * 1024) (frame p ++ t) = .ok (p, t) := by
  rw [frame_eq, Nat.mod_eq_of_lt (by omega)]
  exact cut_encode hp (by omega) t

theorem receives_frames {ps : List Bytes} (hps : ∀ p ∈ ps, p.length ≤ 4 * 1024 * 1024)
    (t : Bytes) : receives ps.length ((ps.map frame).flatten ++ t) = (ps.map .ok, t) := by
  induction ps with
  | nil => rfl
  | cons p ps ih =>
    obtain ⟨hp, hps⟩ := List.forall_mem_cons.mp hps
    simp only [List.map_cons, List.flatten_cons, List.append_assoc, List.length_cons, receives]
    rw [receive_ok (cut_frame hp _), ih hps]

theorem unframe_frames {ps : List Bytes} (hps : ∀ p ∈ ps, p.length ≤ 4 * 1024 * 1024)
    (t : Bytes) : unframe (4 * 1024 * 1024) ((ps.map frame).flatten ++ t) =
      (unframe (4 * 1024 * 1024) t).prepend ps := by
  induction ps with
  | nil => rfl
  | cons p ps ih =>
    obtain ⟨hp, hps⟩ := List.forall_mem_cons.mp hps
    rw [List.map_cons, List.flatten_cons, List.append_assoc, unframe_ok (cut_frame hp _), ih hps,
      Outcome.prepend_prepend]
    rfl

end AndroidTvRemote.SyncTlsConnection
