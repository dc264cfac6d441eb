import AndroidTvRemote.PairingCalls

namespace AndroidTvRemote.Crypto

open Wire

/-- The contents of the two thread-local holders of `rsaNumbers`. -/
structure Holders where
  n : Bytes := []
  e : Bytes := []
  deriving DecidableEq, Repr

/-- What `rsaNumbers` returns: pointers to what the holders hold at the time
they are followed. -/
inductive Pointer
  | n
  | e
  deriving DecidableEq, Repr

def Holders.follow (holders : Holders) : Pointer → Bytes
  | .n => holders.n
  | .e => holders.e

namespace Holders

abbrev Thread := StateT Holders (Except Exception)

def rsaNumbers (certificate : Certificate) : Thread (Pointer × Pointer) := do
  let (n, e) ← Crypto.rsaNumbers certificate
  set { n, e : Holders }
  return (.n, .e)

def bnBytes (value : Pointer) : Thread Bytes := do
  Crypto.bnBytes ((← get).follow value)

def pairingSecret (sha256 : Bytes → Digest) (clientCertificate serverCertificate : Certificate)
    (sixHexDigitCode : Bytes) : Thread Digest := do
  if sixHexDigitCode.length ≠ 6 then
    throw (.invalidArgument "pairing code must contain exactly 6 hexadecimal digits")
  let codeBytes ← hexToBytes sixHexDigitCode
  let (clientN, clientE) ← rsaNumbers clientCertificate
  let clientNBytes ← bnBytes clientN
  let clientEBytes ← bnBytes clientE
  let (serverN, serverE) ← rsaNumbers serverCertificate
  let serverNBytes ← bnBytes serverN
  let serverEBytes ← bnBytes serverE
  let codeTail := codeBytes.drop 1
  let digest := sha256 (clientNBytes ++ clientEBytes ++ serverNBytes ++ serverEBytes ++ codeTail)
  if some digest.first ≠ codeBytes[0]? then
    throw (.invalidArgument "pairing code does not match the TLS certificates")
  return digest

variable {α : Type} (holders : Holders)

theorem lift_bind_run (x : Except Exception α) {β : Type} (f : α → Thread β) :
    ((liftM x : Thread α) >>= f).run' holders = x >>= fun a ↦ (f a).run' holders := by
  cases x <;> rfl

theorem rsaNumbers_bind_run (certificate : Certificate) (f : Pointer × Pointer → Thread α) :
    (rsaNumbers certificate >>= f).run' holders =
      Crypto.rsaNumbers certificate >>= fun p ↦ (f (.n, .e)).run' ⟨p.1, p.2⟩ := by
  cases h : Crypto.rsaNumbers certificate with
  | error e => simp only [rsaNumbers, h]; rfl
  | ok p => simp only [rsaNumbers, h]; rfl

theorem bnBytes_bind_run (value : Pointer) (f : Bytes → Thread α) :
    (bnBytes value >>= f).run' holders =
      Crypto.bnBytes (holders.follow value) >>= fun b ↦ (f b).run' holders :=
  lift_bind_run holders (Crypto.bnBytes (holders.follow value)) f

theorem ite_run (c : Prop) [Decidable c] (x y : Thread α) :
    (if c then x else y).run' holders = if c then x.run' holders else y.run' holders := by
  split <;> rfl

/-- The client's numbers are copied before the server's take their place, so
no pointer is followed too late. -/
theorem pairingSecret_run (sha256 : Bytes → Digest) (client server : Certificate) (code : Bytes) :
    (pairingSecret sha256 client server code).run' holders =
      Crypto.pairingSecret sha256 client server code := by
  unfold pairingSecret Crypto.pairingSecret
  split
  · rfl
  simp only [lift_bind_run, rsaNumbers_bind_run, bnBytes_bind_run, ite_run]
  rfl

end Holders

def lowerDigits : Bytes :=
  [0x30, 0x31, 0x32, 0x33, 0x34, 0x35, 0x36, 0x37, 0x38, 0x39, 0x61, 0x62, 0x63, 0x64, 0x65, 0x66]

def upperDigits : Bytes :=
  [0x30, 0x31, 0x32, 0x33, 0x34, 0x35, 0x36, 0x37, 0x38, 0x39, 0x41, 0x42, 0x43, 0x44, 0x45, 0x46]

def HexDigit (c v : UInt8) : Prop :=
  lowerDigits[v.toNat]? = some c ∨ upperDigits[v.toNat]? = some c

instance (c v : UInt8) : Decidable (HexDigit c v) := inferInstanceAs (Decidable (_ ∨ _))

def HexByte (b high low : UInt8) : Prop := HexDigit high (b / 16) ∧ HexDigit low (b % 16)

instance (b high low : UInt8) : Decidable (HexByte b high low) := inferInstanceAs (Decidable (_ ∧ _))

/-- A code is six such characters. -/
def HexCode (code : Bytes) (b₀ b₁ b₂ : UInt8) : Prop :=
  ∃ x₀ y₀ x₁ y₁ x₂ y₂, code = [x₀, y₀, x₁, y₁, x₂, y₂] ∧
    HexByte b₀ x₀ y₀ ∧ HexByte b₁ x₁ y₁ ∧ HexByte b₂ x₂ y₂

def toLower (c : UInt8) : UInt8 := if 0x41 ≤ c ∧ c ≤ 0x5a then c + 0x20 else c

def SameButCase (code code' : Bytes) : Prop := code.map toLower = code'.map toLower

theorem forall_byte {p : UInt8 → Prop} (h : ∀ i : Fin 256, p (UInt8.ofNat i.val)) (c : UInt8) :
    p c := by
  have hc := h ⟨c.toNat, c.toNat_lt⟩
  rwa [UInt8.ofNat_toNat] at hc

theorem nibble_toLower (c : UInt8) : nibble (toLower c) = nibble c := by
  revert c
  apply forall_byte
  decide +kernel

theorem HexDigit.lt {c v : UInt8} (h : HexDigit c v) : v.toNat < 16 := by
  rcases h with h | h
  · exact (List.getElem?_eq_some_iff.mp h).1
  · exact (List.getElem?_eq_some_iff.mp h).1

theorem nibble_eq_ok_iff {c v : UInt8} : nibble c = .ok v ↔ HexDigit c v := by
  constructor
  · intro h
    have hall : ∀ c, ∀ v ∈ (nibble c).toOption, HexDigit c v := by
      apply forall_byte
      decide +kernel
    exact hall c v (by rw [h]; rfl)
  · intro h
    have hall : ∀ k < 16, lowerDigits[k]?.map nibble = some (.ok (UInt8.ofNat k)) ∧
        upperDigits[k]?.map nibble = some (.ok (UInt8.ofNat k)) := by
      decide +kernel
    obtain ⟨hlow, hup⟩ := hall v.toNat h.lt
    rcases h with h | h
    · rw [h, UInt8.ofNat_toNat] at hlow
      exact Option.some.inj hlow
    · rw [h, UInt8.ofNat_toNat] at hup
      exact Option.some.inj hup

theorem halves {h l b : UInt8} (hh : h.toNat < 16) (hl : l.toNat < 16) :
    (h <<< 4) ||| l = b ↔ h = b / 16 ∧ l = b % 16 := by
  have hor : ((h <<< 4) ||| l).toNat = 16 * h.toNat + l.toNat := by
    have hsum := Nat.two_pow_add_eq_or_of_lt (i := 4) hl h.toNat
    rw [UInt8.toNat_or, UInt8.toNat_shiftLeft, Nat.shiftLeft_eq]
    change h.toNat * 2 ^ 4 % 2 ^ 8 ||| l.toNat = _
    rw [Nat.mod_eq_of_lt (by omega), Nat.mul_comm, ← hsum]
  have hb := b.toNat_lt
  rw [← UInt8.toNat_inj, ← UInt8.toNat_inj, ← UInt8.toNat_inj, hor, UInt8.toNat_div,
    UInt8.toNat_mod]
  change _ ↔ h.toNat = b.toNat / 16 ∧ l.toNat = b.toNat % 16
  omega

theorem hexPairs_cons {high low : UInt8} {hex out : Bytes} :
    hexPairs (high :: low :: hex) = .ok out ↔
      ∃ b rest, out = b :: rest ∧ HexByte b high low ∧ hexPairs hex = .ok rest := by
  constructor
  · intro h
    rw [hexPairs] at h
    cases hh : nibble high with
    | error e => rw [hh] at h; cases h
    | ok a =>
      cases hl : nibble low with
      | error e => rw [hh, hl] at h; cases h
      | ok c =>
        cases hr : hexPairs hex with
        | error e => rw [hh, hl, hr] at h; cases h
        | ok rest =>
          rw [hh, hl, hr] at h
          rw [nibble_eq_ok_iff] at hh hl
          obtain ⟨ha, hc⟩ := (halves hh.lt hl.lt).mp rfl
          refine ⟨_, rest, (Except.ok.inj h).symm, ?_, rfl⟩
          rw [ha] at hh
          rw [hc] at hl
          exact ⟨hh, hl⟩
  · intro h'
    obtain ⟨b, rest, rfl, ⟨hh, hl⟩, hr⟩ := h'
    rw [hexPairs, nibble_eq_ok_iff.mpr hh, nibble_eq_ok_iff.mpr hl, hr]
    exact congrArg (fun b ↦ Except.ok (b :: rest)) ((halves hh.lt hl.lt).mpr ⟨rfl, rfl⟩)

theorem hexToBytes_eq_ok_iff {code bytes : Bytes} (h : code.length = 6) :
    hexToBytes code = .ok bytes ↔ ∃ b₀ b₁ b₂, bytes = [b₀, b₁, b₂] ∧ HexCode code b₀ b₁ b₂ := by
  obtain ⟨x₀, y₀, x₁, y₁, x₂, y₂, rfl⟩ :
      ∃ x₀ y₀ x₁ y₁ x₂ y₂, code = [x₀, y₀, x₁, y₁, x₂, y₂] := by
    match code, h with
    | [x₀, y₀, x₁, y₁, x₂, y₂], _ => exact ⟨_, _, _, _, _, _, rfl⟩
  rw [hexToBytes, h, if_neg (by decide), hexPairs_cons]
  constructor
  · intro h'
    obtain ⟨b₀, t₀, rfl, h₀, ht₀⟩ := h'
    obtain ⟨b₁, t₁, rfl, h₁, ht₁⟩ := hexPairs_cons.mp ht₀
    obtain ⟨b₂, t₂, rfl, h₂, ht₂⟩ := hexPairs_cons.mp ht₁
    obtain rfl : [] = t₂ := Except.ok.inj ht₂
    exact ⟨b₀, b₁, b₂, rfl, _, _, _, _, _, _, rfl, h₀, h₁, h₂⟩
  · intro h'
    obtain ⟨b₀, b₁, b₂, rfl, _, _, _, _, _, _, hcode, h₀, h₁, h₂⟩ := h'
    cases hcode
    exact ⟨b₀, _, rfl, h₀, hexPairs_cons.mpr ⟨b₁, _, rfl, h₁, hexPairs_cons.mpr ⟨b₂, _, rfl, h₂, rfl⟩⟩⟩

theorem HexCode.length {code : Bytes} {b₀ b₁ b₂ : UInt8} (h : HexCode code b₀ b₁ b₂) :
    code.length = 6 := by
  obtain ⟨_, _, _, _, _, _, rfl, -⟩ := h
  rfl

theorem hexPairs_toLower (hex : Bytes) : hexPairs (hex.map toLower) = hexPairs hex := by
  induction hex using hexPairs.induct with
  | case1 high low hex ih =>
    simp only [List.map_cons, hexPairs, nibble_toLower, ih]
  | case2 hex h =>
    cases hex with
    | nil => rfl
    | cons c hex =>
      cases hex with
      | nil => rfl
      | cons d hex => exact absurd rfl (h c d hex)

theorem hexToBytes_toLower (hex : Bytes) : hexToBytes (hex.map toLower) = hexToBytes hex := by
  rw [hexToBytes, hexToBytes, List.length_map, hexPairs_toLower]

theorem pairingSecret_toLower (sha256 : Bytes → Digest) (client server : Certificate)
    (code : Bytes) : pairingSecret sha256 client server (code.map toLower) =
      pairingSecret sha256 client server code := by
  simp only [pairingSecret, List.length_map, hexToBytes_toLower]

section Codes

variable {sha256 : Bytes → Digest} {client server : Certificate} {cn ce sn se : Bytes}
  (hclient : client.Holds cn ce) (hserver : server.Holds sn se)

include hclient hserver

theorem pairingSecret_eq_ok_iff {code : Bytes} {d : Digest} :
    pairingSecret sha256 client server code = .ok d ↔
      ∃ b₀ b₁ b₂, HexCode code b₀ b₁ b₂ ∧ d = sha256 (cn ++ ce ++ sn ++ se ++ [b₁, b₂]) ∧
        d.first = b₀ := by
  rw [pairingSecret_eq hclient hserver]
  constructor
  · intro h
    split at h
    · cases h
    next hlen =>
      cases hc : hexToBytes code with
      | error e => rw [hc] at h; cases h
      | ok bytes =>
        obtain ⟨b₀, b₁, b₂, rfl, hcode⟩ := (hexToBytes_eq_ok_iff (not_not.mp hlen)).mp hc
        rw [hc, ok_bind] at h
        split at h
        · cases h
        next hne =>
          obtain rfl := Except.ok.inj h
          exact ⟨b₀, b₁, b₂, hcode, rfl, Option.some.inj (not_not.mp hne)⟩
  · intro h'
    obtain ⟨b₀, b₁, b₂, hcode, rfl, rfl⟩ := h'
    have hc := (hexToBytes_eq_ok_iff hcode.length).mpr ⟨_, b₁, b₂, rfl, hcode⟩
    rw [if_neg (not_not.mpr hcode.length), hc, ok_bind]
    exact if_neg (not_not.mpr rfl)

/-- The codes that are accepted between two RSA certificates are the
hexadecimal forms of a byte of the digest and the two bytes that go into it.
All others are invalid arguments, whatever numbers earlier calls have left in
the holders, and case never matters. -/
theorem pairing_codes_accepted (holders : Holders) :
    (∀ code d, (Holders.pairingSecret sha256 client server code).run' holders = .ok d ↔
      ∃ b₀ b₁ b₂, HexCode code b₀ b₁ b₂ ∧ d = sha256 (cn ++ ce ++ sn ++ se ++ [b₁, b₂]) ∧
        d.first = b₀) ∧
    (∀ code, (∃ d, (Holders.pairingSecret sha256 client server code).run' holders = .ok d) ∨
      ∃ what, (Holders.pairingSecret sha256 client server code).run' holders =
        .error (.invalidArgument what)) ∧
    (∀ t₁ t₂ code, HexCode code (sha256 (cn ++ ce ++ sn ++ se ++ [t₁, t₂])).first t₁ t₂ →
      (Holders.pairingSecret sha256 client server code).run' holders =
        .ok (sha256 (cn ++ ce ++ sn ++ se ++ [t₁, t₂]))) ∧
    (∀ code code', SameButCase code code' →
      (Holders.pairingSecret sha256 client server code).run' holders =
        (Holders.pairingSecret sha256 client server code').run' holders) := by
  simp only [Holders.pairingSecret_run]
  refine ⟨fun code d ↦ pairingSecret_eq_ok_iff hclient hserver, ?_, ?_, ?_⟩
  · intro code
    cases h : pairingSecret sha256 client server code with
    | ok d => exact .inl ⟨d, rfl⟩
    | error e =>
      obtain ⟨what, rfl⟩ := pairingSecret_error hclient hserver h
      exact .inr ⟨what, rfl⟩
  · intro t₁ t₂ code hcode
    exact (pairingSecret_eq_ok_iff hclient hserver).mpr ⟨_, t₁, t₂, hcode, rfl, rfl⟩
  · intro code code' h
    rw [← pairingSecret_toLower, h, pairingSecret_toLower]

end Codes

theorem pairing_codes_accepted_sample :
    clientCertificate.Holds [0x0c, 0xa1] [0x11] ∧ tvCertificate.Holds [0x0c, 0x37] [0x03] ∧
      (Holders.pairingSecret (fun _ ↦ sampleDigest) clientCertificate tvCertificate
        sampleCode).run' {} = .ok sampleDigest := by
  have hclient : clientCertificate.Holds [0x0c, 0xa1] [0x11] := ⟨rfl, by decide, by decide⟩
  have hserver : tvCertificate.Holds [0x0c, 0x37] [0x03] := ⟨rfl, by decide, by decide⟩
  have hcode : HexCode sampleCode 0x93 0x12 0x34 :=
    ⟨_, _, _, _, _, _, rfl, by decide +kernel, by decide +kernel, by decide +kernel⟩
  exact ⟨hclient, hserver,
    (pairing_codes_accepted hclient hserver {}).2.2.1 0x12 0x34 sampleCode hcode⟩

end AndroidTvRemote.Crypto
