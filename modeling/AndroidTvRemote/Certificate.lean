import AndroidTvRemote.Impl

namespace AndroidTvRemote

open Wire

inductive Exception
  | invalidArgument (what : String)
  | runtimeError (what : String)
  | systemError (what : String)
  deriving DecidableEq, Repr

namespace Crypto

abbrev Digest := Vector UInt8 32

def nibble (c : UInt8) : Except Exception UInt8 :=
  if 0x30 ≤ c ∧ c ≤ 0x39 then .ok (c - 0x30)
  else if 0x61 ≤ c ∧ c ≤ 0x66 then .ok (10 + c - 0x61)
  else if 0x41 ≤ c ∧ c ≤ 0x46 then .ok (10 + c - 0x41)
  else .error (.invalidArgument "pairing code is not hexadecimal")

/-- The loop of `hexToBytes`. -/
def hexPairs : Bytes → Except Exception Bytes
  | high :: low :: hex => do
    let h ← nibble high
    let l ← nibble low
    let out ← hexPairs hex
    return ((h <<< 4) ||| l) :: out
  | _ => .ok []

def hexToBytes (hex : Bytes) : Except Exception Bytes :=
  if hex.length % 2 ≠ 0 then
    .error (.invalidArgument "hex string must have an even number of characters")
  else hexPairs hex

/-- What OpenSSL finds in a certificate: the two numbers of an RSA key are given
by the bytes `BN_bn2bin` writes for them. -/
inductive PublicKey
  | absent
  | other
  | rsa (n e : Bytes)
  deriving DecidableEq, Repr

structure Certificate where
  publicKey : PublicKey
  openSslError : Option String := none
  deriving DecidableEq, Repr

def rsaNumbers (certificate : Certificate) : Except Exception (Bytes × Bytes) :=
  match certificate.publicKey with
  | .absent => .error (.runtimeError
      (lastOpenSslError "certificate has no public key" certificate.openSslError))
  | .other => .error (.runtimeError
      (lastOpenSslError "unable to extract RSA public numbers" certificate.openSslError))
  | .rsa n e => .ok (n, e)

def bnBytes (value : Bytes) : Except Exception Bytes :=
  if value.length = 0 then .error (.runtimeError "RSA public number is empty") else .ok value

def pairingSecret (sha256 : Bytes → Digest) (clientCertificate serverCertificate : Certificate)
    (sixHexDigitCode : Bytes) : Except Exception Digest := do
  if sixHexDigitCode.length ≠ 6 then
    throw (.invalidArgument "pairing code must contain exactly 6 hexadecimal digits")
  let codeBytes ← hexToBytes sixHexDigitCode
  let (clientN, clientE) ← rsaNumbers clientCertificate
  let clientNBytes ← bnBytes clientN
  let clientEBytes ← bnBytes clientE
  let (serverN, serverE) ← rsaNumbers serverCertificate
  let serverNBytes ← bnBytes serverN
  let serverEBytes ← bnBytes serverE
  let codeTail := codeBytes.drop 1
  let digest := sha256 (clientNBytes ++ clientEBytes ++ serverNBytes ++ serverEBytes ++ codeTail)
  if some digest[0] ≠ codeBytes[0]? then
    throw (.invalidArgument "pairing code does not match the TLS certificates")
  return digest

/-- The byte of the digest that the code shows. -/
def Digest.first (digest : Digest) : UInt8 := digest[0]

def Certificate.Holds (certificate : Certificate) (n e : Bytes) : Prop :=
  certificate.publicKey = .rsa n e ∧ n ≠ [] ∧ e ≠ []

theorem Certificate.Holds.numbers {certificate : Certificate} {n e : Bytes}
    (h : certificate.Holds n e) :
    rsaNumbers certificate = .ok (n, e) ∧ bnBytes n = .ok n ∧ bnBytes e = .ok e := by
  obtain ⟨hkey, hn, he⟩ := h
  refine ⟨by rw [rsaNumbers, hkey], ?_, ?_⟩
  · rw [bnBytes, if_neg (by simpa using hn)]
  · rw [bnBytes, if_neg (by simpa using he)]

theorem nibble_error {c : UInt8} {e : Exception} (h : nibble c = .error e) :
    e = .invalidArgument "pairing code is not hexadecimal" := by
  unfold nibble at h
  split at h
  · cases h
  split at h
  · cases h
  split at h
  · cases h
  · exact (Except.error.inj h).symm

theorem bind_error {α β : Type} {x : Except Exception α} {f : α → Except Exception β}
    {e : Exception} (h : x >>= f = .error e) : x = .error e ∨ ∃ a, x = .ok a ∧ f a = .error e := by
  cases x with
  | error e' =>
    cases h
    exact .inl rfl
  | ok a => exact .inr ⟨a, rfl, h⟩

theorem ok_bind {ε α β : Type} (a : α) (f : α → Except ε β) : Except.ok a >>= f = f a := rfl

theorem hexPairs_error {hex : Bytes} {e : Exception} (h : hexPairs hex = .error e) :
    e = .invalidArgument "pairing code is not hexadecimal" := by
  induction hex using hexPairs.induct with
  | case1 high low hex ih =>
    rw [hexPairs] at h
    obtain h | ⟨a, -, h⟩ := bind_error h
    · exact nibble_error h
    obtain h | ⟨b, -, h⟩ := bind_error h
    · exact nibble_error h
    obtain h | ⟨out, -, h⟩ := bind_error h
    · exact ih h
    · cases h
  | case2 hex hne =>
    rw [hexPairs] at h
    · cases h
    · exact hne

theorem hexToBytes_error {hex : Bytes} {e : Exception} (h : hexToBytes hex = .error e) :
    ∃ what, e = .invalidArgument what := by
  unfold hexToBytes at h
  split at h
  · exact ⟨_, (Except.error.inj h).symm⟩
  · exact ⟨_, hexPairs_error h⟩

theorem pairingSecret_eq {sha256 : Bytes → Digest} {client server : Certificate}
    {cn ce sn se : Bytes} (hclient : client.Holds cn ce) (hserver : server.Holds sn se)
    (code : Bytes) : pairingSecret sha256 client server code =
      if code.length ≠ 6 then
        .error (.invalidArgument "pairing code must contain exactly 6 hexadecimal digits")
      else hexToBytes code >>= fun codeBytes ↦
        if some (sha256 (cn ++ ce ++ sn ++ se ++ codeBytes.drop 1))[0] ≠ codeBytes[0]? then
          .error (.invalidArgument "pairing code does not match the TLS certificates")
        else .ok (sha256 (cn ++ ce ++ sn ++ se ++ codeBytes.drop 1)) := by
  obtain ⟨hc, hcn, hce⟩ := hclient.numbers
  obtain ⟨hs, hsn, hse⟩ := hserver.numbers
  unfold pairingSecret
  split
  · rfl
  cases hexToBytes code with
  | error e => rfl
  | ok codeBytes =>
    simp only [hc, hcn, hce, hs, hsn, hse, ok_bind]
    split
    · rfl
    · rfl

/-- Between two RSA certificates the code alone decides, and it is refused as
an invalid argument. -/
theorem pairingSecret_error {sha256 : Bytes → Digest} {client server : Certificate}
    {cn ce sn se code : Bytes} {e : Exception} (hclient : client.Holds cn ce)
    (hserver : server.Holds sn se) (h : pairingSecret sha256 client server code = .error e) :
    ∃ what, e = .invalidArgument what := by
  rw [pairingSecret_eq hclient hserver] at h
  split at h
  · exact ⟨_, (Except.error.inj h).symm⟩
  obtain h | ⟨codeBytes, -, h⟩ := bind_error h
  · exact hexToBytes_error h
  split at h
  · exact ⟨_, (Except.error.inj h).symm⟩
  · cases h

end Crypto

end AndroidTvRemote
