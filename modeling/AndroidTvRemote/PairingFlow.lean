import AndroidTvRemote.PairingCodes
import AndroidTvRemote.PairingHandshake

namespace AndroidTvRemote

open Wire SyncTlsConnection Pairing

namespace Exchange

/-- The computation leaves the TV's certificate alone, however it ends. -/
def KeepsPeer {α : Type} (f : ExchangeM α) : Prop :=
  ∀ x, (final (f.run x)).connection.peerCertificate = x.connection.peerCertificate

section KeepsPeer

variable {α β : Type}

theorem keepsPeer_pure (a : α) : KeepsPeer (pure a) := fun _ ↦ rfl

theorem KeepsPeer.bind {f : ExchangeM α} {g : α → ExchangeM β} (hf : KeepsPeer f)
    (hg : ∀ a, KeepsPeer (g a)) : KeepsPeer (f >>= g) := by
  intro x
  have hfirst := hf x
  rw [EStateM.run_bind]
  cases hx : f.run x with
  | ok a x' =>
    rw [hx] at hfirst
    exact (hg a x').trans hfirst
  | error e x' =>
    rw [hx] at hfirst
    exact hfirst

theorem keepsPeer_send (payload : Bytes) : KeepsPeer (send payload) := by
  intro x
  simp only [EStateM.run, send]
  split <;> rfl

theorem keepsPeer_receive : KeepsPeer receive := by
  intro x
  simp only [EStateM.run, receive]
  split <;> rfl

theorem keepsPeer_requirePairingStatusOk (message : Bytes) :
    KeepsPeer (requirePairingStatusOk message) := by
  intro x
  unfold requirePairingStatusOk
  split <;> rfl

theorem keepsPeer_configure (steps : ℕ) : KeepsPeer (configure steps) := by
  induction steps with
  | zero => exact keepsPeer_pure false
  | succ steps ih =>
    unfold configure
    refine keepsPeer_receive.bind fun message ↦ ?_
    refine (keepsPeer_requirePairingStatusOk message).bind fun _ ↦ ?_
    split_ifs
    · exact (keepsPeer_send _).bind fun _ ↦ ih
    · exact (keepsPeer_send _).bind fun _ ↦ ih
    · exact keepsPeer_pure true
    · exact ih

end KeepsPeer

end Exchange

namespace PairingSession

variable {session : PairingSession} {start : StartCall} {connection : Connection}

theorem Established.peer (h : session.Established start connection) {left : Connection}
    (hleft : (session.start start).state.connection = some left) :
    left.peerCertificate = connection.peerCertificate := by
  have hkeeps := Exchange.keepsPeer_configure 8 (session.asked start connection)
  rw [h.start_eq] at hleft
  cases hrun : (Exchange.configure 8).run (session.asked start connection) with
  | ok configured x =>
    rw [hrun] at hleft hkeeps
    cases configured with
    | true =>
      obtain rfl := Option.some.inj hleft
      exact hkeeps
    | false => cases hleft
  | error e x =>
    rw [hrun] at hleft hkeeps
    obtain rfl := Option.some.inj hleft
    exact hkeeps

end PairingSession

def newSession (clientName : Bytes) (options : Options) : PairingSession :=
  { clientName
    certificateFile := options.certificateFile
    privateKeyFile := options.privateKeyFile }

section Flow

variable {sha256 : Bytes → Crypto.Digest} {clientName : Bytes} {options : Options}
variable {start : StartCall} {finish : FinishCall} {connection left : Connection}
variable {pairing : Option PairingSession} {session : PairingSession}

theorem startPairing_of_ok (h : ((newSession clientName options).start start).result = .ok ()) :
    startPairing clientName options start pairing =
      { (newSession clientName options).start start with
        state := some ((newSession clientName options).start start).state } := by
  unfold newSession at h ⊢
  simp only [startPairing, h]

theorem startPairing_result_eq : (startPairing clientName options start pairing).result =
    ((newSession clientName options).start start).result := by
  cases h : ((newSession clientName options).start start).result with
  | ok u => rw [startPairing_of_ok h, h]
  | error e =>
    unfold newSession at h
    simp only [startPairing, h]

/-- What `finishPairing` does with the codes before the last. -/
def mistype (sha256 : Bytes → Crypto.Digest) (mistyped : List FinishCall)
    (pairing : Option PairingSession) : Option PairingSession :=
  mistyped.foldl (fun pairing call ↦ (finishPairing sha256 call pairing).state) pairing

theorem mistype_unsent (hc : session.connection = some connection) {mistyped : List FinishCall}
    (h : ∀ call ∈ mistyped, ¬ call.Sends sha256 connection) :
    mistype sha256 mistyped (some session) = some session := by
  induction mistyped with
  | nil => rfl
  | cons call mistyped ih =>
    obtain ⟨hcall, hrest⟩ := List.forall_mem_cons.mp h
    obtain ⟨e, he⟩ := finishPairing_unsent hc hcall
    have hnext : mistype sha256 (call :: mistyped) (some session) =
        mistype sha256 mistyped (finishPairing sha256 call (some session)).state := rfl
    rw [hnext, he]
    exact ih hrest

theorem FinishCall.sends_of_peer {call : FinishCall}
    (h : left.peerCertificate = connection.peerCertificate) :
    call.Sends sha256 left ↔ call.Sends sha256 connection := by
  simp only [FinishCall.Sends, PairingSession.secretFor, h]

theorem finishPairing_eq (call : FinishCall) :
    (finishPairing sha256 call (some session)).result = (session.finish sha256 call).result ∧
      (finishPairing sha256 call (some session)).sent = (session.finish sha256 call).sent := by
  cases h : (session.finish sha256 call).result with
  | ok u =>
    rw [finishPairing_of_ok h]
    exact ⟨h, rfl⟩
  | error e =>
    rw [finishPairing_of_error h]
    exact ⟨h, rfl⟩

section Certificates

variable {client server : Crypto.Certificate} {cn ce sn se : Bytes}

theorem secretFor_eq (hread : loadCertificate finish.certificate = .ok client)
    (hpeer : connection.peerCertificate = some server) :
    PairingSession.secretFor sha256 finish connection =
      Crypto.pairingSecret sha256 client server finish.code := by
  simp only [PairingSession.secretFor, hread, hpeer, Crypto.ok_bind]

variable (hc : session.connection = some connection)
  (hread : loadCertificate finish.certificate = .ok client) (hclient : client.Holds cn ce)
  (hpeer : connection.peerCertificate = some server) (hserver : server.Holds sn se)
  (hwrite : finish.writeError = none)

include hc hread hclient hpeer hserver hwrite

theorem finishPairing_result_ok_iff :
    (finishPairing sha256 finish (some session)).result = .ok () ↔
      (∃ b₀ b₁ b₂, Crypto.HexCode finish.code b₀ b₁ b₂ ∧
        (sha256 (cn ++ ce ++ sn ++ se ++ [b₁, b₂])).first = b₀) ∧
      Acknowledged 4 (receiveAll connection.unread).1 := by
  have hsecret : PairingSession.secretFor sha256 finish connection = _ := secretFor_eq hread hpeer
  have hcode : ∀ d, Crypto.pairingSecret sha256 client server finish.code = .ok d ↔ _ :=
    fun d ↦ Crypto.pairingSecret_eq_ok_iff hclient hserver
  cases hs : Crypto.pairingSecret sha256 client server finish.code with
  | error e =>
    rw [finishPairing_refused hc (hsecret.trans hs)]
    refine iff_of_false nofun ?_
    rintro ⟨⟨b₀, b₁, b₂, hhex, hfirst⟩, -⟩
    cases hs.symm.trans ((hcode _).mpr ⟨b₀, b₁, b₂, hhex, rfl, hfirst⟩)
  | ok d =>
    obtain ⟨b₀, b₁, b₂, hhex, rfl, hfirst⟩ := (hcode d).mp hs
    rw [(finishPairing_eq finish).1,
      (PairingSession.finish_sent hc (hsecret.trans hs) hwrite).2]
    exact (and_iff_right ⟨b₀, b₁, b₂, hhex, hfirst⟩).symm

theorem finishPairing_succeeded
    (h : (finishPairing sha256 finish (some session)).result = .ok ()) :
    (finishPairing sha256 finish (some session)).state = none ∧
      ∃ b₀ b₁ b₂, Crypto.HexCode finish.code b₀ b₁ b₂ ∧
        (sha256 (cn ++ ce ++ sn ++ se ++ [b₁, b₂])).first = b₀ ∧
        (finishPairing sha256 finish (some session)).sent =
          [frame (Protocol.pairingSecret (sha256 (cn ++ ce ++ sn ++ se ++ [b₁, b₂])).toList)] := by
  obtain ⟨b₀, b₁, b₂, hhex, hfirst⟩ :=
    ((finishPairing_result_ok_iff hc hread hclient hpeer hserver hwrite).mp h).1
  have hs : Crypto.pairingSecret sha256 client server finish.code = .ok _ :=
    (Crypto.pairingSecret_eq_ok_iff hclient hserver).mpr ⟨b₀, b₁, b₂, hhex, rfl, hfirst⟩
  have hsent := (PairingSession.finish_sent hc ((secretFor_eq hread hpeer).trans hs) hwrite).1
  rw [(finishPairing_eq finish).1] at h
  refine ⟨by rw [finishPairing_of_ok h], b₀, b₁, b₂, hhex, hfirst, ?_⟩
  rw [(finishPairing_eq finish).2, hsent]

end Certificates

/-- A session that is configured outlasts the codes that are not sent. -/
theorem mistype_configured (pairing : Option PairingSession) {m : ℕ → Option Bytes}
    {mistyped : List FinishCall} {k : ℕ}
    (h : (newSession clientName options).Established start connection) (hm : Brings connection m)
    (hmistyped : ∀ call ∈ mistyped, ¬ call.Sends sha256 connection) (hk : k < 8)
    (hconf : ConfiguredAt m k) :
    let begun := startPairing clientName options start pairing
    ∃ session left, mistype sha256 mistyped begun.state = some session ∧
      session.connection = some left ∧ left.peerCertificate = connection.peerCertificate ∧
      (receiveAll left.unread).1 = (receiveAll connection.unread).1.drop (k + 1) ∧
      begun.sent = frame (Protocol.pairingRequest clientName) :: (answers m k).map frame := by
  intro begun
  obtain ⟨x, htook, hanswers, hstart⟩ := h.configured hm hk hconf
  have hok := congrArg CallOutcome.result hstart
  have hstate := congrArg CallOutcome.state hstart
  have hleft : x.connection.peerCertificate = connection.peerCertificate :=
    h.peer (congrArg PairingSession.connection hstate)
  have hstarted : begun = _ := startPairing_of_ok hok
  have hlast : mistype sha256 mistyped begun.state =
      some ((newSession clientName options).start start).state := by
    rw [hstarted]
    refine mistype_unsent (congrArg PairingSession.connection hstate) ?_
    intro call hcall hsends
    exact hmistyped call hcall ((FinishCall.sends_of_peer hleft).mp hsends)
  refine ⟨_, x.connection, hlast, congrArg PairingSession.connection hstate, hleft, ?_, ?_⟩
  · obtain ⟨rest, hr, hlen, -⟩ := hm.split hk.le hconf.1
    obtain ⟨-, ack, hack, -⟩ := hconf
    have hlength : (messages m (k + 1)).length = k + 1 := by
      rw [messages_succ hack, List.length_append, hlen]
      rfl
    have hunread : (receiveAll connection.unread).1 = _ := htook.unread
    rw [hunread, List.drop_left' hlength]
  · rw [hstarted, ← hanswers, answers_eq]
    exact (congrArg CallOutcome.sent hstart).trans htook.sent

/-- Pairing as a whole, from `startPairing` over any number of codes that are
not sent to a last one, with a TV that sends whatever it likes. Both calls
succeed if and only if the TV configures the session within eight messages and,
behind these, acknowledges the secret within four, all with status 200, and the
code belongs to the two certificates; then the TV has been sent the request, an
answer to each message that asks for one and the secret, and `pairing_` is
empty. -/
theorem pairing_succeeds_iff {m : ℕ → Option Bytes} {mistyped : List FinishCall}
    {client server : Crypto.Certificate} {cn ce sn se : Bytes}
    (h : (newSession clientName options).Established start connection)
    (hm : Brings connection m)
    (hmistyped : ∀ call ∈ mistyped, ¬ call.Sends sha256 connection)
    (hread : loadCertificate finish.certificate = .ok client) (hclient : client.Holds cn ce)
    (hpeer : connection.peerCertificate = some server) (hserver : server.Holds sn se)
    (hwrite : finish.writeError = none) :
    let begun := startPairing clientName options start pairing
    let last := finishPairing sha256 finish (mistype sha256 mistyped begun.state)
    ((begun.result = .ok () ∧ last.result = .ok ()) ↔
      (∃ k < 8, ConfiguredAt m k ∧
        Acknowledged 4 ((receiveAll connection.unread).1.drop (k + 1))) ∧
      ∃ b₀ b₁ b₂, Crypto.HexCode finish.code b₀ b₁ b₂ ∧
        (sha256 (cn ++ ce ++ sn ++ se ++ [b₁, b₂])).first = b₀) ∧
    (begun.result = .ok () → last.result = .ok () → last.state = none ∧
      ∃ k < 8, ConfiguredAt m k ∧
        begun.sent = frame (Protocol.pairingRequest clientName) :: (answers m k).map frame ∧
        ∃ b₀ b₁ b₂, Crypto.HexCode finish.code b₀ b₁ b₂ ∧
          (sha256 (cn ++ ce ++ sn ++ se ++ [b₁, b₂])).first = b₀ ∧
          last.sent = [frame (Protocol.pairingSecret
            (sha256 (cn ++ ce ++ sn ++ se ++ [b₁, b₂])).toList)]) := by
  intro begun last
  have hbegun : begun.result = .ok () ↔ ∃ k < 8, ConfiguredAt m k := by
    rw [← h.result_ok_iff hm]
    exact iff_of_eq (congrArg (· = _) startPairing_result_eq)
  have hlast : ∀ k < 8, ConfiguredAt m k → (last.result = .ok () ↔
      (∃ b₀ b₁ b₂, Crypto.HexCode finish.code b₀ b₁ b₂ ∧
        (sha256 (cn ++ ce ++ sn ++ se ++ [b₁, b₂])).first = b₀) ∧
      Acknowledged 4 ((receiveAll connection.unread).1.drop (k + 1))) := by
    intro k hk hconf
    obtain ⟨session, left, hl, hc, hleft, hreplies, -⟩ :=
      mistype_configured pairing h hm hmistyped hk hconf
    have heq : last = finishPairing sha256 finish (some session) :=
      congrArg (finishPairing sha256 finish) hl
    rw [← hreplies, heq]
    exact finishPairing_result_ok_iff hc hread hclient (hleft.trans hpeer) hserver hwrite
  refine ⟨⟨?_, ?_⟩, ?_⟩
  · rintro ⟨hok, hfinished⟩
    obtain ⟨k, hk, hconf⟩ := hbegun.mp hok
    obtain ⟨hcode, hack⟩ := (hlast k hk hconf).mp hfinished
    exact ⟨⟨k, hk, hconf, hack⟩, hcode⟩
  · rintro ⟨⟨k, hk, hconf, hack⟩, hcode⟩
    exact ⟨hbegun.mpr ⟨k, hk, hconf⟩, (hlast k hk hconf).mpr ⟨hcode, hack⟩⟩
  · intro hok hfinished
    obtain ⟨k, hk, hconf⟩ := hbegun.mp hok
    obtain ⟨session, left, hl, hc, hleft, -, hsent⟩ :=
      mistype_configured pairing h hm hmistyped hk hconf
    have heq : last = finishPairing sha256 finish (some session) :=
      congrArg (finishPairing sha256 finish) hl
    rw [heq] at hfinished ⊢
    obtain ⟨hnone, hsecret⟩ :=
      finishPairing_succeeded hc hread hclient (hleft.trans hpeer) hserver hwrite hfinished
    exact ⟨hnone, k, hk, hconf, hsent, hsecret⟩

end Flow

theorem pairing_succeeds_sample :
    let begun := startPairing [] {} (sampleStart (frame secretAck)) none
    let last := finishPairing (fun _ ↦ sampleDigest) (typed sampleCode)
      (mistype (fun _ ↦ sampleDigest) [typed [0x39]] begun.state)
    begun.result = .ok () ∧ last.result = .ok () ∧ last.state = none := by
  have h : (newSession [] {}).Established (sampleStart (frame secretAck))
      (sampleStart (frame secretAck)).connection := ⟨by decide +kernel, rfl, by decide⟩
  have hr : (receiveAll (sampleStart (frame secretAck)).connection.unread).1 =
      [(Protocol.pairingOuter 11 {}).data, (Protocol.pairingOuter 20 {}).data,
        (Protocol.pairingOuter 31 {}).data, secretAck] := by
    have h₁ : receive (sampleStart (frame secretAck)).connection.unread =
        (.ok (Protocol.pairingOuter 11 {}).data, frame (Protocol.pairingOuter 20 {}).data ++
          frame (Protocol.pairingOuter 31 {}).data ++ frame secretAck) := by decide +kernel
    have h₂ : receive (frame (Protocol.pairingOuter 20 {}).data ++
          frame (Protocol.pairingOuter 31 {}).data ++ frame secretAck) =
        (.ok (Protocol.pairingOuter 20 {}).data,
          frame (Protocol.pairingOuter 31 {}).data ++ frame secretAck) := by decide +kernel
    have h₃ : receive (frame (Protocol.pairingOuter 31 {}).data ++ frame secretAck) =
        (.ok (Protocol.pairingOuter 31 {}).data, frame secretAck) := by decide +kernel
    have h₄ : receive (frame secretAck) = (.ok secretAck, []) := by decide +kernel
    have h₅ : receive [] = (.error (.read .byte), []) := by decide +kernel
    rw [receiveAll_ok h₁, receiveAll_ok h₂, receiveAll_ok h₃, receiveAll_ok h₄,
      receiveAll_error h₅]
  have hm : Brings (sampleStart (frame secretAck)).connection fun i ↦
      [(Protocol.pairingOuter 11 {}).data, (Protocol.pairingOuter 20 {}).data,
        (Protocol.pairingOuter 31 {}).data, secretAck][i]? := by
    intro i _
    rw [hr]
  have hunsent : ∀ call ∈ [typed [0x39]],
      ¬ call.Sends (fun _ ↦ sampleDigest) (sampleStart (frame secretAck)).connection := by
    intro call hcall
    obtain rfl := List.mem_singleton.mp hcall
    rintro ⟨-, secret, hsecret⟩
    obtain ⟨e, he⟩ : ∃ e, PairingSession.secretFor (fun _ ↦ sampleDigest) (typed [0x39])
        (sampleStart (frame secretAck)).connection = .error e := ⟨_, rfl⟩
    cases he.symm.trans hsecret
  have hclient : clientCertificate.Holds [0x0c, 0xa1] [0x11] := ⟨rfl, by decide, by decide⟩
  have htv : tvCertificate.Holds [0x0c, 0x37] [0x03] := ⟨rfl, by decide, by decide⟩
  have hread : loadCertificate (typed sampleCode).certificate = .ok clientCertificate := rfl
  obtain ⟨hiff, hsent⟩ := pairing_succeeds_iff h hm hunsent hread hclient rfl htv rfl
  suffices hboth : _ from
    ⟨(hiff.mpr hboth).1, (hiff.mpr hboth).2, (hsent (hiff.mpr hboth).1 (hiff.mpr hboth).2).1⟩
  refine ⟨⟨2, by decide, ⟨?_, _, rfl, ?_, ?_⟩, ?_⟩, ?_⟩
  · intro i hi
    obtain rfl | rfl : i = 0 ∨ i = 1 := by omega
    · exact ⟨_, rfl, by decide +kernel⟩
    · exact ⟨_, rfl, by decide +kernel⟩
  · decide +kernel
  · decide +kernel
  · rw [hr]
    exact ⟨[], secretAck, by decide, List.prefix_rfl, by decide +kernel, by decide, by decide +kernel⟩
  · exact ⟨0x93, 0x12, 0x34, ⟨_, _, _, _, _, _, rfl, by decide +kernel, by decide +kernel,
      by decide +kernel⟩, by decide +kernel⟩

end AndroidTvRemote
