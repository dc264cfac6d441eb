import AndroidTvRemote.Pairing

namespace AndroidTvRemote

open Wire SyncTlsConnection

/-- Among the replies of the TV, each with status 200, one acknowledges the
secret before `steps` are read. -/
def Acknowledged (steps : ℕ) (replies : List Bytes) : Prop :=
  ∃ before ack, before.length < steps ∧ before ++ [ack] <+: replies ∧
    (∀ message ∈ before ++ [ack], Protocol.pairingStatus message = some 200) ∧
    (∀ message ∈ before, Protocol.hasSecretAck message = false) ∧
    Protocol.hasSecretAck ack = true

theorem not_acknowledged_nil (steps : ℕ) : ¬ Acknowledged steps [] := by
  intro h'
  obtain ⟨before, ack, -, h, -⟩ := h'
  simp at h

theorem not_acknowledged_zero (replies : List Bytes) : ¬ Acknowledged 0 replies := by
  intro h'
  obtain ⟨before, ack, h, -⟩ := h'
  omega

theorem acknowledged_cons (steps : ℕ) (message : Bytes) (replies : List Bytes) :
    Acknowledged (steps + 1) (message :: replies) ↔
      Protocol.pairingStatus message = some 200 ∧
        (Protocol.hasSecretAck message = true ∨
          Protocol.hasSecretAck message = false ∧ Acknowledged steps replies) := by
  constructor
  · intro h
    obtain ⟨before, ack, hlen, hpre, hstatus, hno, hack⟩ := h
    cases before with
    | nil =>
      obtain ⟨rfl, -⟩ := List.cons_prefix_cons.mp hpre
      exact ⟨hstatus _ (List.mem_singleton_self _), .inl hack⟩
    | cons first before =>
      rw [List.cons_append, List.cons_prefix_cons] at hpre
      obtain ⟨rfl, hpre⟩ := hpre
      obtain ⟨hfirst, hstatus⟩ := List.forall_mem_cons.mp hstatus
      obtain ⟨hnot, hno⟩ := List.forall_mem_cons.mp hno
      have hlen' : before.length < steps := by simpa using hlen
      exact ⟨hfirst, .inr ⟨hnot, before, ack, hlen', hpre, hstatus, hno, hack⟩⟩
  · rintro ⟨hfirst, hack | ⟨hnot, before, ack, hlen, hpre, hstatus, hno, hack⟩⟩
    · refine ⟨[], message, by simp, ?_, ?_, by simp, hack⟩
      · exact List.cons_prefix_cons.mpr ⟨rfl, List.nil_prefix⟩
      · simpa using hfirst
    · refine ⟨message :: before, ack, by simpa using hlen, ?_, ?_, ?_, hack⟩
      · exact List.cons_prefix_cons.mpr ⟨rfl, hpre⟩
      · exact List.forall_mem_cons.mpr ⟨hfirst, hstatus⟩
      · exact List.forall_mem_cons.mpr ⟨hnot, hno⟩

namespace Exchange

theorem receive_of_ok {x : Exchange} {payload unread : Bytes}
    (h : SyncTlsConnection.receive x.connection.unread = (.ok payload, unread)) :
    receive.run x = .ok payload
      { x with
        connection := { x.connection with unread }
        received := x.received ++ [payload] } := by
  simp only [EStateM.run, receive, h]

theorem receive_of_error {x : Exchange} {failure : Failure} {unread : Bytes}
    (h : SyncTlsConnection.receive x.connection.unread = (.error failure, unread)) :
    ∃ e unread, receive.run x =
      .error e { x with connection := { x.connection with unread } } := by
  cases failure with
  | read buffer =>
    refine ⟨.systemError x.connection.readError, [], ?_⟩
    simp only [EStateM.run, receive, h]
  | runtimeError what =>
    refine ⟨.runtimeError what, unread, ?_⟩
    simp only [EStateM.run, receive, h]

theorem requirePairingStatusOk_of_ok {message : Bytes} (x : Exchange)
    (h : Protocol.pairingStatus message = some 200) :
    (requirePairingStatusOk message).run x = .ok () x := by
  simp [requirePairingStatusOk, h]

theorem requirePairingStatusOk_of_error {message : Bytes} (x : Exchange)
    (h : Protocol.pairingStatus message ≠ some 200) :
    (requirePairingStatusOk message).run x = .error
      (.runtimeError "Android TV pairing protocol returned an error status") x := by
  simp [requirePairingStatusOk, h]

theorem awaitSecretAck_spec (steps : ℕ) (x : Exchange) :
    (Acknowledged steps (receiveAll x.connection.unread).1 ∧
      ∃ x', (awaitSecretAck steps).run x = .ok true x' ∧ x'.sent = x.sent) ∨
    (¬ Acknowledged steps (receiveAll x.connection.unread).1 ∧
      ∃ x', ((awaitSecretAck steps).run x = .ok false x' ∨
        ∃ e, (awaitSecretAck steps).run x = .error e x') ∧ x'.sent = x.sent) := by
  induction steps generalizing x with
  | zero => exact .inr ⟨not_acknowledged_zero _, x, .inl rfl, rfl⟩
  | succ steps ih =>
    simp only [awaitSecretAck, EStateM.run_bind]
    obtain ⟨message, unread, -, hr⟩ | ⟨failure, unread, -, hr⟩ :=
      receive_cases x.connection.unread
    · simp only [receiveAll_ok hr, receive_of_ok hr, acknowledged_cons]
      by_cases hstatus : Protocol.pairingStatus message = some 200
      · simp only [requirePairingStatusOk_of_ok _ hstatus]
        cases hack : Protocol.hasSecretAck message with
        | true => exact .inl ⟨⟨hstatus, .inl rfl⟩, _, rfl, rfl⟩
        | false =>
          obtain ⟨hacknowledged, hrest⟩ | ⟨hnot, hrest⟩ := ih
            { x with connection := { x.connection with unread }, received := x.received ++ [message] }
          · exact .inl ⟨⟨hstatus, .inr ⟨rfl, hacknowledged⟩⟩, hrest⟩
          · refine .inr ⟨?_, hrest⟩
            rintro ⟨-, h | ⟨-, h⟩⟩
            · cases h
            · exact hnot h
      · simp only [requirePairingStatusOk_of_error _ hstatus]
        exact .inr ⟨fun h ↦ hstatus h.1, _, .inr ⟨_, rfl⟩, rfl⟩
    · obtain ⟨e, unread, he⟩ := receive_of_error hr
      simp only [receiveAll_error hr, he]
      exact .inr ⟨not_acknowledged_nil _, _, .inr ⟨e, rfl⟩, rfl⟩

theorem send_of_ok (connection : Connection) (writeErrors : List (Option String))
    (sent received : List Bytes) (payload : Bytes) :
    (send payload).run ⟨connection, none :: writeErrors, sent, received⟩ =
      .ok () ⟨connection, writeErrors, sent ++ [frame payload], received⟩ := rfl

theorem send_of_error (connection : Connection) (what : String)
    (writeErrors : List (Option String)) (sent received : List Bytes) (payload : Bytes) :
    (send payload).run ⟨connection, some what :: writeErrors, sent, received⟩ =
      .error (.systemError what) ⟨connection, writeErrors, sent, received⟩ := rfl

end Exchange

section Calls

variable {sha256 : Bytes → Crypto.Digest} {call : FinishCall} {session : PairingSession}
variable {connection : Connection}

def FinishCall.Sends (sha256 : Bytes → Crypto.Digest) (call : FinishCall)
    (connection : Connection) : Prop :=
  call.writeError = none ∧ ∃ secret, PairingSession.secretFor sha256 call connection = .ok secret

theorem finishPairing_of_ok (h : (session.finish sha256 call).result = .ok ()) :
    finishPairing sha256 call (some session) =
      { session.finish sha256 call with state := none } := by
  simp only [finishPairing, h]

theorem finishPairing_of_error {e : Exception} (h : (session.finish sha256 call).result = .error e) :
    finishPairing sha256 call (some session) =
      { session.finish sha256 call with state := some (session.finish sha256 call).state } := by
  simp only [finishPairing, h]

namespace PairingSession

theorem finish_refused {e : Exception} (hc : session.connection = some connection)
    (h : secretFor sha256 call connection = .error e) :
    session.finish sha256 call = { result := .error e, state := session } := by
  simp only [finish, hc, h]

theorem finish_unwritten {secret : Crypto.Digest} {what : String}
    (hc : session.connection = some connection)
    (h : secretFor sha256 call connection = .ok secret) (hw : call.writeError = some what) :
    session.finish sha256 call = { result := .error (.systemError what), state := session } := by
  simp only [finish, hc, h, hw, EStateM.run_bind, Exchange.send_of_error]
  cases session
  cases hc
  rfl

theorem finish_sent {secret : Crypto.Digest} (hc : session.connection = some connection)
    (h : secretFor sha256 call connection = .ok secret) (hw : call.writeError = none) :
    (session.finish sha256 call).sent = [frame (Protocol.pairingSecret secret.toList)] ∧
      ((session.finish sha256 call).result = .ok () ↔
        Acknowledged 4 (receiveAll connection.unread).1) := by
  simp only [finish, hc, h, hw, EStateM.run_bind, Exchange.send_of_ok, List.nil_append]
  obtain ⟨hack, x, hx, hsent⟩ | ⟨hnot, x, hx | ⟨e, hx⟩, hsent⟩ := Exchange.awaitSecretAck_spec 4
    ⟨connection, [], [frame (Protocol.pairingSecret secret.toList)], []⟩
  · rw [hx]
    exact ⟨hsent, iff_of_true rfl hack⟩
  · rw [hx]
    exact ⟨hsent, iff_of_false nofun hnot⟩
  · rw [hx]
    exact ⟨hsent, iff_of_false nofun hnot⟩

end PairingSession

theorem finishPairing_refused {e : Exception} (hc : session.connection = some connection)
    (h : PairingSession.secretFor sha256 call connection = .error e) :
    finishPairing sha256 call (some session) = { result := .error e, state := some session } := by
  have hf := PairingSession.finish_refused hc h
  rw [finishPairing_of_error (congrArg CallOutcome.result hf), hf]

/-- A code that is refused, or a write that fails, leaves everything as it was. -/
theorem finishPairing_unsent (hc : session.connection = some connection)
    (h : ¬ call.Sends sha256 connection) :
    ∃ e, finishPairing sha256 call (some session) =
      { result := .error e, state := some session } := by
  cases hs : PairingSession.secretFor sha256 call connection with
  | error e => exact ⟨e, finishPairing_refused hc hs⟩
  | ok secret =>
    cases hw : call.writeError with
    | none => exact absurd ⟨hw, secret, hs⟩ h
    | some what =>
      have hf := PairingSession.finish_unwritten hc hs hw
      refine ⟨.systemError what, ?_⟩
      rw [finishPairing_of_error (congrArg CallOutcome.result hf), hf]

/-- A secret that is sent uses the session up on its acknowledgement only. -/
theorem finishPairing_sent (hc : session.connection = some connection)
    (h : call.Sends sha256 connection) :
    (∃ secret, (finishPairing sha256 call (some session)).sent =
      [frame (Protocol.pairingSecret secret)]) ∧
    ((finishPairing sha256 call (some session)).state = none ↔
      Acknowledged 4 (receiveAll connection.unread).1) := by
  obtain ⟨hw, secret, hs⟩ := h
  obtain ⟨hsent, hiff⟩ := PairingSession.finish_sent hc hs hw
  cases hr : (session.finish sha256 call).result with
  | ok u =>
    rw [finishPairing_of_ok hr]
    exact ⟨⟨_, hsent⟩, iff_of_true rfl (hiff.mp hr)⟩
  | error e =>
    rw [finishPairing_of_error hr]
    refine ⟨⟨_, hsent⟩, iff_of_false nofun ?_⟩
    intro hack
    cases hr.symm.trans (hiff.mpr hack)

end Calls

inductive Operation
  | startPairing (call : StartCall)
  | finishPairing (call : FinishCall)
  deriving DecidableEq, Repr

def Operation.isFinish : Operation → Bool
  | startPairing _ => false
  | finishPairing _ => true

section Operations

variable (sha256 : Bytes → Crypto.Digest) (clientName : Bytes) (options : Options)

def perform (operation : Operation) (pairing : Option PairingSession) :
    CallOutcome (Option PairingSession) :=
  match operation with
  | .startPairing call => startPairing clientName options call pairing
  | .finishPairing call => finishPairing sha256 call pairing

def performs : List Operation → Option PairingSession →
    List (Operation × CallOutcome (Option PairingSession))
  | [], _ => []
  | operation :: operations, pairing =>
    let outcome := perform sha256 clientName options operation pairing
    (operation, outcome) :: performs operations outcome.state

/-- A `startPairing` that succeeds. -/
def Operation.Renews (operation : Operation) : Prop :=
  ∃ call, operation = .startPairing call ∧
    (AndroidTvRemote.startPairing clientName options call none).result = .ok ()

variable {clientName options}

theorem startPairing_result (call : StartCall) (pairing : Option PairingSession) :
    (startPairing clientName options call pairing).result =
      (startPairing clientName options call none).result := by
  simp only [startPairing]
  split
  · rfl
  · rfl

theorem startPairing_failed {call : StartCall} (pairing : Option PairingSession)
    (h : ¬ (Operation.startPairing call).Renews clientName options) :
    (startPairing clientName options call pairing).state = pairing := by
  have hfail : (startPairing clientName options call pairing).result ≠ .ok () := by
    rw [startPairing_result]
    exact fun hok ↦ h ⟨call, rfl, hok⟩
  simp only [startPairing] at hfail ⊢
  split at hfail
  next e he => rw [he]
  next he => exact absurd he hfail

theorem PairingSession.start_succeeded {call : StartCall} {session : PairingSession}
    (h : (session.start call).result = .ok ()) :
    ∃ connection, (session.start call).state.connection = some connection := by
  unfold start at h ⊢
  cases hopen : session.openConnection call with
  | error e =>
    simp only [hopen] at h
    cases h
  | ok connection =>
    cases hconnect : call.connectError with
    | some what =>
      simp only [hopen, hconnect] at h
      cases h
    | none =>
      simp only [hopen, hconnect] at h ⊢
      split at h
      next e x hx => cases h
      next configured x hx =>
        cases configured with
        | true => exact ⟨_, rfl⟩
        | false => cases h

theorem startPairing_succeeded {call : StartCall} {pairing : Option PairingSession}
    (h : (startPairing clientName options call pairing).result = .ok ()) :
    ∃ session connection, (startPairing clientName options call pairing).state = some session ∧
      session.connection = some connection := by
  simp only [startPairing] at h ⊢
  split at h
  next e he => cases h.symm.trans he
  next he =>
    obtain ⟨connection, hc⟩ := PairingSession.start_succeeded he
    rw [he]
    exact ⟨_, connection, rfl, hc⟩

def Sent (o : Operation × CallOutcome (Option PairingSession)) : Prop :=
  o.1.isFinish = true ∧ o.2.sent ≠ []

def Refused (o : Operation × CallOutcome (Option PairingSession)) : Prop :=
  o.1.isFinish = true → (∃ e, o.2.result = .error e) ∧ o.2.sent = []

def secretsSent (outcomes : List (Operation × CallOutcome (Option PairingSession))) :
    List Bytes :=
  outcomes.flatMap fun o ↦ if o.1.isFinish then o.2.sent else []

/-- At most one secret goes out, and the session ends with the call that sends
it. -/
structure SentOnce (outcomes : List (Operation × CallOutcome (Option PairingSession))) : Prop where
  atMostOne : (secretsSent outcomes).length ≤ 1
  cleared : ∀ o ∈ outcomes, Sent o → o.2.state = none
  refused : outcomes.Pairwise fun o o' ↦ Sent o → Refused o'

theorem sentOnce_nil : SentOnce [] :=
  ⟨Nat.zero_le 1, fun _ h ↦ absurd h List.not_mem_nil, .nil⟩

variable {o : Operation × CallOutcome (Option PairingSession)}
variable {outcomes : List (Operation × CallOutcome (Option PairingSession))}

theorem not_sent_startPairing (call : StartCall) (outcome : CallOutcome (Option PairingSession)) :
    ¬ Sent (.startPairing call, outcome) := fun h ↦ Bool.false_ne_true h.1

theorem secretsSent_of_not_sent (h : ¬ Sent o) :
    secretsSent (o :: outcomes) = secretsSent outcomes := by
  cases hf : o.1.isFinish with
  | false => simp [secretsSent, hf]
  | true =>
    have hnil : o.2.sent = [] := by
      by_contra hne
      exact h ⟨hf, hne⟩
    simp [secretsSent, hnil]

theorem sentOnce_cons_of_not_sent (h : ¬ Sent o) : SentOnce (o :: outcomes) ↔ SentOnce outcomes := by
  constructor
  · intro h'
    obtain ⟨hone, hcleared, hrefused⟩ := h'
    rw [secretsSent_of_not_sent h] at hone
    exact ⟨hone, (List.forall_mem_cons.mp hcleared).2, (List.pairwise_cons.mp hrefused).2⟩
  · intro h'
    obtain ⟨hone, hcleared, hrefused⟩ := h'
    refine ⟨?_, ?_, ?_⟩
    · rwa [secretsSent_of_not_sent h]
    · exact List.forall_mem_cons.mpr ⟨fun hs ↦ absurd hs h, hcleared⟩
    · exact List.pairwise_cons.mpr ⟨fun o' _ hs ↦ absurd hs h, hrefused⟩

theorem secretsSent_of_refused (h : ∀ o ∈ outcomes, Refused o) : secretsSent outcomes = [] := by
  refine List.flatMap_eq_nil_iff.mpr ?_
  intro o ho
  cases hf : o.1.isFinish with
  | false => simp
  | true => simp [(h o ho hf).2]

theorem not_sent_of_refused (h : Refused o) : ¬ Sent o := by
  intro h'
  obtain ⟨hf, hne⟩ := h'
  exact hne (h hf).2

theorem sentOnce_cons_of_refused {message : Bytes} (hsent : o.2.sent = [message])
    (hstate : o.2.state = none) (h : ∀ o ∈ outcomes, Refused o) : SentOnce (o :: outcomes) := by
  refine ⟨?_, ?_, ?_⟩
  · have hnil := secretsSent_of_refused h
    simp only [secretsSent, List.flatMap_cons, List.length_append] at hnil ⊢
    rw [hnil]
    split
    · rw [hsent]
      exact le_rfl
    · exact Nat.zero_le _
  · exact List.forall_mem_cons.mpr
      ⟨fun _ ↦ hstate, fun o' ho' hs ↦ absurd hs (not_sent_of_refused (h o' ho'))⟩
  · refine List.pairwise_cons.mpr ⟨fun o' ho' _ ↦ h o' ho', ?_⟩
    refine List.Pairwise.imp_of_mem (fun ho _ _ hs ↦ ?_) (List.pairwise_of_forall fun _ _ ↦ trivial)
    exact absurd hs (not_sent_of_refused (h _ ho))

theorem refused_of_none {operations : List Operation}
    (h : ∀ operation ∈ operations, ¬ operation.Renews clientName options) :
    ∀ o ∈ performs sha256 clientName options operations none, Refused o := by
  induction operations with
  | nil => exact fun _ ho ↦ absurd ho List.not_mem_nil
  | cons operation operations ih =>
    obtain ⟨hfirst, hrest⟩ := List.forall_mem_cons.mp h
    cases operation with
    | startPairing call =>
      have hstate := startPairing_failed none hfirst
      refine List.forall_mem_cons.mpr ⟨fun hf ↦ ?_, ?_⟩
      · cases hf
      · simp only [perform, hstate]
        exact ih hrest
    | finishPairing call =>
      exact List.forall_mem_cons.mpr ⟨fun _ ↦ ⟨⟨_, rfl⟩, rfl⟩, ih hrest⟩

theorem exists_sends_cons {sha256 : Bytes → Crypto.Digest} {call : FinishCall}
    {connection : Connection} (h : ¬ call.Sends sha256 connection) (operations : List Operation) :
    (∃ c, .finishPairing c ∈ Operation.finishPairing call :: operations ∧
        c.Sends sha256 connection) ↔
      ∃ c, .finishPairing c ∈ operations ∧ c.Sends sha256 connection := by
  constructor
  · intro h'
    obtain ⟨c, hmem, hc⟩ := h'
    obtain heq | hmem := List.mem_cons.mp hmem
    · cases heq
      exact absurd hc h
    · exact ⟨c, hmem, hc⟩
  · intro h'
    obtain ⟨c, hmem, hc⟩ := h'
    exact ⟨c, List.mem_cons_of_mem _ hmem, hc⟩

theorem sentOnce_iff {session : PairingSession} {connection : Connection}
    (hc : session.connection = some connection) {operations : List Operation}
    (h : ∀ operation ∈ operations, ¬ operation.Renews clientName options) :
    SentOnce (performs sha256 clientName options operations (some session)) ↔
      ((∃ call, .finishPairing call ∈ operations ∧ call.Sends sha256 connection) →
        Acknowledged 4 (receiveAll connection.unread).1) := by
  induction operations with
  | nil => exact iff_of_true sentOnce_nil fun ⟨_, hmem, _⟩ ↦ absurd hmem List.not_mem_nil
  | cons operation operations ih =>
    obtain ⟨hfirst, hrest⟩ := List.forall_mem_cons.mp h
    simp only [performs]
    cases operation with
    | startPairing call =>
      have hstate := startPairing_failed (some session) hfirst
      rw [sentOnce_cons_of_not_sent (not_sent_startPairing _ _)]
      simp only [perform, hstate, ih hrest, List.mem_cons, reduceCtorEq, false_or]
    | finishPairing call =>
      by_cases hsends : call.Sends sha256 connection
      · obtain ⟨⟨secret, hsent⟩, hcleared⟩ := finishPairing_sent hc hsends
        constructor
        · intro honce _
          refine hcleared.mp (honce.cleared _ List.mem_cons_self ⟨rfl, ?_⟩)
          simp only [perform, hsent]
          exact List.cons_ne_nil _ _
        · intro hack
          have hstate := hcleared.mpr (hack ⟨call, List.mem_cons_self, hsends⟩)
          refine sentOnce_cons_of_refused hsent hstate ?_
          simp only [perform, hstate]
          exact refused_of_none sha256 hrest
      · obtain ⟨e, hcall⟩ := finishPairing_unsent hc hsends
        rw [sentOnce_cons_of_not_sent fun hs ↦ hs.2 (congrArg CallOutcome.sent hcall)]
        simp only [perform, hcall, ih hrest, exists_sends_cons hsends]

theorem finishPairing_sends_secrets (call : FinishCall) (pairing : Option PairingSession) :
    ∀ message ∈ (finishPairing sha256 call pairing).sent,
      ∃ secret, message = frame (Protocol.pairingSecret secret) := by
  intro message hmem
  cases pairing with
  | none => exact absurd hmem List.not_mem_nil
  | some session =>
    cases hc : session.connection with
    | none =>
      simp only [finishPairing, PairingSession.finish, hc] at hmem
      exact absurd hmem List.not_mem_nil
    | some connection =>
      by_cases hsends : call.Sends sha256 connection
      · obtain ⟨⟨secret, hsent⟩, -⟩ := finishPairing_sent hc hsends
        rw [hsent] at hmem
        exact ⟨secret, List.mem_singleton.mp hmem⟩
      · obtain ⟨e, hcall⟩ := finishPairing_unsent hc hsends
        rw [hcall] at hmem
        exact absurd hmem List.not_mem_nil

theorem performs_send_secrets (operations : List Operation) (pairing : Option PairingSession) :
    ∀ o ∈ performs sha256 clientName options operations pairing, o.1.isFinish = true →
      ∀ message ∈ o.2.sent, ∃ secret, message = frame (Protocol.pairingSecret secret) := by
  induction operations generalizing pairing with
  | nil => exact fun _ ho ↦ absurd ho List.not_mem_nil
  | cons operation operations ih =>
    refine List.forall_mem_cons.mpr ⟨fun hf ↦ ?_, ih _⟩
    cases operation with
    | startPairing call => exact absurd hf Bool.false_ne_true
    | finishPairing call => exact finishPairing_sends_secrets sha256 call pairing

/-- In the session of a successful `startPairing` the secret is sent at most
once, and the call that sends it uses the session up whatever its outcome, if
and only if no code is accepted and written or the TV acknowledges the secret
in one of its first four replies, all with status 200. -/
theorem secret_sent_once_iff {call : StartCall} {pairing : Option PairingSession}
    (h : (startPairing clientName options call pairing).result = .ok ()) :
    ∃ session connection,
      (startPairing clientName options call pairing).state = some session ∧
      session.connection = some connection ∧
      ∀ operations, (∀ operation ∈ operations, ¬ operation.Renews clientName options) →
        (∀ o ∈ performs sha256 clientName options operations (some session),
          o.1.isFinish = true →
            ∀ message ∈ o.2.sent, ∃ secret, message = frame (Protocol.pairingSecret secret)) ∧
        (SentOnce (performs sha256 clientName options operations (some session)) ↔
          ((∃ call, .finishPairing call ∈ operations ∧ call.Sends sha256 connection) →
            Acknowledged 4 (receiveAll connection.unread).1)) := by
  obtain ⟨session, connection, hs, hc⟩ := startPairing_succeeded h
  refine ⟨session, connection, hs, hc, fun operations hops ↦ ⟨?_, ?_⟩⟩
  · exact performs_send_secrets sha256 operations (some session)
  · exact sentOnce_iff sha256 hc hops

end Operations

section Sample

def clientCertificate : Crypto.Certificate := { publicKey := .rsa [0x0c, 0xa1] [0x11] }

def tvCertificate : Crypto.Certificate := { publicKey := .rsa [0x0c, 0x37] [0x03] }

def sampleDigest : Crypto.Digest :=
  #v[0x93, 0x02, 0x85, 0x18, 0x00, 0x27, 0x72, 0xbe, 0xde, 0x2b, 0xe2, 0x42, 0x96, 0x94, 0x7b, 0x8e,
    0x15, 0x19, 0x1b, 0xc8, 0xa1, 0x37, 0xe9, 0xff, 0xa0, 0x6b, 0xcd, 0xca, 0x56, 0x81, 0x95, 0x8f]

def sampleCode : Bytes := [0x39, 0x33, 0x31, 0x32, 0x33, 0x34]

def typed (code : Bytes) : FinishCall :=
  { code, certificate := { parsed := some clientCertificate } }

def sampleStart (reply : Bytes) : StartCall where
  connection :=
    { unread := frame (Protocol.pairingOuter 11 {}).data ++
        frame (Protocol.pairingOuter 20 {}).data ++ frame (Protocol.pairingOuter 31 {}).data ++ reply
      peerCertificate := some tvCertificate }

def sampleSession (reply : Bytes) : PairingSession where
  clientName := []
  certificateFile := ""
  privateKeyFile := ""
  connection := some { unread := reply, peerCertificate := some tvCertificate }

def secretAck : Bytes := (Protocol.pairingOuter 41 {}).data

def badSecret : Bytes := (Writer.varintField (Writer.varintField {} 1 2) 2 402).data

theorem secret_sent_once_acknowledged :
    (startPairing [] {} (sampleStart (frame secretAck)) none).result = .ok () ∧
      (startPairing [] {} (sampleStart (frame secretAck)) none).state =
        some (sampleSession (frame secretAck)) ∧
      SentOnce (performs (fun _ ↦ sampleDigest) [] {}
        [.finishPairing (typed [0x39]), .finishPairing (typed sampleCode),
          .finishPairing (typed sampleCode)] (some (sampleSession (frame secretAck)))) := by
  have hok : (startPairing [] {} (sampleStart (frame secretAck)) none).result = .ok () := by
    decide +kernel
  have hstate : (startPairing [] {} (sampleStart (frame secretAck)) none).state =
      some (sampleSession (frame secretAck)) := by decide +kernel
  have hreceive : receive (frame secretAck) = (.ok secretAck, []) := by decide +kernel
  obtain ⟨session, connection, hs, hc, hall⟩ := secret_sent_once_iff (fun _ ↦ sampleDigest) hok
  obtain rfl := Option.some.inj (hs.symm.trans hstate)
  obtain rfl := Option.some.inj hc
  refine ⟨hok, hstate, (hall _ ?_).2.mpr fun _ ↦ ⟨[], secretAck, by decide, ?_, ?_, ?_, ?_⟩⟩
  · rintro operation hmem ⟨call, rfl, -⟩
    simp at hmem
  · rw [receiveAll_ok hreceive]
    exact List.cons_prefix_cons.mpr ⟨rfl, List.nil_prefix⟩
  · decide +kernel
  · exact fun _ h ↦ absurd h List.not_mem_nil
  · decide +kernel

/-- The TV answers the secret with an error status: the session stays, and the
next call sends the secret again. -/
theorem secret_sent_twice :
    (startPairing [] {} (sampleStart (frame badSecret)) none).result = .ok () ∧
      (startPairing [] {} (sampleStart (frame badSecret)) none).state =
        some (sampleSession (frame badSecret)) ∧
      secretsSent (performs (fun _ ↦ sampleDigest) [] {}
        [.finishPairing (typed sampleCode), .finishPairing (typed sampleCode)]
        (some (sampleSession (frame badSecret)))) =
          [frame (Protocol.pairingSecret sampleDigest.toList),
            frame (Protocol.pairingSecret sampleDigest.toList)] ∧
      ¬ SentOnce (performs (fun _ ↦ sampleDigest) [] {}
        [.finishPairing (typed sampleCode), .finishPairing (typed sampleCode)]
        (some (sampleSession (frame badSecret)))) := by
  have hsecrets : secretsSent (performs (fun _ ↦ sampleDigest) [] {}
      [.finishPairing (typed sampleCode), .finishPairing (typed sampleCode)]
      (some (sampleSession (frame badSecret)))) =
        [frame (Protocol.pairingSecret sampleDigest.toList),
          frame (Protocol.pairingSecret sampleDigest.toList)] := by decide +kernel
  refine ⟨by decide +kernel, by decide +kernel, hsecrets, fun h ↦ ?_⟩
  have hone := h.atMostOne
  rw [hsecrets] at hone
  exact absurd hone (by decide)

end Sample

section Rejections

variable (sha256 : Bytes → Crypto.Digest) {clientName : Bytes} {options : Options}

theorem rejected_codes_leave_session {session : PairingSession} {connection : Connection}
    {server : Crypto.Certificate} {sn se : Bytes} (hc : session.connection = some connection)
    (hpeer : connection.peerCertificate = some server) (hserver : server.Holds sn se)
    {calls : List FinishCall}
    (hcalls : ∀ call ∈ calls, ∃ client cn ce e, loadCertificate call.certificate = .ok client ∧
      client.Holds cn ce ∧ Crypto.pairingSecret sha256 client server call.code = .error e)
    (call : FinishCall) :
    ∃ rejections : List (CallOutcome (Option PairingSession)),
      rejections.length = calls.length ∧
      (∀ rejection ∈ rejections, ∃ what, rejection =
        { result := .error (.invalidArgument what)
          state := some session, sent := [], received := [] }) ∧
      (performs sha256 clientName options ((calls ++ [call]).map .finishPairing)
        (some session)).map Prod.snd =
          rejections ++ [finishPairing sha256 call (some session)] := by
  induction calls with
  | nil => exact ⟨[], rfl, fun _ h ↦ absurd h List.not_mem_nil, rfl⟩
  | cons first calls ih =>
    obtain ⟨⟨client, cn, ce, e, hload, hclient, hreject⟩, hcalls⟩ := List.forall_mem_cons.mp hcalls
    obtain ⟨what, rfl⟩ := Crypto.pairingSecret_error hclient hserver hreject
    obtain ⟨rejections, hlen, hall, hrest⟩ := ih hcalls
    have hsecret : PairingSession.secretFor sha256 first connection =
        .error (.invalidArgument what) := by
      simp only [PairingSession.secretFor, hload, hpeer, Crypto.ok_bind, hreject]
    have hfirst := finishPairing_refused hc hsecret
    refine ⟨⟨.error (.invalidArgument what), some session, [], []⟩ :: rejections, ?_, ?_, ?_⟩
    · rw [List.length_cons, List.length_cons, hlen]
    · exact List.forall_mem_cons.mpr ⟨⟨what, rfl⟩, hall⟩
    · simp only [List.cons_append, List.map_cons, performs, perform, hfirst, hrest]

end Rejections

def typos : List FinishCall :=
  [typed [0x39, 0x33], typed [0x39, 0x33, 0x31, 0x32, 0x33, 0x47],
    typed [0x30, 0x33, 0x31, 0x32, 0x33, 0x34]]

theorem rejected_codes_leave_session_typos :
    ∃ rejections : List (CallOutcome (Option PairingSession)),
      rejections.length = typos.length ∧
      (∀ rejection ∈ rejections, ∃ what, rejection =
        { result := .error (.invalidArgument what)
          state := some (sampleSession (frame secretAck)), sent := [], received := [] }) ∧
      (performs (fun _ ↦ sampleDigest) [] {}
        ((typos ++ [typed sampleCode]).map .finishPairing)
        (some (sampleSession (frame secretAck)))).map Prod.snd =
          rejections ++ [finishPairing (fun _ ↦ sampleDigest) (typed sampleCode)
            (some (sampleSession (frame secretAck)))] := by
  have hclient : clientCertificate.Holds [0x0c, 0xa1] [0x11] := ⟨rfl, by decide, by decide⟩
  have hserver : tvCertificate.Holds [0x0c, 0x37] [0x03] := ⟨rfl, by decide, by decide⟩
  have hc : (sampleSession (frame secretAck)).connection =
      some { unread := frame secretAck, peerCertificate := some tvCertificate } := rfl
  have hcalls : ∀ call ∈ typos, ∃ client cn ce e, loadCertificate call.certificate = .ok client ∧
      client.Holds cn ce ∧ Crypto.pairingSecret (fun _ ↦ sampleDigest) client tvCertificate
        call.code = .error e := by
    intro call hmem
    simp only [typos, List.mem_cons, List.not_mem_nil, or_false] at hmem
    obtain rfl | rfl | rfl := hmem
    · exact ⟨clientCertificate, _, _, _, rfl, hclient, rfl⟩
    · exact ⟨clientCertificate, _, _, _, rfl, hclient, rfl⟩
    · exact ⟨clientCertificate, _, _, _, rfl, hclient, rfl⟩
  exact rejected_codes_leave_session (fun _ ↦ sampleDigest) hc rfl hserver hcalls (typed sampleCode)

end AndroidTvRemote
