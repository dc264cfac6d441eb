import AndroidTvRemote.PairingCalls

namespace AndroidTvRemote

open Wire SyncTlsConnection

namespace Pairing

def Accepts (message : Bytes) : Prop := findVarint message 2 = some 200

/-- A configuration acknowledgement, and nothing that is answered before it. -/
def Configures (message : Bytes) : Prop :=
  hasField message 31 = true ∧ hasField message 11 = false ∧ hasField message 20 = false

instance (message : Bytes) : Decidable (Accepts message) := inferInstanceAs (Decidable (_ = _))

instance (message : Bytes) : Decidable (Configures message) := inferInstanceAs (Decidable (_ ∧ _))

/-- What a message of the TV is answered with. -/
def answer (message : Bytes) : Option Bytes :=
  if hasField message 11 then some Protocol.pairingOptions
  else if hasField message 20 then some Protocol.pairingConfiguration
  else none

/-- A message the loop goes on after. -/
def Passes (message : Bytes) : Prop := Accepts message ∧ ¬ Configures message

instance (message : Bytes) : Decidable (Passes message) := inferInstanceAs (Decidable (_ ∧ _))

end Pairing

open Pairing

namespace Exchange

def Writes (x : Exchange) : Prop := ∀ e ∈ x.writeErrors, e = none

structure Took (x : Exchange) (messages : List Bytes) (x' : Exchange) : Prop where
  received : x'.received = x.received ++ messages
  sent : x'.sent = x.sent ++ (messages.filterMap answer).map frame
  unread : (receiveAll x.connection.unread).1 =
    messages ++ (receiveAll x'.connection.unread).1
  writes : x.Writes → x'.Writes

theorem Took.refl (x : Exchange) : Took x [] x :=
  ⟨(List.append_nil _).symm, (List.append_nil _).symm, rfl, id⟩

theorem Took.trans {x x' x'' : Exchange} {ms ms' : List Bytes} (h : Took x ms x')
    (h' : Took x' ms' x'') : Took x (ms ++ ms') x'' where
  received := by rw [h'.received, h.received, List.append_assoc]
  sent := by
    rw [h'.sent, h.sent, List.filterMap_append, List.map_append, List.append_assoc]
  unread := by rw [h.unread, h'.unread, List.append_assoc]
  writes hw := h'.writes (h.writes hw)

theorem send_of_writes {x : Exchange} (h : x.Writes) (payload : Bytes) :
    (send payload).run x = .ok ()
      { x with writeErrors := x.writeErrors.tail, sent := x.sent ++ [frame payload] } := by
  have hhead : x.writeErrors.headD none = none := by
    cases hw : x.writeErrors with
    | nil => rfl
    | cons e rest => exact h e (by rw [hw]; exact List.mem_cons_self)
  simp only [EStateM.run, send, hhead]

theorem receive_of_frames {bs message : Bytes} {rest : List Bytes}
    (h : (receiveAll bs).1 = message :: rest) :
    ∃ unread, SyncTlsConnection.receive bs = (.ok message, unread) ∧
      (receiveAll unread).1 = rest := by
  obtain ⟨p, unread, -, hr⟩ | ⟨failure, unread, -, hr⟩ := receive_cases bs
  · rw [receiveAll_ok hr] at h
    obtain ⟨rfl, hrest⟩ := List.cons.inj h
    exact ⟨unread, hr, hrest⟩
  · rw [receiveAll_error hr] at h
    cases h

theorem receive_of_no_frames {bs : Bytes} (h : (receiveAll bs).1 = []) :
    ∃ failure unread, SyncTlsConnection.receive bs = (.error failure, unread) := by
  obtain ⟨p, unread, -, hr⟩ | ⟨failure, unread, -, hr⟩ := receive_cases bs
  · rw [receiveAll_ok hr] at h
    cases h
  · exact ⟨failure, unread, hr⟩

def take (message unread : Bytes) (x : Exchange) : Exchange :=
  { x with
    connection := { x.connection with unread }
    received := x.received ++ [message] }

def wrote (payload : Bytes) (x : Exchange) : Exchange :=
  { x with writeErrors := x.writeErrors.tail, sent := x.sent ++ [frame payload] }

theorem send_bind {α : Type} {x : Exchange} (h : x.Writes) (payload : Bytes)
    (f : ExchangeM α) : (send payload >>= fun _ ↦ f).run x = f.run (x.wrote payload) := by
  rw [EStateM.run_bind, send_of_writes h]
  rfl

section Loop

variable {x : Exchange} {message unread : Bytes} {rest : List Bytes}

theorem configure_accepts
    (hr : SyncTlsConnection.receive x.connection.unread = (.ok message, unread))
    (hs : Accepts message) (steps : ℕ) : (configure (steps + 1)).run x =
      EStateM.run (if hasField message 11 then
          send Protocol.pairingOptions >>= fun _ ↦ configure steps
        else if hasField message 20 then
          send Protocol.pairingConfiguration >>= fun _ ↦ configure steps
        else if hasField message 31 then pure true
        else configure steps) (x.take message unread) := by
  rw [configure, EStateM.run_bind, receive_of_ok hr]
  simp only [EStateM.run_bind, requirePairingStatusOk_of_ok _ hs]
  rfl

theorem Writes.take (h : x.Writes) : (x.take message unread).Writes := h

theorem took_take (hr : (receiveAll x.connection.unread).1 = message :: (receiveAll unread).1)
    (ha : answer message = none) : Took x [message] (x.take message unread) where
  received := rfl
  sent := by simp [take, ha]
  unread := hr
  writes := id

theorem took_wrote (hr : (receiveAll x.connection.unread).1 = message :: (receiveAll unread).1)
    {payload : Bytes} (ha : answer message = some payload) :
    Took x [message] ((x.take message unread).wrote payload) where
  received := rfl
  sent := by simp [take, wrote, ha]
  unread := hr
  writes h e he := h e (List.mem_of_mem_tail he)

theorem configure_passes (hw : x.Writes)
    (hr : (receiveAll x.connection.unread).1 = message :: rest) (hp : Passes message)
    (steps : ℕ) : ∃ x', Took x [message] x' ∧
      (configure (steps + 1)).run x = (configure steps).run x' := by
  obtain ⟨unread, hreceive, rfl⟩ := receive_of_frames hr
  obtain ⟨hstatus, hgo⟩ := hp
  rw [configure_accepts hreceive hstatus]
  by_cases h11 : hasField message 11 = true
  · rw [if_pos h11, send_bind hw.take]
    exact ⟨_, took_wrote hr (if_pos h11), rfl⟩
  rw [if_neg h11]
  by_cases h20 : hasField message 20 = true
  · rw [if_pos h20, send_bind hw.take]
    exact ⟨_, took_wrote hr ((if_neg h11).trans (if_pos h20)), rfl⟩
  have h31 : ¬ hasField message 31 = true := by
    intro h
    exact hgo ⟨h, by simpa using h11, by simpa using h20⟩
  rw [if_neg h20, if_neg h31]
  exact ⟨_, took_take hr ((if_neg h11).trans (if_neg h20)), rfl⟩

theorem configure_configures
    (hr : (receiveAll x.connection.unread).1 = message :: rest) (hs : Accepts message)
    (hc : Configures message) (steps : ℕ) : ∃ x', Took x [message] x' ∧
      (configure (steps + 1)).run x = .ok true x' := by
  obtain ⟨unread, hreceive, rfl⟩ := receive_of_frames hr
  obtain ⟨h31, h11, h20⟩ := hc
  rw [configure_accepts hreceive hs, h11, h20, h31]
  refine ⟨_, took_take hr ?_, rfl⟩
  rw [answer, h11, h20]
  rfl

theorem configure_refused
    (hr : SyncTlsConnection.receive x.connection.unread = (.ok message, unread))
    (hs : ¬ Accepts message) (steps : ℕ) : (configure (steps + 1)).run x = .error
      (.runtimeError "Android TV pairing protocol returned an error status")
      (x.take message unread) := by
  rw [configure, EStateM.run_bind, receive_of_ok hr]
  simp only [EStateM.run_bind, requirePairingStatusOk_of_error _ hs]
  rfl

theorem configure_ends (hr : (receiveAll x.connection.unread).1 = []) (steps : ℕ) :
    ∃ e x', (configure (steps + 1)).run x = .error e x' := by
  obtain ⟨failure, unread, hreceive⟩ := receive_of_no_frames hr
  obtain ⟨e, unread, he⟩ := receive_of_error hreceive
  refine ⟨e, { x with connection := { x.connection with unread } }, ?_⟩
  simp only [configure, EStateM.run_bind, he]

theorem configure_run {before : List Bytes} (hw : x.Writes)
    (hr : (receiveAll x.connection.unread).1 = before ++ rest) (hp : ∀ m ∈ before, Passes m)
    (steps : ℕ) : ∃ x', Took x before x' ∧
      (configure (before.length + steps)).run x = (configure steps).run x' := by
  induction before generalizing x with
  | nil =>
    rw [List.length_nil, Nat.zero_add]
    exact ⟨x, .refl x, rfl⟩
  | cons message before ih =>
    obtain ⟨hm, hp⟩ := List.forall_mem_cons.mp hp
    obtain ⟨x₁, h₁, hstep⟩ := configure_passes hw hr hm (before.length + steps)
    have hr₁ : (receiveAll x₁.connection.unread).1 = before ++ rest := by
      have hcons := h₁.unread.symm.trans hr
      exact (List.cons.inj hcons).2
    obtain ⟨x', h', hrun⟩ := ih (h₁.writes hw) hr₁ hp
    rw [List.length_cons, Nat.add_right_comm, hstep, hrun]
    exact ⟨x', h₁.trans h', rfl⟩

end Loop

def final {α : Type} : EStateM.Result Exception Exchange α → Exchange
  | .ok _ x => x
  | .error _ x => x

theorem send_cases (payload : Bytes) (x : Exchange) :
    ∃ x', x'.received = x.received ∧
      ((send payload).run x = .ok () x' ∨ ∃ e, (send payload).run x = .error e x') := by
  simp only [EStateM.run, send]
  split
  · refine ⟨_, ?_, .inr ⟨_, rfl⟩⟩
    rfl
  · refine ⟨_, ?_, .inl rfl⟩
    rfl

theorem send_bind_received {n : ℕ} {x : Exchange} (payload : Bytes) {α : Type}
    {f : ExchangeM α} (h : ∀ y : Exchange, y.received = x.received →
      (final (f.run y)).received.length ≤ n) (hx : x.received.length ≤ n) :
    (final ((send payload >>= fun _ ↦ f).run x)).received.length ≤ n := by
  rw [EStateM.run_bind]
  obtain ⟨x', hx', hs | ⟨e, hs⟩⟩ := send_cases payload x
  · rw [hs]
    exact h x' hx'
  · rw [hs]
    change x'.received.length ≤ n
    rwa [hx']

/-- The loop takes no more messages than it makes steps, whatever the writes
meet. -/
theorem configure_received_le (steps : ℕ) (x : Exchange) :
    (final ((configure steps).run x)).received.length ≤ x.received.length + steps := by
  induction steps generalizing x with
  | zero => exact le_rfl
  | succ steps ih =>
    obtain ⟨message, unread, -, hr⟩ | ⟨failure, unread, -, hr⟩ :=
      receive_cases x.connection.unread
    · have hone : (x.take message unread).received.length = x.received.length + 1 := by
        rw [take, List.length_append]
        rfl
      have hgo : ∀ y : Exchange, y.received = (x.take message unread).received →
          (final ((configure steps).run y)).received.length ≤ x.received.length + (steps + 1) := by
        intro y hy
        have h := ih y
        rw [hy, hone] at h
        omega
      by_cases hs : Accepts message
      · rw [configure_accepts hr hs]
        split
        · exact send_bind_received _ hgo (by omega)
        split
        · exact send_bind_received _ hgo (by omega)
        split
        · change (x.take message unread).received.length ≤ _
          omega
        · exact hgo _ rfl
      · rw [configure_refused hr hs]
        change (x.take message unread).received.length ≤ _
        omega
    · obtain ⟨e, unread, he⟩ := receive_of_error hr
      simp only [configure, EStateM.run_bind, he]
      exact Nat.le_add_right _ _

end Exchange

namespace Pairing

/-- The first eight frames behind a connection are those of a sequence, which
may end before or go on for ever. -/
def Brings (connection : Connection) (m : ℕ → Option Bytes) : Prop :=
  ∀ i < 8, (receiveAll connection.unread).1[i]? = m i

def messages (m : ℕ → Option Bytes) (k : ℕ) : List Bytes := (List.range k).filterMap m

def answers (m : ℕ → Option Bytes) (k : ℕ) : List Bytes :=
  (List.range k).filterMap fun i ↦ (m i).bind answer

def PassesUntil (m : ℕ → Option Bytes) (k : ℕ) : Prop :=
  ∀ i < k, ∃ message, m i = some message ∧ Passes message

/-- The first message that configures comes at an index, and up to it all
have a good status. -/
def ConfiguredAt (m : ℕ → Option Bytes) (k : ℕ) : Prop :=
  PassesUntil m k ∧ ∃ ack, m k = some ack ∧ Accepts ack ∧ Configures ack

def RefusedAt (m : ℕ → Option Bytes) (j : ℕ) : Prop :=
  PassesUntil m j ∧ ∃ bad, m j = some bad ∧ ¬ Accepts bad

variable {m : ℕ → Option Bytes} {k : ℕ}

theorem messages_succ {message : Bytes} (h : m k = some message) :
    messages m (k + 1) = messages m k ++ [message] := by
  rw [messages, List.range_succ, List.filterMap_append]
  simp [messages, h]

theorem answers_eq (m : ℕ → Option Bytes) (k : ℕ) :
    answers m k = (messages m k).filterMap answer := by
  rw [answers, messages, List.filterMap_filterMap]

theorem PassesUntil.mono {j : ℕ} (h : PassesUntil m k) (hj : j ≤ k) : PassesUntil m j :=
  fun i hi ↦ h i (hi.trans_le hj)

theorem passesUntil_or (m : ℕ → Option Bytes) (n : ℕ) : PassesUntil m n ∨
    ∃ k < n, PassesUntil m k ∧ ¬ ∃ message, m k = some message ∧ Passes message := by
  induction n with
  | zero => exact .inl fun i hi ↦ absurd hi (Nat.not_lt_zero i)
  | succ n ih =>
    obtain h | ⟨k, hk, hstop⟩ := ih
    · by_cases hn : ∃ message, m n = some message ∧ Passes message
      · left
        intro i hi
        rcases Nat.lt_succ_iff_lt_or_eq.mp hi with hi | rfl
        · exact h i hi
        · exact hn
      · exact .inr ⟨n, Nat.lt_succ_self n, h, hn⟩
    · exact .inr ⟨k, Nat.lt_succ_of_lt hk, hstop⟩

section Frames

variable {connection : Connection} (hm : Brings connection m)

include hm

theorem Brings.next {before rest : List Bytes} {message : Bytes}
    (hr : (receiveAll connection.unread).1 = before ++ rest) (hk : before.length < 8)
    (h : m before.length = some message) : ∃ rest', rest = message :: rest' := by
  have hget := hm before.length hk
  rw [hr, h, List.getElem?_append_right le_rfl, Nat.sub_self] at hget
  cases rest with
  | nil => cases hget
  | cons first rest' =>
    obtain rfl := Option.some.inj hget
    exact ⟨rest', rfl⟩

theorem Brings.nothing_left {before rest : List Bytes}
    (hr : (receiveAll connection.unread).1 = before ++ rest) (hk : before.length < 8)
    (h : m before.length = none) : rest = [] := by
  have hget := hm before.length hk
  rw [hr, h, List.getElem?_append_right le_rfl, Nat.sub_self] at hget
  cases rest with
  | nil => rfl
  | cons first rest' => cases hget

theorem Brings.split (hk : k ≤ 8) (h : PassesUntil m k) :
    ∃ rest, (receiveAll connection.unread).1 = messages m k ++ rest ∧
      (messages m k).length = k ∧ ∀ message ∈ messages m k, Passes message := by
  induction k with
  | zero => exact ⟨_, rfl, rfl, by simp [messages]⟩
  | succ k ih =>
    obtain ⟨rest, hr, hlen, hall⟩ := ih (by omega) (h.mono (Nat.le_succ k))
    obtain ⟨message, hmk, hp⟩ := h k (Nat.lt_succ_self k)
    obtain ⟨rest', rfl⟩ := hm.next hr (by omega) (by rw [hlen]; exact hmk)
    rw [messages_succ hmk]
    refine ⟨rest', by rw [hr, List.append_assoc]; rfl, by rw [List.length_append, hlen]; rfl, ?_⟩
    intro x hx
    rcases List.mem_append.mp hx with hx | hx
    · exact hall x hx
    · rw [List.mem_singleton.mp hx]
      exact hp

end Frames

end Pairing

namespace PairingSession

open Exchange

structure Established (session : PairingSession) (call : StartCall) (connection : Connection) :
    Prop where
  opened : session.openConnection call = .ok connection
  connected : call.connectError = none
  writes : ∀ e ∈ call.writeErrors, e = none

def asked (session : PairingSession) (call : StartCall) (connection : Connection) : Exchange where
  connection := connection
  writeErrors := call.writeErrors.tail
  sent := [frame (Protocol.pairingRequest session.clientName)]

def conclude (session : PairingSession) :
    EStateM.Result Exception Exchange Bool → CallOutcome PairingSession
  | .error e x =>
    { result := .error e
      state := { session with connection := some x.connection }
      sent := x.sent, received := x.received }
  | .ok true x =>
    { result := .ok ()
      state := { session with connection := some x.connection }
      sent := x.sent, received := x.received }
  | .ok false x =>
    { result := .error (.runtimeError
        "pairing handshake did not reach configuration acknowledgement")
      state := { session with connection := none }
      sent := x.sent, received := x.received }

variable {session : PairingSession} {call : StartCall} {connection : Connection}

theorem Established.start_eq (h : session.Established call connection) :
    session.start call =
      session.conclude ((configure 8).run (session.asked call connection)) := by
  have hwrites : Writes ⟨connection, call.writeErrors, [], []⟩ := h.writes
  simp only [start, h.opened, h.connected]
  have hasked : wrote (Protocol.pairingRequest session.clientName)
      ⟨connection, call.writeErrors, [], []⟩ = session.asked call connection := rfl
  rw [send_bind hwrites, hasked]
  cases (configure 8).run (session.asked call connection) with
  | error e x => rfl
  | ok configured x => cases configured <;> rfl

theorem Established.writes_asked (h : session.Established call connection) :
    (session.asked call connection).Writes :=
  fun e he ↦ h.writes e (List.mem_of_mem_tail he)

section Outcome

variable {m : ℕ → Option Bytes} (h : session.Established call connection)
  (hm : Brings connection m)

include h hm

theorem Established.passes {k : ℕ} (steps : ℕ) (hk : k + steps = 8) (hp : PassesUntil m k) :
    ∃ x rest, Took (session.asked call connection) (messages m k) x ∧ x.Writes ∧
      (receiveAll connection.unread).1 = messages m k ++ rest ∧
      (receiveAll x.connection.unread).1 = rest ∧ (messages m k).length = k ∧
      session.start call = session.conclude ((configure steps).run x) := by
  obtain ⟨rest, hr, hlen, hall⟩ := hm.split (by omega) hp
  obtain ⟨x, htook, hrun⟩ := configure_run h.writes_asked hr hall steps
  have hrest : (receiveAll x.connection.unread).1 = rest :=
    List.append_cancel_left (htook.unread.symm.trans hr)
  rw [hlen, hk] at hrun
  exact ⟨x, rest, htook, htook.writes h.writes_asked, hr, hrest, hlen, by rw [h.start_eq, hrun]⟩

theorem Established.configured {k : ℕ} (hk : k < 8) (hc : ConfiguredAt m k) :
    ∃ x, Took (session.asked call connection) (messages m (k + 1)) x ∧
      answers m (k + 1) = answers m k ∧ session.start call =
        { result := .ok ()
          state := { session with connection := some x.connection }
          sent := x.sent, received := x.received } := by
  obtain ⟨hp, ack, hack, hs, hconf⟩ := hc
  obtain ⟨x, rest, htook, -, hr, hrest, hlen, hstart⟩ :=
    h.passes hm (7 - k + 1) (by omega) hp
  obtain ⟨rest', rfl⟩ := hm.next hr (by omega) (by rw [hlen]; exact hack)
  obtain ⟨x', htook', hrun⟩ := configure_configures hrest hs hconf (7 - k)
  rw [hrun] at hstart
  refine ⟨x', ?_, ?_, hstart⟩
  · rw [messages_succ hack]
    exact htook.trans htook'
  · have hanswer : answer ack = none := by
      obtain ⟨-, h11, h20⟩ := hconf
      rw [answer, h11, h20]
      rfl
    rw [answers_eq, messages_succ hack, List.filterMap_append, answers_eq]
    simp [hanswer]

theorem Established.refused {j : ℕ} (hj : j < 8) (hbad : RefusedAt m j) :
    (session.start call).result = .error
        (.runtimeError "Android TV pairing protocol returned an error status") ∧
      (session.start call).received = messages m (j + 1) ∧
      (session.start call).sent =
        frame (Protocol.pairingRequest session.clientName) :: (answers m j).map frame := by
  obtain ⟨hp, bad, hb, hs⟩ := hbad
  obtain ⟨x, rest, htook, -, hr, hrest, hlen, hstart⟩ :=
    h.passes hm (7 - j + 1) (by omega) hp
  obtain ⟨rest', rfl⟩ := hm.next hr (by omega) (by rw [hlen]; exact hb)
  obtain ⟨unread, hreceive, -⟩ := receive_of_frames hrest
  rw [hstart, configure_refused hreceive hs]
  refine ⟨rfl, ?_, ?_⟩
  · change x.received ++ [bad] = _
    rw [htook.received, messages_succ hb]
    rfl
  · change x.sent = _
    rw [htook.sent, answers_eq]
    rfl

theorem Established.exhausted (hp : PassesUntil m 8) :
    (session.start call).result = .error (.runtimeError
        "pairing handshake did not reach configuration acknowledgement") ∧
      (session.start call).state.connection = none ∧
      (session.start call).received = messages m 8 ∧
      (session.start call).sent =
        frame (Protocol.pairingRequest session.clientName) :: (answers m 8).map frame := by
  obtain ⟨x, rest, htook, -, hr, hrest, hlen, hstart⟩ := h.passes hm 0 (by omega) hp
  rw [hstart]
  refine ⟨rfl, rfl, htook.received, ?_⟩
  rw [answers_eq]
  exact htook.sent

theorem Established.cut_off {k : ℕ} (hk : k < 8) (hp : PassesUntil m k) (hend : m k = none) :
    ∃ e, (session.start call).result = .error e := by
  obtain ⟨x, rest, htook, -, hr, hrest, hlen, hstart⟩ :=
    h.passes hm (7 - k + 1) (by omega) hp
  obtain rfl := hm.nothing_left hr (by omega) (by rw [hlen]; exact hend)
  obtain ⟨e, x', hrun⟩ := configure_ends hrest (7 - k)
  exact ⟨e, by rw [hstart, hrun]; rfl⟩

theorem Established.result_ok_iff :
    (session.start call).result = .ok () ↔ ∃ k < 8, ConfiguredAt m k := by
  constructor
  · intro hok
    obtain hp | ⟨k, hk, hp, hstop⟩ := passesUntil_or m 8
    · rw [(h.exhausted hm hp).1] at hok
      cases hok
    cases hmk : m k with
    | none =>
      obtain ⟨e, he⟩ := h.cut_off hm hk hp hmk
      rw [he] at hok
      cases hok
    | some message =>
      by_cases hs : Accepts message
      · have hconf : Configures message := by
          by_contra hnot
          exact hstop ⟨message, hmk, hs, hnot⟩
        exact ⟨k, hk, hp, message, hmk, hs, hconf⟩
      · rw [(h.refused hm hk ⟨hp, message, hmk, hs⟩).1] at hok
        cases hok
  · intro h'
    obtain ⟨k, hk, hc⟩ := h'
    obtain ⟨x, -, -, hstart⟩ := h.configured hm hk hc
    rw [hstart]

end Outcome

theorem start_received_le (session : PairingSession) (call : StartCall) :
    (session.start call).received.length ≤ 8 := by
  unfold start
  split
  · exact Nat.zero_le _
  next connection _ =>
  simp only
  split
  · exact Nat.zero_le _
  have hrun := send_bind_received (x := { connection, writeErrors := call.writeErrors })
    (Protocol.pairingRequest session.clientName) (f := configure 8) (n := 8)
    (fun y hy ↦ by
      have h := configure_received_le 8 y
      rwa [hy] at h) (Nat.zero_le _)
  split
  next hx =>
    rw [hx] at hrun
    exact hrun
  next hx =>
    rw [hx] at hrun
    split
    · exact hrun
    · exact hrun

/-- What `start` makes of any sequence of messages. It succeeds exactly if one
of the first eight is the first to configure and all up to it have status 200,
having answered the others in order; it throws at the first other status, not
answering it; and it drops the connection if it has not been configured after
eight. Whatever else fails, it never takes a ninth. -/
theorem pairing_handshake_outcome (session : PairingSession) (call : StartCall) :
    (session.start call).received.length ≤ 8 ∧
    ∀ connection m, session.Established call connection → Brings connection m →
      ((session.start call).result = .ok () ↔ ∃ k < 8, ConfiguredAt m k) ∧
      (∀ k < 8, ConfiguredAt m k →
        (session.start call).received = messages m (k + 1) ∧
        (session.start call).sent =
          frame (Protocol.pairingRequest session.clientName) :: (answers m k).map frame ∧
        ∃ left, (session.start call).state.connection = some left ∧
          (receiveAll connection.unread).1 = messages m (k + 1) ++ (receiveAll left.unread).1) ∧
      (∀ j < 8, RefusedAt m j →
        (session.start call).result = .error
          (.runtimeError "Android TV pairing protocol returned an error status") ∧
        (session.start call).received = messages m (j + 1) ∧
        (session.start call).sent =
          frame (Protocol.pairingRequest session.clientName) :: (answers m j).map frame) ∧
      (PassesUntil m 8 →
        (session.start call).result = .error (.runtimeError
          "pairing handshake did not reach configuration acknowledgement") ∧
        (session.start call).state.connection = none ∧
        (session.start call).received = messages m 8 ∧
        (session.start call).sent =
          frame (Protocol.pairingRequest session.clientName) :: (answers m 8).map frame) := by
  refine ⟨start_received_le session call, ?_⟩
  intro connection m h hm
  refine ⟨h.result_ok_iff hm, ?_, fun j hj ↦ h.refused hm hj, h.exhausted hm⟩
  intro k hk hc
  obtain ⟨x, htook, hanswers, hstart⟩ := h.configured hm hk hc
  rw [hstart, ← hanswers, answers_eq]
  exact ⟨htook.received, htook.sent, x.connection, rfl, htook.unread⟩

def sampleMessages (i : ℕ) : Option Bytes :=
  [(Protocol.pairingOuter 11 {}).data, (Protocol.pairingOuter 20 {}).data,
    (Protocol.pairingOuter 31 {}).data][i]?

theorem pairing_handshake_outcome_sample :
    (sampleSession []).Established (sampleStart []) (sampleStart []).connection ∧
      Brings (sampleStart []).connection sampleMessages ∧ ConfiguredAt sampleMessages 2 ∧
      ((sampleSession []).start (sampleStart [])).result = .ok () ∧
      ((sampleSession []).start (sampleStart [])).sent =
        [frame (Protocol.pairingRequest []), frame Protocol.pairingOptions,
          frame Protocol.pairingConfiguration] := by
  have h : (sampleSession []).Established (sampleStart []) (sampleStart []).connection :=
    ⟨by decide +kernel, rfl, by decide⟩
  have hm : Brings (sampleStart []).connection sampleMessages := by
    have hr : (receiveAll (sampleStart []).connection.unread).1 =
        [(Protocol.pairingOuter 11 {}).data, (Protocol.pairingOuter 20 {}).data,
          (Protocol.pairingOuter 31 {}).data] := by
      have h₁ : receive (sampleStart []).connection.unread =
          (.ok (Protocol.pairingOuter 11 {}).data, frame (Protocol.pairingOuter 20 {}).data ++
            frame (Protocol.pairingOuter 31 {}).data) := by decide +kernel
      have h₂ : receive (frame (Protocol.pairingOuter 20 {}).data ++
            frame (Protocol.pairingOuter 31 {}).data) =
          (.ok (Protocol.pairingOuter 20 {}).data, frame (Protocol.pairingOuter 31 {}).data) := by
        decide +kernel
      have h₃ : receive (frame (Protocol.pairingOuter 31 {}).data) =
          (.ok (Protocol.pairingOuter 31 {}).data, []) := by decide +kernel
      have h₄ : receive [] = (.error (.read .byte), []) := by decide +kernel
      rw [receiveAll_ok h₁, receiveAll_ok h₂, receiveAll_ok h₃, receiveAll_error h₄]
    intro i _
    rw [hr]
    rfl
  have hc : ConfiguredAt sampleMessages 2 := by
    refine ⟨?_, _, rfl, by decide +kernel, by decide +kernel⟩
    intro i hi
    obtain rfl | rfl : i = 0 ∨ i = 1 := by omega
    · exact ⟨_, rfl, by decide +kernel⟩
    · exact ⟨_, rfl, by decide +kernel⟩
  obtain ⟨hok, hconf, -⟩ := (pairing_handshake_outcome _ _).2 _ _ h hm
  refine ⟨h, hm, hc, hok.mpr ⟨2, by decide, hc⟩, (hconf 2 (by decide) hc).2.1.trans ?_⟩
  decide +kernel

end PairingSession

end AndroidTvRemote
