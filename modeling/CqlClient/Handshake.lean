/-
  CqlClient formalization — what the functions of a connection do to its handshake.

  The handshake is the state, the OPTIONS and STARTUP frames of the connection's
  own, and the calls to libuv and to the connect callback.  A function that has no
  part in it is `Apart`; the others send at most one frame of their own
  (`sendOwn_eq`).
-/
import CqlClient.Session

namespace CqlClient

open ClientConnectionState

/-- A frame of the connection's own, sent without a request. -/
def Write.isOwn (opcode : UInt8) : Write → Bool
  | .frame f => f.opcode = opcode && f.request = .null
  | .sslOutput _ => false

/-- A call that belongs to the handshake, other than the report of an error. -/
def Output.isStep : Output → Bool
  | .getaddrinfo | .tcpConnect | .readStart | .close | .connectCallback none => true
  | _ => false

/-- A call of the connect callback with an error. -/
def Output.isReport : Output → Bool
  | .connectCallback (some _) => true
  | _ => false

namespace Connection

/-- How many frames of its own with the opcode the connection has sent. -/
def sent (opcode : UInt8) (c : Connection) : ℕ := c.writes.countP (Write.isOwn opcode)

/-- How often the connection has made the call. -/
def calls (o : Output) (c : Connection) : ℕ := c.out.count o

/-- How often the connect callback was called with an error. -/
def reports (c : Connection) : ℕ := c.out.countP Output.isReport

/-- There is a stream for one more frame. -/
def HasStream (c : Connection) : Prop :=
  c.streamStorage.availableStreamsIndex < cqlStreamIdMax

instance (c : Connection) : Decidable c.HasStream := inferInstanceAs (Decidable (_ < _))

/-! ## Functions with no part in the handshake -/

/-- Nothing of the handshake happens, except for calls that are not `bad`. -/
structure Apart (bad : Output → Bool) (c c' : Connection) : Prop where
  state : c'.state = c.state
  ssl : c'.ssl = c.ssl
  sent : ∀ opcode, opcode ≠ cqlOpcodeQuery → c'.sent opcode = c.sent opcode
  out : ∃ os, c'.out = c.out ++ os ∧ ∀ o ∈ os, bad o = false

variable {bad : Output → Bool} {c c₁ c' : Connection}

theorem Apart.refl (c : Connection) : Apart bad c c :=
  ⟨rfl, rfl, fun _ _ => rfl, [], (List.append_nil _).symm, nofun⟩

theorem Apart.trans (h : Apart bad c c₁) (h' : Apart bad c₁ c') : Apart bad c c' where
  state := h'.state.trans h.state
  ssl := h'.ssl.trans h.ssl
  sent opcode hne := (h'.sent opcode hne).trans (h.sent opcode hne)
  out := by
    obtain ⟨os, hos, hbad⟩ := h.out
    obtain ⟨os', hos', hbad'⟩ := h'.out
    refine ⟨os ++ os', ?_, fun o ho => ?_⟩
    · rw [hos', hos, List.append_assoc]
    · rcases List.mem_append.1 ho with ho | ho
      · exact hbad o ho
      · exact hbad' o ho

theorem Apart.emit (c : Connection) {o : Output} (ho : bad o = false) : Apart bad c (c.emit o) :=
  ⟨rfl, rfl, fun _ _ => rfl, [o], rfl, fun o' ho' => by rwa [List.mem_singleton.1 ho']⟩

/-- Fewer calls are bad. -/
theorem Apart.mono {bad' : Output → Bool} (h : Apart bad c c')
    (hbad : ∀ o, bad o = false → bad' o = false) : Apart bad' c c' := by
  obtain ⟨os, hos, hall⟩ := h.out
  exact ⟨h.state, h.ssl, h.sent, os, hos, fun o ho => hbad o (hall o ho)⟩

theorem Apart.calls (h : Apart bad c c') {o : Output} (ho : bad o = true) :
    c'.calls o = c.calls o := by
  obtain ⟨os, hos, hall⟩ := h.out
  have hnot : o ∉ os := by
    intro hmem
    rw [hall o hmem] at ho
    cases ho
  rw [Connection.calls, hos, List.count_append, List.count_eq_zero_of_not_mem hnot]
  rfl

theorem Apart.reports (h : Apart bad c c') (hbad : ∀ o, o.isReport = true → bad o = true) :
    c'.reports = c.reports := by
  obtain ⟨os, hos, hall⟩ := h.out
  have hnone : os.countP Output.isReport = 0 := by
    refine List.countP_eq_zero.2 fun o ho hrep => ?_
    have hbad := hbad o hrep
    rw [hall o ho] at hbad
    cases hbad
  rw [Connection.reports, hos, List.countP_append, hnone]
  rfl

theorem prepare_opcode (m : Message) : m.prepare.1.opcode = m.opcode := by
  unfold Message.prepare
  split
  · rfl
  · simp only
    split <;> rfl

theorem prepare_some (m : Message) (body : Body) (hbody : m.body = some body) :
    ∃ frame, m.prepare.2 = some frame := by
  unfold Message.prepare
  rw [hbody]
  simp only
  split <;> exact ⟨_, rfl⟩

/-- A frame that is sent for a request, or is a query. -/
theorem sendMessage_apart (message : Message) (request : RequestPtr)
    (h : request ≠ .null ∨ message.opcode = cqlOpcodeQuery) (c : Connection) :
    Apart bad c (c.sendMessage message request).1 := by
  have hsame : ∀ streamStorage, Apart bad c { c with streamStorage } := by
    intro streamStorage
    exact ⟨rfl, rfl, fun _ _ => rfl, [], (List.append_nil _).symm, nofun⟩
  unfold sendMessage
  split
  · exact hsame _
  · rename_i streamStorage stream _
    simp only
    split
    · exact hsame _
    · rename_i m frame hprep
      have hopcode := prepare_opcode { message with stream := toInt8 stream }
      rw [hprep] at hopcode
      simp only at hopcode
      split
      · refine ⟨rfl, rfl, fun opcode hne => ?_, [], (List.append_nil _).symm, nofun⟩
        have hown : Write.isOwn opcode (.frame ⟨m.opcode, stream, request, frame⟩) = false := by
          simp only [Write.isOwn, Bool.and_eq_false_iff, decide_eq_false_iff_not]
          rcases h with h | h
          · exact .inr h
          · exact .inl fun hop => hne (hop.symm.trans (hopcode.trans h))
        simp only [sent, sendData, List.countP_append, List.countP_singleton, hown]
        rfl
      · exact hsame _

theorem setKeyspace_apart (keyspace : List UInt8) (c : Connection) :
    Apart bad c (c.setKeyspace keyspace).1 := by
  unfold setKeyspace sendOwn
  split
  · exact .refl c
  · rename_i message hm
    have hopcode : message.opcode = cqlOpcodeQuery := by cases hm; rfl
    have h : Apart bad c _ := sendMessage_apart { message with
      body := some (.query { query := ascii "USE " ++ keyspace }) } .null (.inr hopcode) c
    split <;> rename_i hs <;> rwa [hs] at h

theorem sendRequest_apart (hbad : ∀ i, bad (.notify i) = false) (message : Message)
    (request : CallerRequest) (c : Connection) :
    Apart bad c (c.sendRequest message request).1 := by
  have hadd : Apart bad c { c with requests := c.requests ++ [request] } :=
    ⟨rfl, rfl, fun _ _ => rfl, [], (List.append_nil _).symm, nofun⟩
  have hsend := hadd.trans (sendMessage_apart message (.request c.requests.length) (.inl nofun)
    { c with requests := c.requests ++ [request] })
  unfold sendRequest
  simp only
  split <;> rename_i hs <;> rw [hs] at hsend
  · exact hsend
  · exact hsend
  · refine hsend.trans ?_
    exact ⟨rfl, rfl, fun _ _ => rfl, [_], rfl, fun o ho => by
      rw [List.mem_singleton.1 ho]
      exact hbad _⟩

theorem request_apart (hbad : ∀ i, bad (.notify i) = false) {a : Action}
    (ha : a.isRequest = true) (c : Connection) : Apart bad c (perform a c).1 := by
  rcases request_cases ha c with ⟨-, heq⟩ | ⟨-, message, r, -, -, -, -, heq⟩
  · rw [heq]
    exact .refl c
  · rw [heq, outcome_fst]
    exact sendRequest_apart hbad message r c

/-! ## Responses -/

theorem receive_apart (message : Message) (c : Connection) : Apart bad c (c.receive message) :=
  ⟨rfl, rfl, fun _ _ => rfl, [], (List.append_nil _).symm, nofun⟩

theorem notifyError_apart (err : Error) (c : Connection) :
    Apart Output.isStep c (c.notifyError err) := by
  unfold notifyError
  split
  · exact .emit c rfl
  · exact .refl c

theorem complete_apart (request : RequestPtr) (response : ℕ) (c : Connection) :
    Apart Output.isStep c (c.complete request response).1 := by
  unfold complete
  split
  · exact .refl c
  · rename_i i _
    exact ⟨rfl, rfl, fun _ _ => rfl, [.access i, .notify i], by
      simp [notify, emit], by simp [Output.isStep]⟩

theorem getStream_apart (stream : ℤ) (c : Connection) : Apart bad c (c.getStream stream).1 :=
  ⟨rfl, rfl, fun _ _ => rfl, [], (List.append_nil _).symm, nofun⟩

theorem callPrepareCallback_apart (err : Option Error) (request : RequestPtr)
    (result : BodyResult) (c : Connection) :
    Apart Output.isStep c (c.callPrepareCallback err request result).1 := by
  unfold callPrepareCallback
  split
  · split
    · exact .refl c
    · exact (Apart.emit c rfl).trans (.emit _ rfl)
  · exact .refl c

theorem onResult_apart (message : Message) (response : ℕ) (c : Connection) :
    Apart Output.isStep c (c.onResult message response).1 := by
  have hget : Apart Output.isStep c (c.getStream message.stream).1 := getStream_apart _ c
  unfold onResult
  split
  · rename_i result _
    split
    · split
      · exact .emit c rfl
      · exact .refl c
    · split
      · have hcall := hget.trans (callPrepareCallback_apart (c.getStream message.stream).2.2
          (c.getStream message.stream).2.1 result (c.getStream message.stream).1)
        simp only
        split <;> rename_i hs <;> rw [hs] at hcall
        · exact hcall
        · split
          · exact hcall.trans (complete_apart _ _ _)
          · exact hcall
      · simp only
        split
        · exact hget.trans (complete_apart _ _ _)
        · exact hget.trans (notifyError_apart _ _)
  · exact .refl c

theorem onError_apart (message : Message) (response : ℕ) (c : Connection) :
    Apart Output.isStep c (c.onError message response).1 := by
  have hdelete : ∀ c : Connection, Apart Output.isStep c (c.deleteResponse response) :=
    fun c => ⟨rfl, rfl, fun _ _ => rfl, [], (List.append_nil _).symm, nofun⟩
  unfold onError
  split
  · split
    · split
      · exact .refl c
      · exact (notifyError_apart _ c).trans (hdelete _)
    · exact hdelete c
  · exact .refl c

/-! ## Frames of the connection's own -/

/-- `send_options` and `send_startup` send their frame if there is a stream. -/
theorem sendOwn_eq (opcode : UInt8) (body : Body) (c : Connection)
    (hname : opcodeHasName opcode = true)
    (hok : ∃ message, Message.ofOpcode c.heap opcode = .ok message) :
    ∃ streamStorage writes, c.sendOwn opcode body =
      ({ c with streamStorage, writes := c.writes ++ writes }, none) ∧
      ∀ op, writes.countP (Write.isOwn op) = if op = opcode ∧ c.HasStream then 1 else 0 := by
  obtain ⟨message, hm⟩ := hok
  have hopcode : message.opcode = opcode := by
    unfold Message.ofOpcode at hm
    cases hb : allocateBody opcode with
    | error e => rw [hb] at hm; cases hm
    | ok body => rw [hb] at hm; cases hm; rfl
  unfold sendOwn sendMessage
  rw [hm]
  by_cases hfree : c.HasStream
  · obtain ⟨id, -, -, hout, -⟩ := StreamStorage.setStream_ok hfree RequestPtr.null
    rcases hset : c.streamStorage.setStream .null with ⟨streamStorage, e | stream⟩
    · rw [hset] at hout
      cases hout
    simp only
    have hprepare := prepare_opcode { message with body := some body, stream := toInt8 stream }
    obtain ⟨frame, hframe⟩ := prepare_some
      { message with body := some body, stream := toInt8 stream } body rfl
    rcases hp : ({ message with body := some body, stream := toInt8 stream } : Message).prepare
      with ⟨m, f⟩
    rw [hp] at hprepare hframe
    simp only at hprepare hframe
    subst hframe
    simp only [hprepare, hopcode, hname, if_true]
    refine ⟨streamStorage, [.frame ⟨opcode, stream, .null, frame⟩], rfl, fun op => ?_⟩
    by_cases hop : op = opcode
    · simp [Write.isOwn, hop, hfree]
    · simp [Write.isOwn, hop, Ne.symm hop]
  · rw [StreamStorage.setStream_error (Nat.not_lt.1 hfree)]
    refine ⟨c.streamStorage, [], ?_, fun op => ?_⟩
    · simp only [List.append_nil]
    · simp [hfree]

end Connection

/-! ## Steps of the handshake -/

/-- A step of the handshake: the state it enters, the calls it makes, the frame it sends
    if there is a stream, and how it ends. -/
structure Advance where
  state : ClientConnectionState
  calls : List Output := []
  sends : Option UInt8 := none
  crash : Option Crash := none

/-- The step that a response is. -/
def Message.advance (c : Connection) (message : Message) : Option Advance :=
  if message.stream < 0 then none
  else if message.opcode = cqlOpcodeSupported then
    some { state := .supported, sends := some cqlOpcodeStartup }
  else if message.opcode = cqlOpcodeReady then
    some { state := .ready, calls := if c.connectCallback then [.connectCallback none] else [] }
  else none

/-- The step that an action is; `init` is one in the state it is called in. -/
def Action.advance (c : Connection) : Action → Option Advance
  | .init _ _ => some { state := .new, calls := [.getaddrinfo] }
  | .onResolve status =>
    if status = -1 then none else some { state := .resolved, calls := [.tcpConnect] }
  | .onConnect status =>
    if status = -1 then none
    else if c.ssl then some { state := .connected, calls := [.readStart] }
    else some { state := .handshake, calls := [.readStart], sends := some cqlOpcodeOptions }
  | .onClose => some { state := .disconnected, crash := some .assertFailed }
  | .readError | .close => some { state := .disconnecting, calls := [.close] }
  | .handshakeDone => some { state := .handshake, sends := some cqlOpcodeOptions }
  | .dispatch message => message.advance c
  | _ => none

/-- The connection takes the step. -/
structure Connection.Advances (c : Connection) (a : Advance) (c' : Connection) : Prop where
  state : c'.state = a.state
  ssl : c'.ssl = c.ssl
  out : c'.out = c.out ++ a.calls
  sent : ∀ op, c'.sent op = c.sent op + if a.sends = some op ∧ c.HasStream then 1 else 0

namespace Connection
variable {bad : Output → Bool} {c c' : Connection} {step : Advance}

theorem Advances.calls (h : c.Advances step c') (o : Output) :
    c'.calls o = c.calls o + step.calls.count o := by
  rw [Connection.calls, h.out, List.count_append]
  rfl

theorem Advances.reports (h : c.Advances step c') :
    c'.reports = c.reports + step.calls.countP Output.isReport := by
  rw [Connection.reports, h.out, List.countP_append]
  rfl

/-- A function that ends by sending a frame of its own. -/
theorem sendOwn_advances {d : Connection} (opcode : UInt8) (body : Body)
    (h : c.Advances { step with sends := none } d) (hwrites : d.writes = c.writes)
    (hstorage : d.streamStorage = c.streamStorage) (hsends : step.sends = some opcode)
    (hname : opcodeHasName opcode = true)
    (hok : ∃ message, Message.ofOpcode d.heap opcode = .ok message) :
    ∃ c', d.sendOwn opcode body = (c', none) ∧ c.Advances step c' := by
  obtain ⟨streamStorage, writes, heq, hcount⟩ := sendOwn_eq opcode body d hname hok
  refine ⟨_, heq, h.state, h.ssl, h.out, fun op => ?_⟩
  have hfree : d.HasStream ↔ c.HasStream := by
    unfold HasStream
    rw [hstorage]
  simp only [sent, List.countP_append, hcount, hwrites, hsends, hfree, Option.some.injEq, eq_comm]

/-- `on_supported` -/
theorem onSupported_advances (message : Message) (c : Connection) :
    ∃ c', handlers.onSupported message c = (c', none) ∧
      c.Advances { state := .supported, sends := some cqlOpcodeStartup } c' :=
  sendOwn_advances
    (d := { (c.receive message).deleteResponse c.responses.length with state := .supported })
    cqlOpcodeStartup (.startup { cqlVersion := c.cqlVersion })
    ⟨rfl, rfl, (List.append_nil _).symm, fun _ => by simp only [reduceCtorEq, false_and]; rfl⟩
    rfl rfl rfl rfl ⟨_, rfl⟩

/-- `on_ready` -/
theorem onReady_advances (message : Message) (c : Connection) :
    ∃ c', handlers.onReady message c = (c', none) ∧
      c.Advances { state := .ready
                   calls := if c.connectCallback then [.connectCallback none] else [] } c' := by
  refine ⟨_, rfl, ?_⟩
  change c.Advances _ (notifyReady
    { (c.receive message).deleteResponse c.responses.length with state := .ready })
  unfold notifyReady
  change c.Advances _ (if c.connectCallback then _ else _)
  by_cases hcallback : c.connectCallback = true
  · rw [if_pos hcallback, if_pos hcallback]
    exact ⟨rfl, rfl, rfl, fun _ => by simp only [reduceCtorEq, false_and]; rfl⟩
  · rw [if_neg hcallback, if_neg hcallback]
    exact ⟨rfl, rfl, (List.append_nil _).symm, fun _ => by
      simp only [reduceCtorEq, false_and]; rfl⟩

/-- **A response** is a step of the handshake, or has no part in it. -/
theorem dispatch_advance (message : Message) (c : Connection) :
    (∀ step, message.advance c = some step → ∃ c', handlers.dispatch message c = (c', step.crash) ∧
      c.Advances step c') ∧
    (message.advance c = none → Apart Output.isStep c (handlers.dispatch message c).1) := by
  unfold Handlers.dispatch Message.advance
  by_cases hstream : message.stream < 0
  · simp only [if_pos hstream]
    refine ⟨nofun, fun _ => ?_⟩
    split <;> exact .refl c
  simp only [if_neg hstream]
  by_cases hsup : message.opcode = cqlOpcodeSupported
  · have hname : ¬ opcodeHasName message.opcode = false := by
      rw [hsup]
      decide
    rw [if_neg hname, Handlers.handle, if_pos hsup, if_pos hsup]
    refine ⟨fun step hstep => ?_, nofun⟩
    cases hstep
    exact onSupported_advances message c
  rw [if_neg hsup]
  by_cases hready : message.opcode = cqlOpcodeReady
  · have hname : ¬ opcodeHasName message.opcode = false := by
      rw [hready]
      decide
    have herr : message.opcode ≠ cqlOpcodeError := by
      rw [hready]
      decide
    rw [if_neg hname, Handlers.handle, if_neg hsup, if_neg herr, if_pos hready, if_pos hready]
    refine ⟨fun step hstep => ?_, nofun⟩
    cases hstep
    exact onReady_advances message c
  rw [if_neg hready]
  refine ⟨nofun, fun _ => ?_⟩
  split
  · exact .refl c
  rw [Handlers.handle, if_neg hsup, if_neg hready]
  split
  · exact (receive_apart message c).trans (onError_apart message _ _)
  split
  · exact (receive_apart message c).trans (onResult_apart message _ _)
  · exact .refl c

/-- An action with no part in the handshake, except for reports. -/
theorem perform_apart {a : Action} (h : a.advance c = none) :
    Apart Output.isStep c (perform a c).1 ∧
    ((∀ message, a ≠ .dispatch message) → c.reports = (perform a c).1.reports) := by
  have hsame : ∀ c', Apart (fun o => o.isStep || o.isReport) c c' →
      Apart Output.isStep c c' ∧ ((∀ message, a ≠ .dispatch message) → c.reports = c'.reports) := by
    intro c' hapart
    refine ⟨hapart.mono fun o ho => (Bool.or_eq_false_iff.1 ho).1, fun _ => ?_⟩
    exact (hapart.reports fun o ho => by rw [ho, Bool.or_true]).symm
  have hkeep : ∀ c' : Connection, c'.state = c.state → c'.ssl = c.ssl → c'.writes = c.writes →
      c'.out = c.out → Apart (fun o => o.isStep || o.isReport) c c' := by
    intro c' hstate hssl hwrites hout
    refine ⟨hstate, hssl, fun _ _ => ?_, [], hout.trans (List.append_nil _).symm, nofun⟩
    rw [sent, sent, hwrites]
  cases a with
  | init | onClose | readError | close | handshakeDone => cases h
  | onResolve status =>
    have hs : status = -1 := by
      by_contra hne
      simp only [Action.advance, if_neg hne, reduceCtorEq] at h
    refine hsame _ ?_
    rw [perform, onResolve, if_pos hs]
    exact .refl c
  | onConnect status =>
    have hs : status = -1 := by
      by_contra hne
      simp only [Action.advance, if_neg hne] at h
      split at h <;> cases h
    refine hsame _ ?_
    rw [perform, onConnect, if_pos hs]
    exact .refl c
  | onWrite i status => exact hsame _ (.refl c)
  | dispatch message =>
    refine ⟨(dispatch_advance message c).2 h, fun hne => absurd rfl (hne message)⟩
  | reading left => exact hsame _ (hkeep _ rfl rfl rfl rfl)
  | sendOutput bytes =>
    refine hsame _ ⟨rfl, rfl, fun op _ => ?_, [], (List.append_nil _).symm, nofun⟩
    simp [perform, sendData, sent, Write.isOwn]
  | exec | prepare => exact hsame _ (request_apart (fun _ => rfl) rfl c)
  | setKeyspace keyspace => exact hsame _ (setKeyspace_apart keyspace c)

/-- **An action** that is a step of the handshake takes it; `init` does so in a new
    connection. -/
theorem perform_advances {a : Action} (h : a.advance c = some step)
    (hnew : ∀ connect keyspace, a = .init connect keyspace → c.state = .new) :
    ∃ c', perform a c = (c', step.crash) ∧ c.Advances step c' := by
  have hnone : ∀ {writes : List Write} (op : UInt8),
      writes.countP (Write.isOwn op) = writes.countP (Write.isOwn op) +
        if (none : Option UInt8) = some op ∧ c.HasStream then 1 else 0 := by
    intro writes op
    simp only [reduceCtorEq, false_and]
    rfl
  cases a with
  | init connect keyspace =>
    cases h
    have hstate := hnew connect keyspace rfl
    refine ⟨resolve { c with connectCallback := connect, keyspaceCallback := keyspace }, ?_, ?_⟩
    · simp only [perform, init, eventReceived, eventReceivedWith, hstate]
    · exact ⟨hstate, rfl, rfl, fun op => hnone op⟩
  | onResolve status =>
    simp only [Action.advance] at h
    split at h
    · cases h
    · rename_i hs
      cases h
      refine ⟨connect { c with state := .resolved }, ?_, rfl, rfl, rfl, fun op => hnone op⟩
      rw [perform, onResolve, if_neg hs]
      rfl
  | onConnect status =>
    simp only [Action.advance] at h
    split at h
    · cases h
    rename_i hs
    have hperform : perform (.onConnect status) c =
        if c.ssl then ({ c.emit .readStart with state := .connected, reading := some [] }, none)
        else sendOptions { c.emit .readStart with state := .handshake } := by
      rw [perform, onConnect, if_neg hs]
      rfl
    rw [hperform]
    by_cases hssl : c.ssl = true
    · rw [if_pos hssl] at h
      cases h
      rw [if_pos hssl]
      exact ⟨_, rfl, rfl, rfl, rfl, fun op => hnone op⟩
    · rw [if_neg hssl] at h
      cases h
      rw [if_neg hssl]
      exact sendOwn_advances (d := { c.emit .readStart with state := .handshake }) cqlOpcodeOptions
        .options ⟨rfl, rfl, rfl, fun op => hnone op⟩ rfl rfl rfl rfl ⟨_, rfl⟩
  | onClose =>
    cases h
    exact ⟨_, rfl, rfl, rfl, (List.append_nil _).symm, fun op => hnone op⟩
  | readError =>
    cases h
    exact ⟨_, rfl, rfl, rfl, rfl, fun op => hnone op⟩
  | close =>
    cases h
    exact ⟨_, rfl, rfl, rfl, rfl, fun op => hnone op⟩
  | handshakeDone =>
    cases h
    exact sendOwn_advances (d := { c with state := .handshake }) cqlOpcodeOptions .options
      ⟨rfl, rfl, (List.append_nil _).symm, fun op => hnone op⟩ rfl rfl rfl rfl ⟨_, rfl⟩
  | dispatch message => exact (dispatch_advance message c).1 step h
  | onWrite | reading | sendOutput | exec | prepare | setKeyspace => cases h

end Connection

end CqlClient
