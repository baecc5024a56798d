/-
  CqlClient formalization — a connection on the network.

  A `Client` is the connection with the message under way and its SSL session.
  `onRead` gets the bytes of one `uv_read` callback: without SSL they go to the
  read loop, and with SSL to a loop around `read_write`, whose rounds are steps
  of their own (`sslRound`); nothing else happens to the connection until that
  loop ends.  Every step is a sequence of actions of the connection
  (`step_path`), which brings the invariants of the actions to the bytes.
-/
import CqlClient.Requests
import CqlClient.States
import CqlClient.LoopSafety
import CqlClient.SslSession

namespace CqlClient

open ReadLoop

variable {σ : Type}

/-- The calls of the user. -/
def Action.isCall : Action → Bool
  | .exec _ _ | .prepare _ _ | .setKeyspace _ | .close => true
  | _ => false

/-- The actions that are not steps of `on_read`. -/
def Action.isCallback : Action → Bool
  | .dispatch _ | .reading _ | .sendOutput _ | .handshakeDone => false
  | _ => true

/-! ## The input that is left -/

namespace Connection

theorem sendMessage_reading (message : Message) (request : RequestPtr) (c : Connection) :
    (c.sendMessage message request).1.reading = c.reading := by
  unfold sendMessage
  split
  · rfl
  · simp only
    split
    · rfl
    · split <;> rfl

theorem sendOwn_reading (opcode : UInt8) (body : Body) (c : Connection) :
    (c.sendOwn opcode body).1.reading = c.reading := by
  unfold sendOwn
  split
  · rfl
  · rename_i message _
    have h := sendMessage_reading { message with body := some body } .null c
    split <;> rename_i hs <;> rwa [hs] at h

theorem sendRequest_reading (message : Message) (request : CallerRequest) (c : Connection) :
    (c.sendRequest message request).1.reading = c.reading := by
  have h := sendMessage_reading message (.request c.requests.length)
    { c with requests := c.requests ++ [request] }
  unfold sendRequest
  simp only
  split <;> rename_i hs <;> rwa [hs] at h

theorem request_reading {a : Action} (ha : a.isRequest = true) (c : Connection) :
    (perform a c).1.reading = c.reading := by
  rcases request_cases ha c with ⟨-, heq⟩ | ⟨-, message, r, -, -, -, -, heq⟩
  · rw [heq]
  · rw [heq, outcome_fst]
    exact sendRequest_reading message r c

end Connection

/-! ## Clients -/

structure Client (σ : Type) where
  conn : Connection
  incomming : Message
  session : σ

namespace Client

/-- `consume`. -/
def consume (input : List UInt8) (c : Client σ) : Client σ × Option Crash :=
  let (st, crash) := ReadLoop.consume Body.consume Connection.handlers
    { incomming := c.incomming, conn := c.conn } input
  ({ c with conn := st.conn, incomming := st.incomming }, crash)

/-- The messages that `consume` dispatches. -/
def dispatched (input : List UInt8) (c : Client σ) : List Message :=
  (ReadLoop.consume Body.consume Connection.handlers
    { incomming := c.incomming, conn := c.conn } input).1.dispatched

section
variable (api : OpenSsl σ)

/-- The application bytes of a round. -/
def applicationBytes (out : ReadWrite) : Option (List UInt8) :=
  match out.readOutput with
  | some (_, bytes) =>
    if out.readOutputSize ≤ bytes.length then some (bytes.take out.readOutputSize) else none
  | none => some []

/-- `consume(read_output, read_output_size)`, if there is any. -/
def consumeOutput (out : ReadWrite) (c : Client σ) : Client σ × Option Crash :=
  match applicationBytes out with
  | some [] => (c, none)
  | some bytes => c.consume bytes
  | none => (c, some .outOfBounds)

/-- `send_data(write_output, write_output_size)`, if there is any. -/
def sendOutput (out : ReadWrite) (c : Client σ) : Client σ :=
  match out.writeOutput with
  | some (_, bytes) =>
    if out.writeOutputSize ≠ 0 then
      { c with conn := c.conn.sendData (.sslOutput (bytes.take out.writeOutputSize)) }
    else c
  | none => c

/-- The end of a round: the rest of the input, and whether the handshake is done. -/
def nextInput (input : List UInt8) (readSize : ℕ) (c : Client σ) : Client σ × Option Crash :=
  if readSize < input.length then
    let c := { c with conn := { c.conn with reading := some (input.drop readSize) } }
    if c.conn.sslHandshakeDone = false ∧ api.isInitFinished c.session = true then
      let (conn, crash) := c.conn.handshakeDone
      ({ c with conn }, crash)
    else (c, none)
  else ({ c with conn := { c.conn with reading := none } }, none)

/-- One round of the SSL loop in `on_read`; an error of `read_write` is ignored. -/
def sslRound (input : List UInt8) (c : Client σ) : Client σ × Option Crash :=
  let (session, out, _) := api.readWrite input [] c.session
  match ({ c with session } : Client σ).consumeOutput out with
  | (c, some e) => (c, some e)
  | (c, none) => (c.sendOutput out).nextInput api input out.readSize

/-- `on_read` with `nread` bytes. -/
def onRead (bytes : List UInt8) (c : Client σ) : Client σ × Option Crash :=
  if c.conn.ssl then ({ c with conn := { c.conn with reading := some bytes } }, none)
  else c.consume bytes

/-- What can happen to a client. -/
inductive Event where
  /-- a callback of libuv other than `on_read`, or a call of the user -/
  | callback (a : Action)
  /-- `on_read` with these bytes -/
  | read (bytes : List UInt8)
  /-- the SSL loop of `on_read` goes round -/
  | round

/-- A callback: libuv makes none while `on_read` is in its loop, but the user can
    call from within a callback of his own. -/
def Callback (a : Action) (c : Client σ) : Prop :=
  a.isCallback = true ∧ (c.conn.reading = none ∨ a.isCall = true)

/-- One step of a client, which the process survives. -/
def step (c : Client σ) (e : Event) (c' : Client σ) : Prop :=
  match e with
  | .callback a =>
    c.Callback a ∧ ∃ conn, Connection.perform a c.conn = (conn, none) ∧ c' = { c with conn }
  | .read bytes => c.conn.reading = none ∧ c.onRead bytes = (c', none)
  | .round => ∃ input, c.conn.reading = some input ∧ c.sslRound api input = (c', none)

/-- The runs of a client, with SSL or without, from any state of the session. -/
def system (ssl : Bool) : System (Client σ) Event where
  init c := ∃ heap nullString prepareCallback session,
    c = ⟨Connection.new heap nullString ssl prepareCallback, Message.new heap, session⟩
  step := step api

/-! ## The actions of a step -/

/-- The application bytes that a round passes to `consume`. -/
def decrypted (input : List UInt8) (c : Client σ) : List UInt8 :=
  (applicationBytes (api.readWrite input [] c.session).2.1).getD []

/-- The round ends with the handshake found done. -/
def HandshakeSeen (input : List UInt8) (c : Client σ) : Prop :=
  (api.readWrite input [] c.session).2.1.readSize < input.length ∧
    c.conn.sslHandshakeDone = false ∧
    api.isInitFinished (api.readWrite input [] c.session).1 = true

instance (input : List UInt8) (c : Client σ) : Decidable (HandshakeSeen api input c) :=
  inferInstanceAs (Decidable (_ ∧ _))

/-- What a round writes. -/
def outputActions (out : ReadWrite) : List Action :=
  match out.writeOutput with
  | some (_, bytes) =>
    if out.writeOutputSize ≠ 0 then [.sendOutput (bytes.take out.writeOutputSize)] else []
  | none => []

/-- The actions of the connection in a round. -/
def roundActions (input : List UInt8) (c : Client σ) : List Action :=
  let out := (api.readWrite input [] c.session).2.1
  (c.dispatched (decrypted api input c)).map .dispatch ++ outputActions out ++
    [.reading (if out.readSize < input.length then some (input.drop out.readSize) else none)] ++
    if HandshakeSeen api input c then [.handshakeDone] else []

/-- The actions of the connection in a step. -/
def actions (c : Client σ) : Event → List Action
  | .callback a => [a]
  | .read bytes =>
    if c.conn.ssl then [.reading (some bytes)] else (c.dispatched bytes).map .dispatch
  | .round =>
    match c.conn.reading with
    | some input => roundActions api input c
    | none => []

variable {api} {c c' : Client σ}

theorem path_of_delivers {s s' : Connection} {ms : List Message}
    (h : Delivers Connection.handlers s ms s') :
    Connection.system.Path s (ms.map .dispatch) s' := by
  induction h with
  | nil s => exact .nil s
  | cons hm _ ih => exact .cons hm ih

/-- `consume` dispatches its messages, and does nothing else to the connection. -/
theorem consume_path {input : List UInt8} (h : c.consume input = (c', none)) :
    Connection.system.Path c.conn ((c.dispatched input).map .dispatch) c'.conn ∧
      c'.session = c.session := by
  rcases hc : ReadLoop.consume Body.consume Connection.handlers
    { incomming := c.incomming, conn := c.conn } input with ⟨st, crash⟩
  rw [consume, hc] at h
  cases h
  obtain ⟨ms, hms, hdel⟩ := consume_delivers hc
  have hdispatched : c.dispatched input = ms := by
    rw [dispatched, hc]
    exact hms
  rw [hdispatched]
  exact ⟨path_of_delivers hdel, rfl⟩

theorem dispatched_nil (c : Client σ) : c.dispatched [] = [] := rfl

theorem consumeOutput_path {out : ReadWrite} (h : c.consumeOutput out = (c', none)) :
    Connection.system.Path c.conn
      ((c.dispatched ((applicationBytes out).getD [])).map .dispatch) c'.conn ∧
      c'.session = c.session := by
  unfold consumeOutput at h
  rcases hb : applicationBytes out with _ | bytes
  · rw [hb] at h
    cases h
  rw [hb] at h
  rcases bytes with _ | ⟨b, bytes⟩
  · cases h
    exact ⟨.nil _, rfl⟩
  · exact consume_path h

theorem sendOutput_path (out : ReadWrite) (c : Client σ) :
    Connection.system.Path c.conn (outputActions out) (c.sendOutput out).conn ∧
      (c.sendOutput out).session = c.session := by
  unfold outputActions sendOutput
  rcases out.writeOutput with _ | ⟨_, bytes⟩
  · exact ⟨.nil _, rfl⟩
  · simp only
    split
    · exact ⟨.single rfl, rfl⟩
    · exact ⟨.nil _, rfl⟩

/-- The SSL flags are the same along a path. -/
theorem sameSsl_of_path {s s' : Connection} {as : List Action}
    (h : Connection.system.Path s as s') :
    s'.ssl = s.ssl ∧ s'.sslHandshakeDone = s.sslHandshakeDone := by
  induction h with
  | nil s => exact ⟨rfl, rfl⟩
  | cons hs _ ih =>
    have hstate := Connection.perform_state hs
    exact ⟨ih.1.trans hstate.ssl, ih.2.trans hstate.handshakeDone⟩

theorem nextInput_path {input : List UInt8} {readSize : ℕ}
    (h : c.nextInput api input readSize = (c', none)) :
    Connection.system.Path c.conn
      ([.reading (if readSize < input.length then some (input.drop readSize) else none)] ++
        if readSize < input.length ∧ c.conn.sslHandshakeDone = false ∧
          api.isInitFinished c.session = true then [.handshakeDone] else []) c'.conn := by
  unfold nextInput at h
  by_cases hlt : readSize < input.length
  · rw [if_pos hlt] at h
    simp only [hlt, true_and, if_true]
    have hread : Connection.system.Path c.conn [.reading (some (input.drop readSize))]
        { c.conn with reading := some (input.drop readSize) } := .single rfl
    refine hread.append ?_
    simp only at h
    by_cases hdone : c.conn.sslHandshakeDone = false ∧ api.isInitFinished c.session = true
    · rw [if_pos hdone] at h ⊢
      simp only [Prod.mk.injEq] at h
      obtain ⟨rfl, hcrash⟩ := h
      exact .single (Prod.ext rfl hcrash)
    · rw [if_neg hdone] at h ⊢
      cases h
      exact .nil _
  · rw [if_neg hlt] at h
    cases h
    simp only [hlt, false_and, if_false, List.append_nil]
    exact .single rfl

/-- The parts of a round that the process survives. -/
theorem sslRound_inv {input : List UInt8} {session : σ} {out : ReadWrite} {err : Option Error}
    (hrw : api.readWrite input [] c.session = (session, out, err))
    (h : c.sslRound api input = (c', none)) :
    ∃ c₁, ({ c with session } : Client σ).consumeOutput out = (c₁, none) ∧
      (c₁.sendOutput out).nextInput api input out.readSize = (c', none) := by
  unfold sslRound at h
  rw [hrw] at h
  simp only at h
  split at h
  · cases h
  · rename_i c₁ hcons
    exact ⟨c₁, hcons, h⟩

/-- A round is a path of the connection. -/
theorem sslRound_path {input : List UInt8} (h : c.sslRound api input = (c', none)) :
    Connection.system.Path c.conn (roundActions api input c) c'.conn := by
  rcases hrw : api.readWrite input [] c.session with ⟨session, out, err⟩
  obtain ⟨c₁, hcons, hnext⟩ := sslRound_inv hrw h
  obtain ⟨hpath₁, hsession₁⟩ := consumeOutput_path hcons
  obtain ⟨hpath₂, hsession₂⟩ := sendOutput_path out c₁
  have hpath₃ := nextInput_path hnext
  have hdone : (c₁.sendOutput out).conn.sslHandshakeDone = c.conn.sslHandshakeDone :=
    (sameSsl_of_path (hpath₁.append hpath₂)).2
  rw [hdone, hsession₂.trans hsession₁] at hpath₃
  have hactions : roundActions api input c =
      ((({ c with session } : Client σ).dispatched ((applicationBytes out).getD [])).map
        Action.dispatch ++ outputActions out) ++
        ([Action.reading
            (if out.readSize < input.length then some (input.drop out.readSize) else none)] ++
        if out.readSize < input.length ∧ c.conn.sslHandshakeDone = false ∧
          api.isInitFinished session = true then [Action.handshakeDone] else []) := by
    simp only [roundActions, decrypted, HandshakeSeen, hrw, List.append_assoc, dispatched]
  rw [hactions]
  exact (hpath₁.append hpath₂).append hpath₃

/-- The end of a round keeps what is left of the input. -/
theorem nextInput_spec {input : List UInt8} {n : ℕ} (h : c.nextInput api input n = (c', none)) :
    c'.session = c.session ∧
      c'.conn.reading = if n < input.length then some (input.drop n) else none := by
  unfold nextInput at h
  split at h
  · rename_i hlt
    rw [if_pos hlt]
    simp only at h
    split at h
    · simp only [Prod.mk.injEq] at h
      obtain ⟨rfl, -⟩ := h
      exact ⟨rfl, Connection.sendOwn_reading _ _ _⟩
    · cases h
      exact ⟨rfl, rfl⟩
  · rename_i hge
    cases h
    exact ⟨rfl, (if_neg hge).symm⟩

/-- The session after a round, and the input that is left. -/
theorem sslRound_spec {input : List UInt8} (h : c.sslRound api input = (c', none)) :
    c'.session = (api.readWrite input [] c.session).1 ∧
      c'.conn.reading =
        if (api.readWrite input [] c.session).2.1.readSize < input.length then
          some (input.drop (api.readWrite input [] c.session).2.1.readSize)
        else none := by
  rcases hrw : api.readWrite input [] c.session with ⟨session, out, err⟩
  obtain ⟨c₁, hcons, hnext⟩ := sslRound_inv hrw h
  obtain ⟨-, hsession₁⟩ := consumeOutput_path hcons
  obtain ⟨-, hsession₂⟩ := sendOutput_path out c₁
  obtain ⟨hsession, hreading⟩ := nextInput_spec hnext
  exact ⟨hsession.trans (hsession₂.trans hsession₁), hreading⟩

/-- **A step of a client is a path of the connection.** -/
theorem step_path {e : Event} (h : step api c e c') :
    Connection.system.Path c.conn (actions api c e) c'.conn := by
  cases e with
  | callback a =>
    obtain ⟨-, conn, hperform, rfl⟩ := h
    exact .single hperform
  | read bytes =>
    obtain ⟨-, h⟩ := h
    unfold onRead at h
    by_cases hssl : c.conn.ssl = true
    · rw [if_pos hssl] at h
      simp only [actions, if_pos hssl]
      cases h
      exact .single rfl
    · rw [if_neg hssl] at h
      simp only [actions, if_neg hssl]
      exact (consume_path h).1
  | round =>
    obtain ⟨input, hreading, h⟩ := h
    simp only [actions, hreading]
    exact sslRound_path h

/-- The connection of a client takes the runs of a connection. -/
theorem conn_reachable {ssl : Bool} (h : (system api ssl).Reachable c) :
    Connection.system.Reachable c.conn ∧ c.conn.ssl = ssl := by
  induction h with
  | init h =>
    obtain ⟨heap, nullString, prepareCallback, session, rfl⟩ := h
    exact ⟨.init ⟨heap, nullString, ssl, prepareCallback, rfl⟩, rfl⟩
  | step _ hs ih =>
    have hpath := step_path hs
    exact ⟨ih.1.path hpath, (sameSsl_of_path hpath).1.trans ih.2⟩

end

end Client

end CqlClient
