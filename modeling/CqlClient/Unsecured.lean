/-
  CqlClient formalization — a connection without its SSL session.

  Apart from `on_read`, the connect callback and the end of the handshake nothing in
  a connection asks whether there is an SSL session.  So what a connection with SSL
  does is what it does when the session is taken away (`unsecured`): with its output
  and the input that `on_read` has left, and with CONNECTED, where a connection
  without SSL never stays, taken for RESOLVED.
-/
import CqlClient.Lib.Refinement
import CqlClient.TlsHandshake

namespace CqlClient

def ClientConnectionState.unsecured : ClientConnectionState → ClientConnectionState
  | .connected => .resolved
  | s => s

/-- The write is a frame, and not output of the SSL session. -/
def Write.isFrame : Write → Bool
  | .frame _ => true
  | .sslOutput _ => false

/-- The connection without its SSL session, as far as its other calls are those that
    `keep` keeps. -/
def Connection.unsecured (keep : Output → Bool) (c : Connection) : Connection :=
  { c with
    state := c.state.unsecured
    ssl := false
    reading := none
    writes := c.writes.filter Write.isFrame
    out := c.out.filter keep }

/-- Every call other than `uv_read_start`. -/
def Output.isOther : Output → Bool
  | .readStart => false
  | _ => true

namespace Connection

/-- What is kept: all but `uv_read_start` at most. -/
def KeepsOther (keep : Output → Bool) : Prop := ∀ o : Output, o.isOther = true → keep o = true

variable {keep : Output → Bool} (hkeep : KeepsOther keep)

/-! ## Sending -/

theorem sendFrame_unsecured (f : SentFrame) (c : Connection) :
    (c.unsecured keep).sendData (.frame f) = (c.sendData (.frame f)).unsecured keep := by
  simp only [sendData, unsecured, List.filter_append]
  rfl

theorem sendMessage_unsecured (message : Message) (request : RequestPtr) (c : Connection) :
    (c.unsecured keep).sendMessage message request =
      (c.sendMessage message request).map (unsecured keep) id := by
  have hstorage : (c.unsecured keep).streamStorage = c.streamStorage := rfl
  simp only [sendMessage, hstorage]
  rcases c.streamStorage.setStream request with ⟨streamStorage, _ | stream⟩
  · rfl
  · simp only
    rcases ({ message with stream := toInt8 stream } : Message).prepare with ⟨m, _ | frame⟩
    · rfl
    · simp only
      split
      · exact Prod.ext (sendFrame_unsecured _ { c with streamStorage }) rfl
      · rfl

theorem sendOwn_unsecured (opcode : UInt8) (body : Body) (c : Connection) :
    (c.unsecured keep).sendOwn opcode body = (c.sendOwn opcode body).map (unsecured keep) id := by
  have hheap : (c.unsecured keep).heap = c.heap := rfl
  simp only [sendOwn, hheap]
  rcases Message.ofOpcode c.heap opcode with e | message
  · rfl
  · simp only [sendMessage_unsecured]
    rcases c.sendMessage { message with body := some body } .null with ⟨c', e | r⟩ <;> rfl

include hkeep in
theorem emit_unsecured {o : Output} (ho : o.isOther = true) (c : Connection) :
    (c.unsecured keep).emit o = (c.emit o).unsecured keep := by
  simp [emit, unsecured, hkeep o ho]

include hkeep in
theorem notify_unsecured (i : ℕ) (c : Connection) :
    (c.unsecured keep).notify i = (c.notify i).unsecured keep := by
  rw [notify, emit_unsecured hkeep rfl]
  rfl

include hkeep in
theorem sendRequest_unsecured (message : Message) (request : CallerRequest) (c : Connection) :
    (c.unsecured keep).sendRequest message request =
      (c.sendRequest message request).map (unsecured keep) id := by
  have hsend : ({ c.unsecured keep with
      requests := (c.unsecured keep).requests ++ [request] } : Connection).sendMessage message
        (.request (c.unsecured keep).requests.length) =
      (({ c with requests := c.requests ++ [request] } : Connection).sendMessage message
        (.request c.requests.length)).map (unsecured keep) id :=
    sendMessage_unsecured message _ { c with requests := c.requests ++ [request] }
  simp only [sendRequest, hsend]
  rcases ({ c with requests := c.requests ++ [request] } : Connection).sendMessage message
    (.request c.requests.length) with ⟨c', e | _ | err⟩
  · rfl
  · rfl
  · refine Prod.ext ?_ rfl
    exact notify_unsecured hkeep c.requests.length
      { c' with requests := c'.requests.modify c.requests.length fun r =>
        { r with error := some err } }

/-! ## Responses -/

include hkeep in
theorem notifyReady_unsecured (c : Connection) :
    (c.unsecured keep).notifyReady = c.notifyReady.unsecured keep := by
  have hcallback : (c.unsecured keep).connectCallback = c.connectCallback := rfl
  rw [notifyReady, notifyReady, hcallback]
  split
  · exact emit_unsecured hkeep rfl c
  · rfl

include hkeep in
theorem notifyError_unsecured (err : Error) (c : Connection) :
    (c.unsecured keep).notifyError err = (c.notifyError err).unsecured keep := by
  have hcallback : (c.unsecured keep).connectCallback = c.connectCallback := rfl
  rw [notifyError, notifyError, hcallback]
  split
  · exact emit_unsecured hkeep rfl c
  · rfl

include hkeep in
theorem complete_unsecured (request : RequestPtr) (response : ℕ) (c : Connection) :
    (c.unsecured keep).complete request response =
      (c.complete request response).map (unsecured keep) id := by
  unfold complete
  rcases request.deref with e | i
  · rfl
  · refine Prod.ext ?_ rfl
    have hemit := emit_unsecured hkeep (o := .access i) rfl c
    simp only [hemit]
    exact notify_unsecured hkeep i
      { c.emit (.access i) with
        requests := c.requests.modify i fun r => { r with result := some response } }

include hkeep in
theorem callPrepareCallback_unsecured (err : Option Error) (request : RequestPtr)
    (result : BodyResult) (c : Connection) :
    (c.unsecured keep).callPrepareCallback err request result =
      (c.callPrepareCallback err request result).map (unsecured keep) id := by
  have hcallback : (c.unsecured keep).prepareCallback = c.prepareCallback := rfl
  rw [callPrepareCallback, callPrepareCallback, hcallback]
  split
  · rcases request.deref with e | i
    · rfl
    · refine Prod.ext ?_ rfl
      simp only [emit_unsecured hkeep (o := .access i) rfl c]
      exact emit_unsecured hkeep rfl (c.emit (.access i))
  · rfl

theorem getStream_unsecured (stream : ℤ) (c : Connection) :
    (c.unsecured keep).getStream stream = (c.getStream stream).map (unsecured keep) id := rfl

include hkeep in
theorem onResult_unsecured (message : Message) (response : ℕ) (c : Connection) :
    (c.unsecured keep).onResult message response =
      (c.onResult message response).map (unsecured keep) id := by
  have hcallback : (c.unsecured keep).keyspaceCallback = c.keyspaceCallback := rfl
  simp only [onResult, hcallback, getStream_unsecured]
  split
  · rename_i result _
    split
    · split
      · exact Prod.ext (emit_unsecured hkeep rfl c) rfl
      · rfl
    rcases c.getStream message.stream with ⟨c₁, request, err⟩
    split
    · simp only [Prod.map, id, callPrepareCallback_unsecured hkeep]
      rcases c₁.callPrepareCallback err request result with ⟨c₂, _ | e⟩
      · cases err with
        | none => exact complete_unsecured hkeep request response c₂
        | some err => rfl
      · rfl
    · cases err with
      | none => exact complete_unsecured hkeep request response c₁
      | some err => exact Prod.ext (notifyError_unsecured hkeep err c₁) rfl
  · rfl

include hkeep in
theorem onError_unsecured (message : Message) (response : ℕ) (c : Connection) :
    (c.unsecured keep).onError message response =
      (c.onError message response).map (unsecured keep) id := by
  have hindex : (c.unsecured keep).state.index < ClientConnectionState.ready.index ↔
      c.state.index < ClientConnectionState.ready.index := by
    change c.state.unsecured.index < _ ↔ _
    cases c.state <;> decide
  simp only [onError, hindex]
  split
  · split
    · split
      · rfl
      · refine Prod.ext ?_ rfl
        simp only [notifyError_unsecured hkeep]
        rfl
    · rfl
  · rfl

include hkeep in
/-- **A response** does the same. -/
theorem dispatch_unsecured (message : Message) (c : Connection) :
    handlers.dispatch message (c.unsecured keep) =
      (handlers.dispatch message c).map (unsecured keep) id := by
  unfold Handlers.dispatch
  split
  · rfl
  split
  · rfl
  unfold Handlers.handle
  split
  · exact sendOwn_unsecured cqlOpcodeStartup (.startup { cqlVersion := c.cqlVersion })
      { (c.receive message).deleteResponse c.responses.length with state := .supported }
  split
  · exact onError_unsecured hkeep message c.responses.length (c.receive message)
  split
  · refine Prod.ext ?_ rfl
    exact notifyReady_unsecured hkeep
      { (c.receive message).deleteResponse c.responses.length with state := .ready }
  split
  · exact onResult_unsecured hkeep message c.responses.length (c.receive message)
  · rfl

/-! ## Calls and callbacks -/

include hkeep in
/-- **So does everything** but the connect callback and the end of the handshake. -/
theorem perform_unsecured {a : Action} (hcallback : a.isCallback = true)
    (hne : ¬ Attempt.Begins a) {c : Connection}
    (hnew : ∀ connect keyspace, a = .init connect keyspace → c.state = .new) :
    perform a (c.unsecured keep) = (perform a c).map (unsecured keep) id := by
  cases a with
  | init connect keyspace =>
    have hstate := hnew connect keyspace rfl
    have hstate' : (c.unsecured keep).state = .new := by
      change c.state.unsecured = _
      rw [hstate]
      rfl
    simp only [perform, init, eventReceived, eventReceivedWith, hstate, hstate']
    exact Prod.ext (emit_unsecured hkeep (o := .getaddrinfo) rfl
      { c with state := .new, connectCallback := connect, keyspaceCallback := keyspace }) rfl
  | onResolve status =>
    rw [perform, perform, onResolve, onResolve]
    split
    · rfl
    · exact Prod.ext (emit_unsecured hkeep rfl { c with state := .resolved }) rfl
  | onConnect status =>
    rw [perform, perform, onConnect, onConnect, if_pos (not_not.1 hne), if_pos (not_not.1 hne)]
    rfl
  | onClose | onWrite => rfl
  | readError | close =>
    refine Prod.ext ?_ rfl
    change ({ (c.unsecured keep).emit .close with state := .disconnecting } : Connection) = _
    rw [emit_unsecured hkeep rfl c]
    rfl
  | exec message callback =>
    have hnull : (c.unsecured keep).nullString = c.nullString := rfl
    rw [perform, perform, exec, exec, hnull]
    rcases CallerRequest.new c.nullString with _ | request
    · rfl
    · simp only [sendRequest_unsecured hkeep]
      rcases c.sendRequest message { request with callback } with ⟨c', e | i⟩ <;> rfl
  | prepare statement callback =>
    have hnull : (c.unsecured keep).nullString = c.nullString := rfl
    have hheap : (c.unsecured keep).heap = c.heap := rfl
    rw [perform, perform, prepare, prepare, hnull, hheap]
    rcases CallerRequest.new c.nullString with _ | request
    · rfl
    · rcases Message.ofOpcode c.heap cqlOpcodePrepare with e | message
      · rfl
      · simp only [sendRequest_unsecured hkeep]
        rcases c.sendRequest { message with body := some (.prepare ⟨statement⟩) }
          { request with callback, data := statement } with ⟨c', e | i⟩ <;> rfl
  | setKeyspace keyspace =>
    exact sendOwn_unsecured cqlOpcodeQuery (.query { query := ascii "USE " ++ keyspace }) c
  | _ => cases hcallback

end Connection

/-! ## The read loop -/

namespace ReadLoop
variable {S : Type} {f : List UInt8 → Body → Except Crash (Body × Bool)} {h : Handlers S}
  {v : S → S}

/-- The loop with another connection. -/
def mapConn (v : S → S) (st : ReadLoop S) : ReadLoop S := { st with conn := v st.conn }

/-- What the handlers do through `v` the loop does. -/
theorem iterate_mapConn (hv : ∀ m s, h.dispatch m (v s) = (h.dispatch m s).map v id)
    (st : ReadLoop S) : (st.mapConn v).iterate f h = (st.iterate f h).map (mapConn v) id := by
  have hwindow : (st.mapConn v).window = st.window := rfl
  have hincomming : (st.mapConn v).incomming = st.incomming := rfl
  rcases hw : st.window with _ | window
  · simp only [iterate, hwindow, hw]
    rfl
  rcases hc : st.incomming.consume f window with ⟨m, e | c⟩
  · simp only [iterate, hwindow, hw, hincomming, hc]
    rfl
  rcases hr : m.bodyReady with _ | _
  · rw [iterate_waiting hw hc hr, iterate_waiting (hwindow.trans hw) hc hr]
    rfl
  · rw [iterate_ready hw hc hr, iterate_ready (hwindow.trans hw) hc hr]
    have hdispatch : h.dispatch m (st.mapConn v).conn = (h.dispatch m st.conn).map v id :=
      hv m st.conn
    rw [hdispatch]
    rcases h.dispatch m st.conn with ⟨conn, e | _⟩ <;> rfl

theorem run_mapConn (hv : ∀ m s, h.dispatch m (v s) = (h.dispatch m s).map v id) (fuel : ℕ)
    (st : ReadLoop S) :
    (st.mapConn v).run f h fuel = (st.run f h fuel).map (Prod.map (mapConn v) id) := by
  have hremaining : (st.mapConn v).remaining = st.remaining := rfl
  induction fuel generalizing st with
  | zero =>
    rw [run, run, hremaining]
    split <;> rfl
  | succ fuel ih =>
    rw [run, run, hremaining]
    split
    · rfl
    · simp only [iterate_mapConn hv]
      rcases st.iterate f h with ⟨st', _ | e⟩
      · exact ih st' rfl
      · rfl

theorem start_mapConn (st : ReadLoop S) (input : List UInt8) :
    (st.mapConn v).start input = (st.start input).mapConn v := by
  simp only [start, mapConn]

theorem consume_mapConn (hv : ∀ m s, h.dispatch m (v s) = (h.dispatch m s).map v id)
    (st : ReadLoop S) (input : List UInt8) :
    (st.mapConn v).consume f h input = (st.consume f h input).map (mapConn v) id := by
  simp only [consume, start_mapConn, run_mapConn hv]
  generalize (st.start input).run f h input.length = r
  generalize st.start input = st
  cases r with
  | none => rfl
  | some r => rfl

end ReadLoop

/-! ## What libuv finds -/

namespace Attempt
variable {s : Attempt}

/-- Only `init` leads to NEW, and calls no connect; where the connection is closing, it
    has called `uv_close`, or libuv has called back. -/
theorem advance_enters {c : Connection} {a : Action} {step : Advance}
    (h : a.advance c = some step) :
    (step.state = .new →
      (∃ connect keyspace, a = .init connect keyspace) ∧ .tcpConnect ∉ step.calls) ∧
    (step.state = .disconnecting ∨ step.state = .disconnected →
      .close ∈ step.calls ∨ a = .onClose) := by
  cases a with
  | init connect keyspace =>
    cases h
    exact ⟨fun _ => ⟨⟨connect, keyspace, rfl⟩, by simp⟩, by simp⟩
  | onResolve status =>
    simp only [Action.advance] at h
    split at h
    · cases h
    · cases h
      exact ⟨by simp, by simp⟩
  | onConnect status =>
    simp only [Action.advance] at h
    split at h
    · cases h
    split at h
    · cases h
      exact ⟨by simp, by simp⟩
    · cases h
      exact ⟨by simp, by simp⟩
  | dispatch message =>
    simp only [Action.advance, Message.advance] at h
    split at h
    · cases h
    split at h
    · cases h
      exact ⟨by simp, by simp⟩
    split at h
    · cases h
      exact ⟨by simp, by simp⟩
    · cases h
  | onClose =>
    cases h
    exact ⟨by simp, fun _ => .inr rfl⟩
  | readError | close =>
    cases h
    exact ⟨by simp, fun _ => .inl (by simp)⟩
  | handshakeDone =>
    cases h
    exact ⟨by simp, by simp⟩
  | _ => cases h

/-- A connection leaves NEW when it connects, and is closing when it has called
    `uv_close`. -/
structure Entered (s : Attempt) : Prop where
  new : s.conn.state = .new → s.conn.calls .tcpConnect = 0
  closing : s.conn.state = .disconnecting ∨ s.conn.state = .disconnected →
    0 < s.conn.calls .close

theorem entered_of_reachable (h : (system true).Reachable s) : s.Entered := by
  induction h with
  | init h =>
    obtain ⟨heap, nullString, prepareCallback, rfl⟩ := h
    exact ⟨fun _ => rfl, by simp [Connection.new]⟩
  | @step s s' a hreach hs ih =>
    obtain ⟨hc, he, rfl⟩ := hs
    have hinv := inv_of_reachable hreach
    rcases hstep : a.advance s.conn with _ | step
    · obtain ⟨hapart, -⟩ := perform_eq_of_apart hinv hstep
      obtain ⟨hnew, hclosing⟩ := ih
      rw [← hapart.state] at hnew hclosing
      exact ⟨fun hstate => (hapart.calls rfl).trans (hnew hstate),
        fun hstate => (hclosing hstate).trans_eq (hapart.calls rfl).symm⟩
    · obtain ⟨-, -, hadv⟩ := hinv.of_advances hc he hstep
      obtain ⟨hnew, hclosing⟩ := advance_enters hstep
      have hconnect := hadv.calls .tcpConnect
      have hclose := hadv.calls .close
      rw [← hadv.state] at hnew hclosing
      constructor
      · intro hstate
        obtain ⟨⟨connect, keyspace, rfl⟩, hnone⟩ := hnew hstate
        rw [hconnect, ih.new (hinv.state_of_init he), List.count_eq_zero_of_not_mem hnone]
      · intro hstate
        rcases hclosing hstate with hmem | rfl
        · rw [hclose]
          exact Nat.add_pos_right _ (List.count_pos_iff.2 hmem)
        · -- the callback of a `uv_close`
          have hpos : s.closed < s.conn.calls .close := he
          omega

/-- **A connect that succeeds** finds the connection in RESOLVED. -/
theorem resolved_of_connect (h : (system true).Reachable s) {status : ℤ}
    (he : s.Enabled (.onConnect status)) (hs : status ≠ -1) : s.conn.state = .resolved := by
  obtain ⟨hnew, hclosing⟩ := entered_of_reachable h
  have hinv := inv_of_reachable h
  obtain ⟨hasked, hresolved, hconnect, hconnected, hread, -, -⟩ := hinv.counts
  have hone := hinv.counts.asked_le
  have hlt : s.connected < s.conn.calls .tcpConnect := he.1
  have hopen : ¬ 0 < s.conn.calls .close := fun hpos => hs (he.2 hpos)
  -- it is the only connect, and libuv does not read yet
  have hfar := (hinv.quiet (by omega)).2.2.2.2
  have hcurrent := hinv.current
  have hle : s.conn.state.progress ≤ 1 := by omega
  cases hstate : s.conn.state with
  | new =>
    have := hnew hstate
    omega
  | resolved => rfl
  | connected | handshake | supported | ready =>
    rw [hstate] at hle
    exact absurd hle (by decide)
  | disconnecting => exact absurd (hclosing (.inl hstate)) hopen
  | disconnected => exact absurd (hclosing (.inr hstate)) hopen

end Attempt

/-! ## A client and one without SSL -/

namespace Client
variable {σ : Type} {api : OpenSsl σ} {c c' p : Client σ}

/-- The client `p` has no SSL session, and is otherwise like `c`: in its connection, up to
    `uv_read_start`, and in the message under way. -/
structure Alike (c p : Client σ) : Prop where
  conn : p.conn.unsecured Output.isOther = c.conn.unsecured Output.isOther
  incomming : p.incomming = c.incomming
  plain : p.conn.unsecured (fun _ => true) = p.conn

theorem Alike.ssl (h : Alike c p) : p.conn.ssl = false := by
  rw [← h.plain]
  rfl

theorem Alike.reading (h : Alike c p) : p.conn.reading = none := by
  rw [← h.plain]
  rfl

/-- The clients have the same requests, streams and responses, and have written the same
    frames. -/
theorem Alike.core (h : Alike c p) : p.conn.toCore =
    { c.conn.toCore with writes := c.conn.writes.filter Write.isFrame } := by
  have hcore := congrArg Connection.toCore h.plain
  exact hcore.symm.trans (congrArg Connection.toCore h.conn)

theorem Alike.state (h : Alike c p) : p.conn.state = c.conn.state.unsecured := by
  have hstate := congrArg Connection.state h.plain
  exact hstate.symm.trans (congrArg Connection.state h.conn)

/-- Two calls that do the same leave the clients alike. -/
theorem Alike.perform {f : Connection → Connection × Option Crash} {d : Connection}
    (h : Alike c p) (hf : ∀ keep, Connection.KeepsOther keep →
      f (c.conn.unsecured keep) = (f c.conn).map (Connection.unsecured keep) id ∧
      f (p.conn.unsecured keep) = (f p.conn).map (Connection.unsecured keep) id)
    (hc : f c.conn = (d, none)) :
    ∃ e, f p.conn = (e, none) ∧ Alike { c with conn := d } { p with conn := e } := by
  obtain ⟨hc', hp'⟩ := hf Output.isOther fun _ ho => ho
  obtain ⟨-, hplain⟩ := hf (fun _ => true) fun _ _ => rfl
  rw [h.conn, hc', hc] at hp'
  rw [h.plain] at hplain
  rcases he : f p.conn with ⟨e, crash⟩
  rw [he] at hp' hplain
  simp only [Prod.map, id, Prod.mk.injEq] at hp' hplain
  obtain ⟨hconn, rfl⟩ := hp'
  exact ⟨e, rfl, hconn.symm, h.incomming, hplain.1.symm⟩

/-- **The read loop** dispatches the same to both. -/
theorem Alike.consume {input : List UInt8} (h : Alike c p) (hc : c.consume input = (c', none)) :
    ∃ p', p.consume input = (p', none) ∧ Alike c' p' := by
  have hloop : ∀ keep, Connection.KeepsOther keep → ∀ st : ReadLoop Connection,
      (st.mapConn (Connection.unsecured keep)).consume Body.consume Connection.handlers input =
        (st.consume Body.consume Connection.handlers input).map
          (ReadLoop.mapConn (Connection.unsecured keep)) id := fun keep hkeep st =>
    ReadLoop.consume_mapConn (Connection.dispatch_unsecured hkeep) st input
  have hp := hloop Output.isOther (fun _ ho => ho) { incomming := p.incomming, conn := p.conn }
  have hc' := hloop Output.isOther (fun _ ho => ho) { incomming := c.incomming, conn := c.conn }
  have hplain := hloop (fun _ => true) (fun _ _ => rfl)
    { incomming := p.incomming, conn := p.conn }
  simp only [ReadLoop.mapConn, h.conn, h.incomming, h.plain] at hp hc' hplain
  rw [hc'] at hp
  unfold Client.consume at hc ⊢
  rw [h.incomming]
  rcases hst : ReadLoop.consume Body.consume Connection.handlers
    { incomming := c.incomming, conn := c.conn } input with ⟨st, crash⟩
  rcases hst' : ReadLoop.consume Body.consume Connection.handlers
    { incomming := c.incomming, conn := p.conn } input with ⟨st', crash'⟩
  rw [hst] at hc hp
  rw [hst'] at hp hplain
  simp only [Prod.map, id, Prod.mk.injEq] at hc hp hplain
  obtain ⟨rfl, rfl⟩ := hc
  obtain ⟨hmap, rfl⟩ := hp
  refine ⟨_, rfl, (congrArg ReadLoop.conn hmap).symm, (congrArg ReadLoop.incomming hmap).symm, ?_⟩
  exact (congrArg ReadLoop.conn hplain.1).symm

/-- The output of the session is not a frame. -/
theorem Alike.sendOutput (h : Alike c p) (out : ReadWrite) : Alike (c.sendOutput out) p := by
  obtain ⟨hconn, hincomming, hplain⟩ := h
  unfold Client.sendOutput
  split
  · split
    · refine ⟨hconn.trans ?_, hincomming, hplain⟩
      simp [Connection.unsecured, Connection.sendData, Write.isFrame]
    · exact ⟨hconn, hincomming, hplain⟩
  · exact ⟨hconn, hincomming, hplain⟩

/-- **The end of the handshake** is the connect of a client without SSL. -/
theorem Alike.handshakeDone (api : OpenSsl σ) {d : Connection} (h : Alike c p)
    (hc : c.conn.handshakeDone = (d, none)) :
    ∃ p', step api p (.callback (.onConnect 0)) p' ∧ Alike { c with conn := d } p' := by
  have hperform : Connection.perform (.onConnect 0) p.conn =
      Connection.sendOptions { p.conn.emit .readStart with state := .handshake } := by
    have hssl : (p.conn.emit .readStart).ssl = false := h.ssl
    change Connection.sslHandshake { p.conn.emit .readStart with state := .connected } = _
    rw [Connection.sslHandshake, if_neg (by simp [hssl])]
    rfl
  have hlike : Alike { c with conn := { c.conn with state := .handshake } }
      { p with conn := { p.conn.emit .readStart with state := .handshake } } := by
    have hread : (p.conn.emit .readStart).unsecured Output.isOther =
        p.conn.unsecured Output.isOther := by
      simp [Connection.emit, Connection.unsecured, Output.isOther]
    have hplain : (p.conn.emit .readStart).unsecured (fun _ => true) =
        (p.conn.unsecured fun _ => true).emit .readStart := by
      simp [Connection.emit, Connection.unsecured]
    rw [h.plain] at hplain
    exact ⟨congrArg (fun c : Connection => { c with state := .handshake }) (hread.trans h.conn),
      h.incomming, congrArg (fun c : Connection => { c with state := .handshake }) hplain⟩
  obtain ⟨e, he, hlike'⟩ := hlike.perform (f := Connection.sendOptions) (d := d)
    (fun keep hkeep => ⟨Connection.sendOwn_unsecured _ _ _, Connection.sendOwn_unsecured _ _ _⟩) hc
  exact ⟨{ p with conn := e }, ⟨⟨rfl, .inl h.reading⟩, e, hperform.trans he, rfl⟩, hlike'⟩

/-- A connection in NEW has no SSL to be without. -/
theorem Alike.new (h : Alike c p) (hstate : c.conn.state = .new) : p.conn.state = .new := by
  rw [h.state, hstate]
  rfl

/-- **A connect** that libuv reports is not one yet. -/
theorem Alike.connect {status : ℤ} {d : Connection} (h : Alike c p) (hssl : c.conn.ssl = true)
    (hstate : status ≠ -1 → c.conn.state = .resolved)
    (hc : c.conn.onConnect status = (d, none)) : Alike { c with conn := d } p := by
  unfold Connection.onConnect at hc
  by_cases hs : status = -1
  · rw [if_pos hs] at hc
    cases hc
    exact h
  · rw [if_neg hs] at hc
    change Connection.sslHandshake { c.conn.emit .readStart with state := .connected } = _ at hc
    simp only [Connection.sslHandshake, Connection.emit, hssl, if_true] at hc
    cases hc
    refine ⟨h.conn.trans ?_, h.incomming, h.plain⟩
    simp [Connection.unsecured, Output.isOther, hstate hs, ClientConnectionState.unsecured]

/-- The end of a round. -/
theorem Alike.nextInput {input : List UInt8} {n : ℕ} (h : Alike c p)
    (hc : c.nextInput api input n = (c', none)) :
    ∃ p', (system api false).Path p (if n < input.length ∧ c.conn.sslHandshakeDone = false ∧
      api.isInitFinished c.session = true then [.callback (.onConnect 0)] else []) p' ∧
      Alike c' p' := by
  have hleft : ∀ left, Alike { c with conn := { c.conn with reading := left } } p :=
    fun left => ⟨h.conn, h.incomming, h.plain⟩
  unfold Client.nextInput at hc
  by_cases hlt : n < input.length
  · rw [if_pos hlt] at hc
    simp only [hlt, true_and]
    simp only at hc
    by_cases hdone : c.conn.sslHandshakeDone = false ∧ api.isInitFinished c.session = true
    · rw [if_pos hdone] at hc ⊢
      simp only [Prod.mk.injEq] at hc
      obtain ⟨rfl, hcrash⟩ := hc
      obtain ⟨p', hstep, hlike⟩ := (hleft (some (input.drop n))).handshakeDone api
        (Prod.ext rfl hcrash)
      exact ⟨p', .single hstep, hlike⟩
    · rw [if_neg hdone] at hc ⊢
      cases hc
      exact ⟨p, .nil p, hleft _⟩
  · rw [if_neg hlt] at hc
    rw [if_neg fun h => hlt h.1]
    cases hc
    exact ⟨p, .nil p, hleft _⟩

/-- What a client without SSL does in the place of a step: it connects when the end of the
    handshake is seen, and reads what a round passes on. -/
def plainEvents (api : OpenSsl σ) (c : Client σ) : Event → List Event
  | .callback (.onConnect _) => []
  | .callback a => [.callback a]
  | .read _ => []
  | .round =>
    match c.conn.reading with
    | some input => .read (decrypted api input c) ::
      if HandshakeSeen api input c then [.callback (.onConnect 0)] else []
    | none => []

/-- A round. -/
theorem Alike.round (h : Alike c p) (hs : step api c .round c') :
    ∃ p', (system api false).Path p (plainEvents api c .round) p' ∧ Alike c' p' := by
  obtain ⟨input, hreading, hround⟩ := hs
  rcases hrw : api.readWrite input [] c.session with ⟨session, out, err⟩
  obtain ⟨c₁, hcons, hnext⟩ := sslRound_inv hrw hround
  have hsession : Alike { c with session } p := ⟨h.conn, h.incomming, h.plain⟩
  -- the bytes that it passes on are read
  obtain ⟨p₁, hp₁, hlike⟩ : ∃ p₁, p.consume (decrypted api input c) = (p₁, none) ∧ Alike c₁ p₁ := by
    rw [decrypted, hrw]
    unfold consumeOutput at hcons
    rcases hb : applicationBytes out with _ | _ | ⟨b, bytes⟩
    · rw [hb] at hcons
      cases hcons
    · rw [hb] at hcons
      cases hcons
      exact ⟨p, rfl, hsession⟩
    · rw [hb] at hcons
      exact hsession.consume hcons
  have hread : step api p (.read (decrypted api input c)) p₁ := by
    refine ⟨h.reading, ?_⟩
    rw [onRead, h.ssl, if_neg Bool.false_ne_true, hp₁]
  obtain ⟨p', hpath, hlike'⟩ := (hlike.sendOutput out).nextInput hnext
  obtain ⟨hpath₁, hsession₁⟩ := consumeOutput_path hcons
  obtain ⟨hpath₂, hsession₂⟩ := sendOutput_path out c₁
  rw [(sameSsl_of_path (hpath₁.append hpath₂)).2, hsession₂.trans hsession₁] at hpath
  refine ⟨p', ?_, hlike'⟩
  simp only [plainEvents, hreading, HandshakeSeen, hrw]
  exact .cons hread hpath

end Client

/-! ## Runs -/

namespace TlsClient

open Connection

variable {σ : Type} {api : OpenSsl σ} {x x' : TlsClient σ} {p : Client σ} {e : Client.Event}

/-- **A step** of a client with SSL, on its event loop. -/
theorem plain_of_step (hreach : (system api).Reachable x) (h : x.client.Alike p)
    (hs : (system api).step x e x') :
    ∃ p', (Client.system api false).Path p (x.client.plainEvents api e) p' ∧
      x'.client.Alike p' := by
  obtain ⟨hattempt, hconn⟩ := reachable_attempt hreach
  obtain ⟨hstep, -, hpath, -⟩ := hs
  have hssl : x.client.conn.ssl = true := by
    rw [← hconn]
    exact Attempt.ssl_of_reachable hattempt
  cases e with
  | callback a =>
    obtain ⟨⟨hcallback, -⟩, d, hperform, hclient⟩ := hstep
    rcases hpath with _ | ⟨⟨-, he, -⟩, -⟩
    rw [hclient]
    by_cases hconnect : ∃ status, a = .onConnect status
    · obtain ⟨status, rfl⟩ := hconnect
      refine ⟨p, .nil p, h.connect hssl (fun hs => ?_) hperform⟩
      rw [← hconn]
      exact Attempt.resolved_of_connect hattempt he hs
    · have hne : ¬ Attempt.Begins a := by
        cases a with
        | onConnect status => exact absurd ⟨status, rfl⟩ hconnect
        | handshakeDone => cases hcallback
        | _ => exact id
      have hnew : ∀ connect keyspace, a = .init connect keyspace →
          x.client.conn.state = .new := by
        rintro connect keyspace rfl
        rw [← hconn]
        exact (Attempt.inv_of_reachable hattempt).state_of_init he
      obtain ⟨d', hd', hlike⟩ := h.perform (fun keep hkeep =>
        ⟨perform_unsecured hkeep hcallback hne hnew,
          perform_unsecured hkeep hcallback hne fun connect keyspace ha =>
            h.new (hnew connect keyspace ha)⟩) hperform
      refine ⟨{ p with conn := d' }, ?_, hlike⟩
      have hevents : x.client.plainEvents api (.callback a) = [.callback a] := by
        cases a with
        | onConnect status => exact absurd ⟨status, rfl⟩ hconnect
        | _ => rfl
      rw [hevents]
      exact .single ⟨⟨hcallback, .inl h.reading⟩, d', hd', rfl⟩
  | read bytes =>
    obtain ⟨-, hread⟩ := hstep
    rw [Client.onRead, if_pos hssl] at hread
    simp only [Prod.mk.injEq, and_true] at hread
    rw [← hread]
    exact ⟨p, .nil p, h.conn, h.incomming, h.plain⟩
  | round => exact h.round hstep

/-- **Whatever OpenSSL does, the run is one without SSL, step by step**: of a client that
    connects when the end of the handshake is seen, and reads what is passed on. -/
theorem plain_of_run {steps : List (TlsClient σ × Client.Event)}
    (h : (system api).Run x steps) :
    ∃ p, (Client.system api false).InStep (fun x e => x.client.plainEvents api e)
      (fun x p => x.client.Alike p) x steps p := by
  refine h.inStep ?_ fun x e x' p hreach hlike hs => plain_of_step hreach hlike hs
  rintro x ⟨⟨heap, nullString, prepareCallback, session, hclient⟩, -, -⟩
  refine ⟨⟨Connection.new heap nullString false prepareCallback, Message.new heap, session⟩,
    ⟨heap, nullString, prepareCallback, session, rfl⟩, ?_⟩
  rw [hclient]
  exact ⟨rfl, rfl, rfl⟩

/-- In the session that takes one byte at a time, the client without SSL has connected and
    sent its OPTIONS when the client with SSL has. -/
theorem plain_of_run_told : ∃ steps p,
    (Client.system oneByte false).InStep (fun x e => x.client.plainEvents oneByte e)
      (fun x p => x.client.Alike p) told steps p ∧
    p.conn.state = .handshake ∧ p.conn.sent cqlOpcodeOptions = 1 := by
  obtain ⟨steps, hrun⟩ := told_reachable.of_restrict.run
  obtain ⟨p, hp⟩ := plain_of_run hrun
  have hlike := hp.related
  refine ⟨steps, p, hp, ?_, ?_⟩
  · rw [hlike.state]
    rfl
  · rw [Connection.sent, hlike.core]
    decide +kernel

end TlsClient

end CqlClient
