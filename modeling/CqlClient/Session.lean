/-
  CqlClient formalization — the steps of a connection.

  An `Action` is one call into the connection: a completion from libuv, a
  message that the read loop dispatches, a step of `on_read`'s SSL loop, or a
  call of the user.  What an action can do to the requests, the streams and the
  writes is said once, in `perform_effect`; the invariants of the runs follow
  from it.
-/
import CqlClient.Connection

namespace CqlClient

open StreamStorage

/-- The calls into a connection. -/
inductive Action where
  | init (connect keyspace : Bool)
  | onResolve (status : ℤ)
  | onConnect (status : ℤ)
  | onClose
  /-- `on_write` for the write at this position -/
  | onWrite (write : ℕ) (status : ℤ)
  /-- `on_read` with `nread = -1` -/
  | readError
  /-- a message that `consume` releases -/
  | dispatch (message : Message)
  /-- the input that `on_read` has left, when its SSL loop moves on -/
  | reading (left : Option (List UInt8))
  /-- `send_data(write_output)` in `on_read` -/
  | sendOutput (bytes : List UInt8)
  /-- `on_read` finds the SSL handshake done -/
  | handshakeDone
  | exec (message : Message) (callback : Bool)
  | prepare (statement : List UInt8) (callback : Bool)
  | setKeyspace (keyspace : List UInt8)
  | close

/-- The user's requests. -/
def Action.isRequest : Action → Bool
  | .exec _ _ | .prepare _ _ => true
  | _ => false

namespace Connection

/-- What `on_read` does when the SSL handshake is done. -/
def handshakeDone (c : Connection) : Connection × Option Crash :=
  ({ c with state := .handshake } : Connection).eventReceived

/-- A call whose result the caller of the connection gets. -/
def outcome {α : Type} : Connection × Except Crash α → Connection × Option Crash
  | (c, .error e) => (c, some e)
  | (c, .ok _) => (c, none)

/-- One action.  `on_write` only prints and frees. -/
def perform : Action → Connection → Connection × Option Crash
  | .init connect keyspace, c => c.init connect keyspace
  | .onResolve status, c => c.onResolve status
  | .onConnect status, c => c.onConnect status
  | .onClose, c => c.onClose
  | .onWrite _ _, c => (c, none)
  | .readError, c => (c.close, none)
  | .dispatch message, c => handlers.dispatch message c
  | .reading left, c => ({ c with reading := left }, none)
  | .sendOutput bytes, c => (c.sendData (.sslOutput bytes), none)
  | .handshakeDone, c => c.handshakeDone
  | .exec message callback, c => outcome (c.exec message callback)
  | .prepare statement callback, c => outcome (c.prepare statement callback)
  | .setKeyspace keyspace, c => c.setKeyspace keyspace
  | .close, c => (c.close, none)

end Connection

/-! ## Effects -/

/-- A frame is sent on the stream that `set_stream` returns for its request. -/
structure Core.Sends (s : Core) (f : SentFrame) (s' : Core) : Prop where
  free : s.streamStorage.availableStreamsIndex < cqlStreamIdMax
  stream : (s.streamStorage.setStream f.request).2 = .ok f.stream
  eq : s' = { s with
    streamStorage := (s.streamStorage.setStream f.request).1
    writes := s.writes ++ [.frame f] }

/-- Nothing, or a frame of the connection's own. -/
inductive Core.Own (s s' : Core) : Prop where
  | nothing (h : s' = s)
  | sends (f : SentFrame) (hf : f.request = .null) (h : s.Sends f s')

/-- A response that releases the stream it comes on, if it is allocated. -/
def Releases (message : Message) : Prop :=
  message.opcode = cqlOpcodeResult ∧
    ∃ result, message.body = some (.result result) ∧ result.kind ≠ cqlResultKindSetKeyspace

/-- What the dispatch of a response does. -/
inductive Core.Dispatches (s : Core) (message : Message) (s' : Core) : Prop where
  /-- the stream is not released -/
  | keeps (h : ¬ Releases message)
    (hown : ({ s with responses := s.responses ++ [message] } : Core).Own s')
  /-- there is nothing to release -/
  | unknown (h : Releases message)
    (halloc : s.streamStorage.allocatedStreams message.stream.toNat = false)
    (heq : s' = { s with responses := s.responses ++ [message] })
  /-- the request on the stream is completed with the response -/
  | completes (h : Releases message) (i : ℕ)
    (halloc : s.streamStorage.allocatedStreams message.stream.toNat = true)
    (hstorage : s.streamStorage.storage message.stream.toNat = .request i)
    (heq : s' = { s with
      streamStorage := (s.streamStorage.getStream message.stream.toNat true).1
      requests := (s.requests.modify i fun r => { r with result := some s.responses.length }).modify
        i CallerRequest.notify
      responses := s.responses ++ [message] })

/-- What `exec` and `prepare` do with a new request. -/
inductive Core.Requests (s s' : Core) : Prop where
  /-- its frame is sent -/
  | sends (r : CallerRequest) (f : SentFrame) (hr : r.notified = 0) (hres : r.result = none)
    (hf : f.request = .request s.requests.length)
    (h : ({ s with requests := s.requests ++ [r] } : Core).Sends f s')
  /-- there is no stream, and it is told so -/
  | refused (r : CallerRequest) (hr : r.notified = 1) (hres : r.result = none)
    (hfull : cqlStreamIdMax ≤ s.streamStorage.availableStreamsIndex)
    (heq : s' = { s with requests := s.requests ++ [r] })

/-- What an action other than a dispatch does. -/
inductive Core.Acts (s s' : Core) : Prop where
  | own (h : s.Own s')
  | output (bytes : List UInt8) (heq : s' = { s with writes := s.writes ++ [.sslOutput bytes] })
  | request (h : s.Requests s')

namespace Connection
variable {c c' : Connection}

/-- `send_message` sends the frame, or there is no stream. -/
theorem sendMessage_effect {message : Message} {request : RequestPtr} {r : Option Error}
    (h : c.sendMessage message request = (c', .ok r)) :
    (∃ f, f.request = request ∧ r = none ∧ c.toCore.Sends f c'.toCore) ∨
    (cqlStreamIdMax ≤ c.streamStorage.availableStreamsIndex ∧ c' = c ∧
      r = some noAvailableStreams) := by
  unfold sendMessage at h
  rcases Nat.lt_or_ge c.streamStorage.availableStreamsIndex cqlStreamIdMax with hlt | hge
  · obtain ⟨id, -, -, hout, -⟩ := setStream_ok hlt request
    rcases hset : c.streamStorage.setStream request with ⟨storage, e | id'⟩
    · rw [hset] at hout; cases hout
    · rw [hset] at h
      simp only at h
      split at h
      · cases h
      · rename_i m frame hprep
        split at h
        · simp only [Prod.mk.injEq, Except.ok.injEq] at h
          obtain ⟨rfl, rfl⟩ := h
          refine .inl ⟨⟨m.opcode, id', request, frame⟩, rfl, rfl, hlt, ?_, ?_⟩
          · simp only [hset]
          · simp only [sendData, hset]
        · cases h
  · rw [setStream_error hge] at h
    simp only [Prod.mk.injEq, Except.ok.injEq] at h
    obtain ⟨rfl, rfl⟩ := h
    exact .inr ⟨hge, rfl, rfl⟩

/-- `send_options`, `send_startup` and `set_keyspace`. -/
theorem sendOwn_effect {opcode : UInt8} {body : Body} (h : c.sendOwn opcode body = (c', none)) :
    c.toCore.Own c'.toCore := by
  unfold sendOwn at h
  split at h
  · cases h
  · split at h
    · cases h
    · rename_i hsend
      simp only [Prod.mk.injEq, and_true] at h
      subst h
      rcases sendMessage_effect hsend with ⟨f, hf, -, hs⟩ | ⟨-, rfl, -⟩
      · exact .sends f hf hs
      · exact .nothing rfl

theorem notifyReady_core (c : Connection) : c.notifyReady.toCore = c.toCore := by
  unfold notifyReady
  split <;> rfl

theorem notifyError_core (c : Connection) (err : Error) :
    (c.notifyError err).toCore = c.toCore := by
  unfold notifyError
  split <;> rfl

/-- `event_received`. -/
theorem eventReceived_effect (h : c.eventReceived = (c', none)) : c.toCore.Own c'.toCore := by
  unfold eventReceived eventReceivedWith at h
  split at h
  · cases h; exact .nothing rfl
  · cases h; exact .nothing rfl
  · unfold sslHandshake eventReceivedWith at h
    split at h
    · cases h; exact .nothing rfl
    · exact sendOwn_effect (c := { c with state := .handshake }) h
  · exact sendOwn_effect h
  · exact sendOwn_effect h
  · cases h; exact .nothing (notifyReady_core c)
  · cases h
  · cases h

/-- The fields of `Core` are all that `on_result` changes for its request. -/
theorem complete_effect {request : RequestPtr} {response : ℕ}
    (h : c.complete request response = (c', none)) :
    ∃ i, request = .request i ∧ c'.toCore = { c.toCore with
      requests := (c.requests.modify i fun r => { r with result := some response }).modify i
        CallerRequest.notify } := by
  unfold complete at h
  rcases request with _ | _ | i
  · cases h
  · cases h
  · cases h
    exact ⟨i, rfl, rfl⟩

theorem callPrepareCallback_effect {err : Option Error} {request : RequestPtr}
    {result : BodyResult} (h : c.callPrepareCallback err request result = (c', none)) :
    c'.toCore = c.toCore := by
  unfold callPrepareCallback at h
  split at h
  · split at h
    · cases h
    · cases h; rfl
  · cases h; rfl

/-- `on_result` for a kind other than a keyspace: with `get_stream` and, if that
    succeeds, the completion of the request. -/
theorem onResult_effect {message : Message} {result : BodyResult} {response : ℕ}
    (hbody : message.body = some (.result result))
    (hkind : result.kind ≠ cqlResultKindSetKeyspace)
    (h : c.onResult message response = (c', none)) :
    ∃ c₁ : Connection, c₁.toCore = (c.getStream message.stream).1.toCore ∧
      ((c.getStream message.stream).2.2 = none →
        c₁.complete (c.getStream message.stream).2.1 response = (c', none)) ∧
      ((c.getStream message.stream).2.2 ≠ none → c'.toCore = c₁.toCore) := by
  unfold onResult at h
  rw [hbody] at h
  simp only [if_neg hkind] at h
  rcases hget : c.getStream message.stream with ⟨c₁, request, err⟩
  rw [hget] at h
  split at h
  · rcases hcall : c₁.callPrepareCallback err request result with ⟨c₂, e | e⟩
    · rw [hcall] at h
      refine ⟨c₂, callPrepareCallback_effect hcall, ?_, ?_⟩
      · rintro rfl
        exact h
      · intro hne
        rcases err with _ | err
        · exact absurd rfl hne
        · cases h; rfl
    · rw [hcall] at h; cases h
  · refine ⟨c₁, rfl, ?_, ?_⟩
    · rintro rfl
      exact h
    · intro hne
      rcases err with _ | err
      · exact absurd rfl hne
      · cases h; exact notifyError_core c₁ err

/-- `on_result` for a keyspace. -/
theorem onResult_core {message : Message} {response : ℕ}
    (hrel : ¬ ∃ result : BodyResult, message.body = some (.result result) ∧
      result.kind ≠ cqlResultKindSetKeyspace)
    (h : c.onResult message response = (c', none)) : c'.toCore = c.toCore := by
  unfold onResult at h
  split at h
  · rename_i result hbody
    have hkind : result.kind = cqlResultKindSetKeyspace := by
      by_contra hne
      exact hrel ⟨result, hbody, hne⟩
    simp only [if_pos hkind] at h
    split at h <;> cases h <;> rfl
  · cases h

theorem onError_core {message : Message} {response : ℕ}
    (h : c.onError message response = (c', none)) : c'.toCore = c.toCore := by
  unfold onError at h
  split at h
  · split at h
    · split at h
      · cases h
      · cases h
        exact notifyError_core c _
    · cases h; rfl
  · cases h

theorem modify_concat {α : Type} (l : List α) (a : α) (g : α → α) :
    (l ++ [a]).modify l.length g = l ++ [g a] := by
  induction l with
  | nil => rfl
  | cons b l ih => simp [ih]

/-- `exec` and `prepare`. -/
theorem sendRequest_effect {message : Message} {r : CallerRequest} (hr : r.notified = 0)
    (hres : r.result = none) (h : outcome (c.sendRequest message r) = (c', none)) :
    c.toCore.Requests c'.toCore := by
  rcases hsend : c.sendRequest message r with ⟨c₁, e | i⟩
  · rw [hsend] at h; cases h
  rw [hsend] at h
  cases h
  unfold sendRequest at hsend
  simp only at hsend
  split at hsend
  · cases hsend
  · rename_i hs
    cases hsend
    rcases sendMessage_effect hs with ⟨f, hf, -, hs⟩ | ⟨-, -, hne⟩
    · exact .sends r f hr hres hf hs
    · cases hne
  · rename_i c₂ err hs
    cases hsend
    rcases sendMessage_effect hs with ⟨-, -, hne, -⟩ | ⟨hfull, rfl, -⟩
    · cases hne
    · refine .refused (CallerRequest.notify { r with error := some err })
        (by simp [CallerRequest.notify, hr]) hres hfull ?_
      simp only [notify, emit, modify_concat]

theorem outcome_fst {α : Type} (r : Connection × Except Crash α) : (outcome r).1 = r.1 := by
  obtain ⟨c, _ | _⟩ := r <;> rfl

/-- **A call of the user** throws before it has done anything, or sends a new request. -/
theorem request_cases {a : Action} (ha : a.isRequest = true) (c : Connection) :
    (c.nullString = .throws ∧ perform a c = (c, none)) ∨
    (c.nullString ≠ .throws ∧ ∃ message r, r.notified = 0 ∧ r.result = none ∧ r.error = none ∧
      r.flag = false ∧ perform a c = outcome (c.sendRequest message r)) := by
  rcases hnull : c.nullString with _ | text
  · refine .inl ⟨rfl, ?_⟩
    cases a with
    | exec message callback => rw [perform, exec, hnull]; rfl
    | prepare statement callback => rw [perform, prepare, hnull]; rfl
    | _ => cases ha
  · refine .inr ⟨nofun, ?_⟩
    cases a with
    | exec message callback =>
      refine ⟨message, { data := text, callback }, rfl, rfl, rfl, rfl, ?_⟩
      rw [perform, exec, hnull]
      rfl
    | prepare statement callback =>
      refine ⟨{ Message.new c.heap with
          opcode := cqlOpcodePrepare, body := some (.prepare ⟨statement⟩) },
        { data := statement, callback }, rfl, rfl, rfl, rfl, ?_⟩
      rw [perform, prepare, hnull]
      rfl
    | _ => cases ha

theorem perform_throws {a : Action} (ha : a.isRequest = true) (h : c.nullString = .throws) :
    perform a c = (c, none) := by
  rcases request_cases ha c with ⟨-, heq⟩ | ⟨hne, -⟩
  · exact heq
  · exact absurd h hne

/-- Nothing is done, or there is a new request. -/
theorem request_effect {a : Action} (ha : a.isRequest = true) (h : perform a c = (c', none)) :
    (c.nullString = .throws ∧ c' = c) ∨
      (c.nullString ≠ .throws ∧ c.toCore.Requests c'.toCore) := by
  rcases request_cases ha c with ⟨hthrows, heq⟩ | ⟨hne, message, r, hr, hres, -, -, heq⟩
  · exact .inl ⟨hthrows, (congrArg Prod.fst (h.symm.trans heq))⟩
  · exact .inr ⟨hne, sendRequest_effect hr hres (heq.symm.trans h)⟩

/-- Neither a response nor a request: at most a frame of the connection's own, or
    output of the SSL session. -/
theorem other_effect {a : Action} (hne : ∀ message, a ≠ .dispatch message)
    (hreq : a.isRequest = false) (h : perform a c = (c', none)) :
    c.toCore.Own c'.toCore ∨ ∃ bytes, a = .sendOutput bytes ∧
      c'.toCore = { c.toCore with writes := c.writes ++ [.sslOutput bytes] } := by
  cases a with
  | init connect keyspace =>
    exact .inl (eventReceived_effect
      (c := { c with connectCallback := connect, keyspaceCallback := keyspace }) h)
  | onResolve status =>
    change c.onResolve status = _ at h
    unfold onResolve at h
    split at h
    · cases h; exact .inl (.nothing rfl)
    · exact .inl (eventReceived_effect (c := { c with state := .resolved }) h)
  | onConnect status =>
    change c.onConnect status = _ at h
    unfold onConnect at h
    split at h
    · cases h; exact .inl (.nothing rfl)
    · exact .inl (eventReceived_effect (c := { c.emit .readStart with state := .connected }) h)
  | onClose => cases h
  | onWrite i status => cases h; exact .inl (.nothing rfl)
  | readError => cases h; exact .inl (.nothing rfl)
  | dispatch message => exact absurd rfl (hne message)
  | reading left => cases h; exact .inl (.nothing rfl)
  | sendOutput bytes => cases h; exact .inr ⟨bytes, rfl, rfl⟩
  | handshakeDone => exact .inl (eventReceived_effect (c := { c with state := .handshake }) h)
  | exec message callback => cases hreq
  | prepare statement callback => cases hreq
  | setKeyspace keyspace =>
    change c.setKeyspace keyspace = _ at h
    unfold setKeyspace at h
    exact .inl (sendOwn_effect h)
  | close => cases h; exact .inl (.nothing rfl)

/-- **Every action but a response.** -/
theorem perform_effect {a : Action} (hne : ∀ message, a ≠ .dispatch message)
    (h : perform a c = (c', none)) : c.toCore.Acts c'.toCore := by
  rcases hreq : a.isRequest with _ | _
  · rcases other_effect hne hreq h with hown | ⟨bytes, -, heq⟩
    · exact .own hown
    · exact .output bytes heq
  · rcases request_effect hreq h with ⟨-, rfl⟩ | ⟨-, hrequest⟩
    · exact .own (.nothing rfl)
    · exact .request hrequest

/-- **A response.** -/
theorem dispatch_effect {message : Message}
    (h : handlers.dispatch message c = (c', none)) : c.toCore.Dispatches message c'.toCore := by
  unfold Handlers.dispatch at h
  split at h
  · cases h
  split at h
  · cases h
  unfold Handlers.handle at h
  split at h
  · rename_i hop
    exact .keeps (by simp [Releases, hop, cqlOpcodeSupported, cqlOpcodeResult])
      (eventReceived_effect
        (c := { (c.receive message).deleteResponse c.responses.length with state := .supported }) h)
  split at h
  · rename_i hop
    exact .keeps (by simp [Releases, hop, cqlOpcodeError, cqlOpcodeResult])
      (.nothing (onError_core (c := c.receive message) h))
  split at h
  · rename_i hop
    exact .keeps (by simp [Releases, hop, cqlOpcodeReady, cqlOpcodeResult])
      (eventReceived_effect
        (c := { (c.receive message).deleteResponse c.responses.length with state := .ready }) h)
  split at h
  swap
  · cases h
  rename_i hop
  change (c.receive message).onResult message c.responses.length = _ at h
  by_cases hrel : Releases message
  · obtain ⟨-, result, hbody, hkind⟩ := hrel
    obtain ⟨c₁, hc₁, hok, herr⟩ := onResult_effect hbody hkind h
    rcases halloc : c.streamStorage.allocatedStreams message.stream.toNat with _ | _
    · have hget : (c.receive message).getStream message.stream =
          (c.receive message, c.streamStorage.storage message.stream.toNat,
            some alreadyReleased) := by
        simp only [getStream, receive, getStream_released halloc]
      rw [hget] at hc₁ herr
      exact .unknown ⟨hop, result, hbody, hkind⟩ halloc ((herr (by simp)).trans hc₁)
    · have hget : ((c.receive message).getStream message.stream).2.2 = none := by
        simp [getStream, receive, StreamStorage.getStream, halloc]
      obtain ⟨i, hi, hcomplete⟩ := complete_effect (hok hget)
      refine .completes ⟨hop, result, hbody, hkind⟩ i halloc ?_ ?_
      · rw [← hi]
        simp [getStream, receive, StreamStorage.getStream, halloc]
      · rw [hcomplete, hc₁]
        rfl
  · exact .keeps hrel (.nothing (onResult_core (c := c.receive message)
      (fun hrel' => hrel ⟨hop, hrel'⟩) h))

end Connection

end CqlClient
