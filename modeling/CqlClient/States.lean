/-
  CqlClient formalization — the state of a connection, and what never changes.

  The SSL flags and the protocol's version are never written, and the library stays
  the same.  With SSL the state after an action is determined by the action and the
  state before (`perform_state`); without, `ssl_handshake` goes on to the handshake
  state at once.
-/
import CqlClient.Session

namespace CqlClient

open ClientConnectionState

/-- The state after an action, with SSL. -/
def Action.nextState : Action → ClientConnectionState → ClientConnectionState
  | .onResolve status, s => if status = -1 then s else resolved
  | .onConnect status, s => if status = -1 then s else connected
  | .onClose, _ => disconnected
  | .readError, _ | .close, _ => disconnecting
  | .dispatch message, s =>
    if message.opcode = cqlOpcodeSupported then supported
    else if message.opcode = cqlOpcodeReady then ready
    else s
  | .handshakeDone, _ => handshake
  | _, s => s

/-- The responses that an action deletes: those of the handlers other than `on_result`. -/
def Action.deletes (c : Connection) : Action → List ℕ
  | .dispatch message => if message.opcode = cqlOpcodeResult then [] else [c.responses.length]
  | _ => []

/-- What is never written is the same, with SSL the state is `state`, and these responses
    were deleted. -/
structure Connection.Enters (c : Connection) (state : ClientConnectionState) (deleted : List ℕ)
    (c' : Connection) : Prop where
  ssl : c'.ssl = c.ssl
  handshakeDone : c'.sslHandshakeDone = c.sslHandshakeDone
  cqlVersion : c'.cqlVersion = c.cqlVersion
  nullString : c'.nullString = c.nullString
  deleted : c'.deleted = deleted
  state : c.ssl = true → c'.state = state

namespace Connection
variable {c c' : Connection} {state : ClientConnectionState} {deleted : List ℕ}

/-- The connection stays in its state, and nothing is deleted. -/
def Keeps (c c' : Connection) : Prop := c.Enters c.state c.deleted c'

theorem Keeps.refl (c : Connection) : c.Keeps c := ⟨rfl, rfl, rfl, rfl, rfl, fun _ => rfl⟩

theorem Enters.keeps {c₁ : Connection} (h : c.Enters state deleted c₁) (h' : c₁.Keeps c') :
    c.Enters state deleted c' where
  ssl := h'.ssl.trans h.ssl
  handshakeDone := h'.handshakeDone.trans h.handshakeDone
  cqlVersion := h'.cqlVersion.trans h.cqlVersion
  nullString := h'.nullString.trans h.nullString
  deleted := h'.deleted.trans h.deleted
  state hssl := (h'.state (h.ssl.trans hssl)).trans (h.state hssl)

theorem sendMessage_keeps (message : Message) (request : RequestPtr) (c : Connection) :
    c.Keeps (c.sendMessage message request).1 := by
  unfold sendMessage
  split
  · exact ⟨rfl, rfl, rfl, rfl, rfl, fun _ => rfl⟩
  · simp only
    split
    · exact ⟨rfl, rfl, rfl, rfl, rfl, fun _ => rfl⟩
    · split <;> exact ⟨rfl, rfl, rfl, rfl, rfl, fun _ => rfl⟩

theorem sendOwn_keeps (opcode : UInt8) (body : Body) (c : Connection) :
    c.Keeps (c.sendOwn opcode body).1 := by
  unfold sendOwn
  split
  · exact .refl c
  · rename_i message hm
    have hsend := sendMessage_keeps { message with body := some body } .null c
    split <;> rename_i hs <;> rwa [hs] at hsend

theorem notifyError_keeps (err : Error) (c : Connection) : c.Keeps (c.notifyError err) := by
  unfold notifyError
  split <;> exact ⟨rfl, rfl, rfl, rfl, rfl, fun _ => rfl⟩

/-- `event_received` runs in the state it is called in. -/
theorem eventReceived_keeps (c : Connection) : c.Keeps c.eventReceived.1 := by
  unfold eventReceived eventReceivedWith
  split
  · exact ⟨rfl, rfl, rfl, rfl, rfl, fun _ => rfl⟩
  · exact ⟨rfl, rfl, rfl, rfl, rfl, fun _ => rfl⟩
  · unfold sslHandshake
    split
    · exact ⟨rfl, rfl, rfl, rfl, rfl, fun _ => rfl⟩
    · rename_i hssl
      have h := sendOwn_keeps cqlOpcodeOptions .options { c with state := handshake }
      exact ⟨h.ssl, h.handshakeDone, h.cqlVersion, h.nullString, h.deleted,
        fun hs => absurd hs hssl⟩
  · exact sendOwn_keeps _ _ c
  · exact sendOwn_keeps _ _ c
  · unfold notifyReady
    split <;> exact ⟨rfl, rfl, rfl, rfl, rfl, fun _ => rfl⟩
  · exact .refl c
  · exact .refl c

theorem complete_keeps (request : RequestPtr) (response : ℕ) (c : Connection) :
    c.Keeps (c.complete request response).1 := by
  unfold complete
  split <;> exact ⟨rfl, rfl, rfl, rfl, rfl, fun _ => rfl⟩

theorem callPrepareCallback_keeps (err : Option Error) (request : RequestPtr)
    (result : BodyResult) (c : Connection) :
    c.Keeps (c.callPrepareCallback err request result).1 := by
  unfold callPrepareCallback
  split
  · split <;> exact ⟨rfl, rfl, rfl, rfl, rfl, fun _ => rfl⟩
  · exact .refl c

theorem onResult_keeps (message : Message) (response : ℕ) (c : Connection) :
    c.Keeps (c.onResult message response).1 := by
  have hget : c.Keeps (c.getStream message.stream).1 := ⟨rfl, rfl, rfl, rfl, rfl, fun _ => rfl⟩
  unfold onResult
  split
  · rename_i result _
    split
    · split <;> exact ⟨rfl, rfl, rfl, rfl, rfl, fun _ => rfl⟩
    · split
      · have hcall := callPrepareCallback_keeps (c.getStream message.stream).2.2
          (c.getStream message.stream).2.1 result (c.getStream message.stream).1
        simp only
        split
        · rename_i hc
          rw [hc] at hcall
          exact hget.keeps hcall
        · rename_i hc
          rw [hc] at hcall
          split
          · exact (hget.keeps hcall).keeps (complete_keeps _ _ _)
          · exact hget.keeps hcall
      · simp only
        split
        · exact hget.keeps (complete_keeps _ _ _)
        · exact hget.keeps (notifyError_keeps _ _)
  · exact .refl c

theorem onError_enters {message : Message} {response : ℕ}
    (h : c.onError message response = (c', none)) :
    c.Enters c.state (c.deleted ++ [response]) c' := by
  unfold onError at h
  split at h
  · split at h
    · split at h
      · cases h
      · cases h
        have hk := notifyError_keeps ⟨cqlErrorSourceServer, 0, ‹List UInt8›⟩ c
        exact ⟨hk.ssl, hk.handshakeDone, hk.cqlVersion, hk.nullString,
          congrArg (· ++ [response]) hk.deleted, hk.state⟩
    · cases h
      exact ⟨rfl, rfl, rfl, rfl, rfl, fun _ => rfl⟩
  · cases h

theorem sendRequest_keeps (message : Message) (request : CallerRequest) (c : Connection) :
    c.Keeps (c.sendRequest message request).1 := by
  have hsend : c.Keeps (({ c with requests := c.requests ++ [request] } :
      Connection).sendMessage message (.request c.requests.length)).1 := by
    have h := sendMessage_keeps message (.request c.requests.length)
      { c with requests := c.requests ++ [request] }
    exact ⟨h.ssl, h.handshakeDone, h.cqlVersion, h.nullString, h.deleted, h.state⟩
  unfold sendRequest
  simp only
  split <;> rename_i hs <;> rw [hs] at hsend
  · exact hsend
  · exact hsend
  · exact hsend.keeps ⟨rfl, rfl, rfl, rfl, rfl, fun _ => rfl⟩

theorem outcome_keeps {α : Type} {r : Connection × Except Crash α} (h : c.Keeps r.1) :
    c.Keeps (outcome r).1 := by
  obtain ⟨c', _ | _⟩ := r
  · exact h
  · exact h

theorem request_keeps {a : Action} (ha : a.isRequest = true) (h : perform a c = (c', none)) :
    c.Keeps c' := by
  rcases request_cases ha c with ⟨-, heq⟩ | ⟨-, message, r, -, -, -, -, heq⟩
  · rw [heq] at h
    cases h
    exact .refl c
  · have hk := outcome_keeps (sendRequest_keeps message r c)
    rwa [← heq, h] at hk

/-- A call that ends in `event_received`. -/
theorem enters_of_event {d : Connection} (h₁ : c.Enters d.state deleted d)
    (h : d.eventReceived = (c', none)) : c.Enters d.state deleted c' := by
  have hk := eventReceived_keeps d
  rw [h] at hk
  exact h₁.keeps hk

theorem dispatch_state {message : Message} (h : handlers.dispatch message c = (c', none)) :
    c.Enters ((Action.dispatch message).nextState c.state)
      (c.deleted ++ (Action.dispatch message).deletes c) c' := by
  unfold Handlers.dispatch at h
  split at h
  · cases h
  split at h
  · cases h
  unfold Handlers.handle at h
  by_cases hsup : message.opcode = cqlOpcodeSupported
  · have hres : message.opcode ≠ cqlOpcodeResult := by rw [hsup]; decide
    rw [if_pos hsup] at h
    simp only [Action.nextState, Action.deletes, if_pos hsup, if_neg hres]
    exact enters_of_event
      (d := { (c.receive message).deleteResponse c.responses.length with state := supported })
      ⟨rfl, rfl, rfl, rfl, rfl, fun _ => rfl⟩ h
  rw [if_neg hsup] at h
  by_cases hready : message.opcode = cqlOpcodeReady
  · have herr : message.opcode ≠ cqlOpcodeError := by rw [hready]; decide
    have hres : message.opcode ≠ cqlOpcodeResult := by rw [hready]; decide
    rw [if_neg herr, if_pos hready] at h
    simp only [Action.nextState, Action.deletes, if_neg hsup, if_pos hready, if_neg hres]
    exact enters_of_event
      (d := { (c.receive message).deleteResponse c.responses.length with state := ready })
      ⟨rfl, rfl, rfl, rfl, rfl, fun _ => rfl⟩ h
  simp only [Action.nextState, Action.deletes, if_neg hsup, if_neg hready]
  split at h
  · rename_i herr
    have hres : message.opcode ≠ cqlOpcodeResult := by rw [herr]; decide
    rw [if_neg hres]
    have he := onError_enters (c := c.receive message) h
    exact ⟨he.ssl, he.handshakeDone, he.cqlVersion, he.nullString, he.deleted, he.state⟩
  split at h
  · rename_i hres
    rw [if_pos hres, List.append_nil]
    have hk := onResult_keeps message c.responses.length (c.receive message)
    rw [show (c.receive message).onResult message c.responses.length = (c', none) from h] at hk
    exact ⟨hk.ssl, hk.handshakeDone, hk.cqlVersion, hk.nullString, hk.deleted, hk.state⟩
  · cases h

/-- **The state after an action**, and what it has deleted. -/
theorem perform_state {a : Action} (h : perform a c = (c', none)) :
    c.Enters (a.nextState c.state) (c.deleted ++ a.deletes c) c' := by
  by_cases hd : ∃ message, a = .dispatch message
  · obtain ⟨message, rfl⟩ := hd
    exact dispatch_state h
  have hdeletes : c.deleted ++ a.deletes c = c.deleted := by
    cases a with
    | dispatch message => exact absurd ⟨message, rfl⟩ hd
    | _ => exact List.append_nil _
  rw [hdeletes]
  cases a with
  | init connect keyspace =>
    exact enters_of_event
      (d := { c with connectCallback := connect, keyspaceCallback := keyspace })
      ⟨rfl, rfl, rfl, rfl, rfl, fun _ => rfl⟩ h
  | onResolve status =>
    change c.onResolve status = _ at h
    unfold onResolve at h
    by_cases hs : status = -1
    · rw [if_pos hs] at h
      cases h
      simp only [Action.nextState, if_pos hs]
      exact ⟨rfl, rfl, rfl, rfl, rfl, fun _ => rfl⟩
    · rw [if_neg hs] at h
      simp only [Action.nextState, if_neg hs]
      exact enters_of_event (d := { c with state := resolved })
        ⟨rfl, rfl, rfl, rfl, rfl, fun _ => rfl⟩ h
  | onConnect status =>
    change c.onConnect status = _ at h
    unfold onConnect at h
    by_cases hs : status = -1
    · rw [if_pos hs] at h
      cases h
      simp only [Action.nextState, if_pos hs]
      exact ⟨rfl, rfl, rfl, rfl, rfl, fun _ => rfl⟩
    · rw [if_neg hs] at h
      simp only [Action.nextState, if_neg hs]
      exact enters_of_event (d := { c.emit .readStart with state := connected })
        ⟨rfl, rfl, rfl, rfl, rfl, fun _ => rfl⟩ h
  | onClose => cases h
  | onWrite i status => cases h; exact ⟨rfl, rfl, rfl, rfl, rfl, fun _ => rfl⟩
  | readError => cases h; exact ⟨rfl, rfl, rfl, rfl, rfl, fun _ => rfl⟩
  | dispatch message => exact absurd ⟨message, rfl⟩ hd
  | reading left => cases h; exact ⟨rfl, rfl, rfl, rfl, rfl, fun _ => rfl⟩
  | sendOutput bytes => cases h; exact ⟨rfl, rfl, rfl, rfl, rfl, fun _ => rfl⟩
  | handshakeDone =>
    exact enters_of_event (d := { c with state := handshake })
      ⟨rfl, rfl, rfl, rfl, rfl, fun _ => rfl⟩ h
  | exec | prepare => exact request_keeps rfl h
  | setKeyspace keyspace =>
    have hk := sendOwn_keeps cqlOpcodeQuery (.query { query := ascii "USE " ++ keyspace }) c
    rwa [show c.sendOwn cqlOpcodeQuery (.query { query := ascii "USE " ++ keyspace }) =
      (c', none) from h] at hk
  | close => cases h; exact ⟨rfl, rfl, rfl, rfl, rfl, fun _ => rfl⟩

end Connection

end CqlClient
