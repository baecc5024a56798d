/-
  CqlClient formalization — what an SSL connection writes.

  Over SSL every buffer written should be `write_output` of `read_write`.  But
  `send_message` gives the frame that `Message::prepare` made to `uv_write`
  itself: a run is confidential exactly when none of its steps sends a message
  (`confidential_iff`), and the handshake of a server that gets to the end of its
  own ends in one.
-/
import CqlClient.Client

namespace CqlClient

open ClientConnectionState

/-- The actions that send a message; `exec` and `prepare` throw before they do, unless
    the library lets their request be made. -/
def Action.sendsMessage (nullString : NullString) : Action → Bool
  | .exec _ _ | .prepare _ _ => decide (nullString ≠ .throws)
  | .setKeyspace _ | .handshakeDone => true
  | .dispatch message => decide (message.opcode = cqlOpcodeSupported)
  | _ => false

namespace Core
variable {s s' : Core} {f : SentFrame} {message : Message}

/-- No frame was written. -/
def FrameFree (s : Core) : Prop := ∀ f, .frame f ∉ s.writes

theorem Sends.not_frameFree (h : s.Sends f s') : ¬ s'.FrameFree := by
  intro hfree
  refine hfree f ?_
  rw [h.eq]
  simp

/-- What is written is a frame or output of the session. -/
theorem Own.writes (h : s.Own s') :
    s.writes <+: s'.writes ∧
      ∀ bytes, .sslOutput bytes ∈ s'.writes → .sslOutput bytes ∈ s.writes := by
  rcases h with rfl | ⟨f, -, h⟩
  · exact ⟨List.prefix_rfl, fun _ hw => hw⟩
  · rw [h.eq]
    exact ⟨List.prefix_append _ _, fun bytes hw => by simpa using hw⟩

theorem Requests.writes (h : s.Requests s') :
    s.writes <+: s'.writes ∧
      ∀ bytes, .sslOutput bytes ∈ s'.writes → .sslOutput bytes ∈ s.writes := by
  rcases h with ⟨r, f, -, -, -, h⟩ | ⟨r, -, -, -, rfl⟩
  · rw [h.eq]
    exact ⟨List.prefix_append _ _, fun bytes hw => by simpa using hw⟩
  · exact ⟨List.prefix_rfl, fun _ hw => hw⟩

theorem Dispatches.writes (h : s.Dispatches message s') :
    s.writes <+: s'.writes ∧
      ∀ bytes, .sslOutput bytes ∈ s'.writes → .sslOutput bytes ∈ s.writes := by
  cases h with
  | keeps _ hown => exact hown.writes
  | unknown _ _ heq => exact heq ▸ ⟨List.prefix_rfl, fun _ hw => hw⟩
  | completes _ _ _ _ heq => exact heq ▸ ⟨List.prefix_rfl, fun _ hw => hw⟩

/-- With no frame written all the streams are free. -/
theorem FrameFree.free (h : s.FrameFree) (hinv : s.Inv) :
    s.streamStorage.availableStreamsIndex < cqlStreamIdMax := by
  have hempty : s.streamStorage.allocated = ∅ := by
    refine Finset.eq_empty_of_forall_notMem fun id hid => ?_
    rw [StreamStorage.allocated, Finset.mem_filter] at hid
    obtain ⟨k, f, hk, -⟩ := hinv.frame id hid.2
    exact h f (List.mem_of_getElem? hk)
  rw [← hinv.streams.card, hempty]
  decide

end Core

namespace Connection
variable {c c' : Connection} {a : Action}

/-- The writes of an action. -/
theorem perform_writes (h : perform a c = (c', none)) :
    c.writes <+: c'.writes ∧ ∀ bytes, .sslOutput bytes ∈ c'.writes →
      .sslOutput bytes ∈ c.writes ∨ a = .sendOutput bytes := by
  by_cases hdis : ∃ message, a = .dispatch message
  · obtain ⟨message, rfl⟩ := hdis
    have hw := (dispatch_effect h).writes
    exact ⟨hw.1, fun bytes hmem => .inl (hw.2 bytes hmem)⟩
  rcases hreq : a.isRequest with _ | _
  · rcases other_effect (fun message hm => hdis ⟨message, hm⟩) hreq h with hown | ⟨bytes, ha, heq⟩
    · exact ⟨hown.writes.1, fun bytes hmem => .inl (hown.writes.2 bytes hmem)⟩
    · rw [heq]
      refine ⟨List.prefix_append _ _, fun bytes' hmem => ?_⟩
      rcases List.mem_append.1 hmem with hmem | hmem
      · exact .inl hmem
      · rw [List.mem_singleton, Write.sslOutput.injEq] at hmem
        exact .inr (hmem ▸ ha)
  · rcases request_effect hreq h with ⟨-, rfl⟩ | ⟨-, hnew⟩
    · exact ⟨List.prefix_rfl, fun _ hmem => .inl hmem⟩
    · exact ⟨hnew.writes.1, fun bytes hmem => .inl (hnew.writes.2 bytes hmem)⟩

/-- The writes along a path. -/
theorem path_writes {as : List Action} (h : system.Path c as c') :
    c.writes <+: c'.writes ∧ ∀ bytes, .sslOutput bytes ∈ c'.writes →
      .sslOutput bytes ∈ c.writes ∨ .sendOutput bytes ∈ as := by
  induction h with
  | nil c => exact ⟨List.prefix_rfl, fun _ hw => .inl hw⟩
  | cons hs _ ih =>
    obtain ⟨hpre, hout⟩ := perform_writes hs
    refine ⟨hpre.trans ih.1, fun bytes hw => ?_⟩
    rcases ih.2 bytes hw with hw | hmem
    · rcases hout bytes hw with hw | rfl
      · exact .inl hw
      · exact .inr List.mem_cons_self
    · exact .inr (List.mem_cons_of_mem _ hmem)

/-- With a stream free, a message of the connection's own is sent. -/
theorem sendOwn_sends {opcode : UInt8} {body : Body}
    (hfree : c.streamStorage.availableStreamsIndex < cqlStreamIdMax)
    (h : c.sendOwn opcode body = (c', none)) : ¬ c'.FrameFree := by
  unfold sendOwn at h
  split at h
  · cases h
  · split at h
    · cases h
    · rename_i hsend
      simp only [Prod.mk.injEq, and_true] at h
      subst h
      rcases sendMessage_effect hsend with ⟨f, -, -, hs⟩ | ⟨hfull, -, -⟩
      · exact hs.not_frameFree
      · exact absurd hfree (Nat.not_lt.2 hfull)

/-- In the other states `event_received` writes nothing. -/
theorem eventReceived_writes (hssl : c.ssl = true) (hh : c.state ≠ handshake)
    (hs : c.state ≠ supported) (h : c.eventReceived = (c', none)) : c'.writes = c.writes := by
  unfold eventReceived eventReceivedWith at h
  split at h
  · cases h; rfl
  · cases h; rfl
  · unfold sslHandshake at h
    rw [if_pos hssl] at h
    cases h; rfl
  · exact absurd ‹_› hh
  · exact absurd ‹_› hs
  · cases h
    rw [notifyReady_core]
  · cases h
  · cases h

/-- A response other than SUPPORTED sends nothing. -/
theorem dispatch_writes {message : Message} (hssl : c.ssl = true)
    (hop : message.opcode ≠ cqlOpcodeSupported) (h : handlers.dispatch message c = (c', none)) :
    c'.writes = c.writes := by
  rcases hd : dispatch_effect h with ⟨hrel, -⟩ | ⟨-, -, heq⟩ | ⟨-, i, -, -, heq⟩
  · unfold Handlers.dispatch at h
    split at h
    · cases h
    split at h
    · cases h
    unfold Handlers.handle at h
    rw [if_neg hop] at h
    split at h
    · rw [onError_core (c := c.receive message) h]
      rfl
    split at h
    · exact eventReceived_writes
        (c := { (c.receive message).deleteResponse c.responses.length with state := ready })
        hssl nofun nofun h
    split at h
    · rename_i hres
      rw [onResult_core (c := c.receive message) (fun hrel' => hrel ⟨hres, hrel'⟩) h]
      rfl
    · cases h
  · rw [heq]
  · rw [heq]

/-- SUPPORTED is answered with STARTUP. -/
theorem dispatch_sends {message : Message}
    (hfree : c.streamStorage.availableStreamsIndex < cqlStreamIdMax)
    (hop : message.opcode = cqlOpcodeSupported) (h : handlers.dispatch message c = (c', none)) :
    ¬ c'.FrameFree := by
  unfold Handlers.dispatch at h
  split at h
  · cases h
  split at h
  · cases h
  unfold Handlers.handle at h
  rw [if_pos hop] at h
  change Connection.sendStartup
    { (c.receive message).deleteResponse c.responses.length with state := .supported } = _ at h
  unfold sendStartup at h
  exact sendOwn_sends
    (c := { (c.receive message).deleteResponse c.responses.length with state := .supported })
    hfree h

/-- Nothing but output of the session was written, and nothing else is about to be. -/
structure Quiet (c : Connection) : Prop where
  ssl : c.ssl = true
  frames : c.FrameFree
  handshake : c.state ≠ handshake
  supported : c.state ≠ supported

/-- **An action writes a frame exactly when it sends a message.** -/
theorem Quiet.perform_iff (hc : c.Quiet) (hinv : c.toCore.Inv) (h : perform a c = (c', none)) :
    c'.FrameFree ↔ a.sendsMessage c.nullString = false := by
  have hfree := hc.frames.free hinv
  have hkeeps : ∀ {c' : Connection}, c'.writes = c.writes → c'.FrameFree := by
    intro c' hw f
    rw [hw]
    exact hc.frames f
  cases a with
  | init connect keyspace =>
    exact iff_of_true (hkeeps (eventReceived_writes
      (c := { c with connectCallback := connect, keyspaceCallback := keyspace })
      hc.ssl hc.handshake hc.supported h)) rfl
  | onResolve status =>
    change c.onResolve status = _ at h
    unfold onResolve at h
    split at h
    · cases h; exact iff_of_true hc.frames rfl
    · exact iff_of_true (hkeeps (eventReceived_writes (c := { c with state := resolved })
        hc.ssl nofun nofun h)) rfl
  | onConnect status =>
    change c.onConnect status = _ at h
    unfold onConnect at h
    split at h
    · cases h; exact iff_of_true hc.frames rfl
    · exact iff_of_true (hkeeps (eventReceived_writes
        (c := { c.emit .readStart with state := connected }) hc.ssl nofun nofun h)) rfl
  | onClose => cases h
  | onWrite i status => cases h; exact iff_of_true hc.frames rfl
  | readError => cases h; exact iff_of_true hc.frames rfl
  | dispatch message =>
    by_cases hop : message.opcode = cqlOpcodeSupported
    · exact iff_of_false (dispatch_sends hfree hop h) (by simp [Action.sendsMessage, hop])
    · exact iff_of_true (hkeeps (dispatch_writes hc.ssl hop h)) (by simp [Action.sendsMessage, hop])
  | reading left => cases h; exact iff_of_true hc.frames rfl
  | sendOutput bytes =>
    cases h
    refine iff_of_true (fun f hf => ?_) rfl
    rcases List.mem_append.1 hf with hf | hf
    · exact hc.frames f hf
    · simp at hf
  | handshakeDone =>
    change Connection.sendOptions { c with state := .handshake } = _ at h
    unfold sendOptions at h
    exact iff_of_false (sendOwn_sends (c := { c with state := .handshake }) hfree h) nofun
  | exec | prepare =>
    rcases request_effect rfl h with
      ⟨hthrows, rfl⟩ | ⟨hne, ⟨r, f, -, -, -, hs⟩ | ⟨r, -, -, hfull, -⟩⟩
    · exact iff_of_true hc.frames (by simp [Action.sendsMessage, hthrows])
    · exact iff_of_false hs.not_frameFree (by simp [Action.sendsMessage, hne])
    · exact absurd hfree (Nat.not_lt.2 hfull)
  | setKeyspace keyspace =>
    change c.setKeyspace keyspace = _ at h
    unfold setKeyspace at h
    exact iff_of_false (sendOwn_sends hfree h) nofun
  | close => cases h; exact iff_of_true hc.frames rfl

/-- The states in which messages are sent are entered by sending one. -/
theorem nextState_quiet {nullString : NullString} {s : ClientConnectionState}
    (ha : a.sendsMessage nullString = false)
    (hh : s ≠ handshake) (hs : s ≠ supported) :
    a.nextState s ≠ handshake ∧ a.nextState s ≠ supported := by
  cases a with
  | onResolve status | onConnect status =>
    simp only [Action.nextState]
    split
    · exact ⟨hh, hs⟩
    · exact ⟨by simp, by simp⟩
  | dispatch message =>
    simp only [Action.sendsMessage, decide_eq_false_iff_not] at ha
    simp only [Action.nextState, if_neg ha]
    split
    · exact ⟨by simp, by simp⟩
    · exact ⟨hh, hs⟩
  | handshakeDone | setKeyspace => cases ha
  | onClose | readError | close => simp [Action.nextState]
  | _ => exact ⟨hh, hs⟩

theorem Quiet.perform (hc : c.Quiet) (hinv : c.toCore.Inv)
    (h : Connection.perform a c = (c', none)) (ha : a.sendsMessage c.nullString = false) :
    c'.Quiet := by
  have hstate := perform_state h
  obtain ⟨hh, hs⟩ := nextState_quiet ha hc.handshake hc.supported
  exact ⟨hstate.ssl.trans hc.ssl, (hc.perform_iff hinv h).2 ha, by rwa [hstate.state hc.ssl],
    by rwa [hstate.state hc.ssl]⟩

/-- **A path writes no frame exactly when no action of it sends a message.** -/
theorem Quiet.path_iff {as : List Action} (hc : c.Quiet) (hr : system.Reachable c)
    (h : system.Path c as c') :
    (c'.FrameFree ↔ ∀ a ∈ as, a.sendsMessage c.nullString = false) ∧
      (c'.FrameFree → c'.Quiet) := by
  induction h with
  | nil c => simp [hc.frames, hc]
  | @cons c c₁ c₂ a as hs hp ih =>
    have hstep := hc.perform_iff (inv_of_reachable hr) hs
    rcases ha : a.sendsMessage c.nullString with _ | _
    · have ih := ih (hc.perform (inv_of_reachable hr) hs ha) (hr.step hs)
      rw [(perform_state hs).nullString] at ih
      simp only [List.forall_mem_cons, ha, true_and]
      exact ih
    · have hwrote : ¬ c₁.FrameFree := by simp [hstep, ha]
      have hnot : ¬ c₂.FrameFree := fun hfree => hwrote fun f hf =>
        hfree f ((path_writes hp).1.subset hf)
      simp [hnot, ha]

end Connection

namespace Client
variable {σ : Type} (api : OpenSsl σ)

/-- The buffer is `write_output` of `read_write`. -/
def Produced (w : Write) : Prop :=
  ∃ (input : List UInt8) (session : σ) (size : ℕ) (bytes : List UInt8),
    (api.readWrite input [] session).2.1.writeOutput = some (size, bytes) ∧
      w = .sslOutput (bytes.take (api.readWrite input [] session).2.1.writeOutputSize)

/-- Every buffer written is `write_output` of `read_write`. -/
def Confidential (c : Client σ) : Prop := ∀ w ∈ c.conn.writes, Produced api w

/-- The steps that send no message: no `set_keyspace` and no request that is made, no
    response SUPPORTED, and the handshake of the server is not found done. -/
def Silent (c : Client σ) : Event → Prop
  | .callback a => a.sendsMessage c.conn.nullString = false
  | .read _ => True
  | .round => ∀ input, c.conn.reading = some input → ¬ HandshakeSeen api input c ∧
      ∀ message ∈ c.dispatched (decrypted api input c), message.opcode ≠ cqlOpcodeSupported

variable {api} {c c' : Client σ}

theorem mem_outputActions {out : ReadWrite} {a : Action} :
    a ∈ outputActions out ↔ ∃ size bytes, out.writeOutput = some (size, bytes) ∧
      out.writeOutputSize ≠ 0 ∧ a = .sendOutput (bytes.take out.writeOutputSize) := by
  unfold outputActions
  rcases out.writeOutput with _ | ⟨size, bytes⟩
  · simp
  · by_cases hsize : out.writeOutputSize = 0 <;> simp [hsize]

/-- The silent steps. -/
theorem silent_iff {e : Event} (hssl : c.conn.ssl = true) :
    Silent api c e ↔ ∀ a ∈ actions api c e, a.sendsMessage c.conn.nullString = false := by
  cases e with
  | callback a => simp [Silent, actions]
  | read bytes => simp [Silent, actions, hssl, Action.sendsMessage]
  | round =>
    rcases hreading : c.conn.reading with _ | input
    · simp [Silent, actions, hreading]
    · have hout : ∀ a ∈ outputActions (api.readWrite input [] c.session).2.1,
          a.sendsMessage c.conn.nullString = false := by
        intro a ha
        obtain ⟨size, bytes, -, -, rfl⟩ := mem_outputActions.1 ha
        rfl
      by_cases hseen : HandshakeSeen api input c
      · refine iff_of_false (fun h => (h input hreading).1 hseen) fun h => ?_
        have := h .handshakeDone (by simp [actions, hreading, roundActions, hseen])
        cases this
      · simp only [Silent, actions, hreading, roundActions, hseen, if_false, List.append_nil,
          List.forall_mem_append, List.forall_mem_map, List.forall_mem_singleton]
        constructor
        · intro h
          exact ⟨⟨fun m hm => by simpa [Action.sendsMessage] using (h input rfl).2 m hm, hout⟩, rfl⟩
        · rintro ⟨⟨h, -⟩, -⟩ input' hinput'
          cases hinput'
          exact ⟨hseen, fun m hm => by simpa [Action.sendsMessage] using h m hm⟩

/-- The output of the session that was written is `write_output`. -/
theorem produced_of_reachable {ssl : Bool} (h : (system api ssl).Reachable c) (bytes : List UInt8)
    (hw : .sslOutput bytes ∈ c.conn.writes) : Produced api (.sslOutput bytes) := by
  induction h with
  | init h =>
    obtain ⟨heap, nullString, prepareCallback, session, rfl⟩ := h
    cases hw
  | @step c c' e hr hs ih =>
    rcases (Connection.path_writes (step_path hs)).2 bytes hw with hw | hmem
    · exact ih hw
    · cases e with
      | callback a =>
        obtain ⟨⟨ha, -⟩, -⟩ := hs
        rw [actions, List.mem_singleton] at hmem
        rw [← hmem] at ha
        cases ha
      | read input => by_cases hssl : c.conn.ssl = true <;> simp [actions, hssl] at hmem
      | round =>
        rcases hreading : c.conn.reading with _ | input
        · simp [actions, hreading] at hmem
        · have hout : .sendOutput bytes ∈ outputActions (api.readWrite input [] c.session).2.1 := by
            by_cases hseen : HandshakeSeen api input c <;>
              simpa [actions, hreading, roundActions, hseen] using hmem
          obtain ⟨size, bytes', hwrite, -, heq⟩ := mem_outputActions.1 hout
          cases heq
          exact ⟨input, c.session, size, bytes', hwrite, rfl⟩

/-- The writes of a connection are frames and output of the session. -/
theorem confidential_iff_frameFree {ssl : Bool} (h : (system api ssl).Reachable c) :
    Confidential api c ↔ c.conn.FrameFree := by
  constructor
  · intro hc f hf
    obtain ⟨_, _, _, _, -, hw⟩ := hc _ hf
    cases hw
  · rintro hfree (f | bytes) hw
    · exact absurd hw (hfree f)
    · exact produced_of_reachable h bytes hw

/-- As long as an SSL connection has written no frame, it is quiet. -/
theorem quiet_of_reachable (h : (system api true).Reachable c) (hfree : c.conn.FrameFree) :
    c.conn.Quiet := by
  induction h with
  | init h =>
    obtain ⟨heap, nullString, prepareCallback, session, rfl⟩ := h
    exact ⟨rfl, hfree, nofun, nofun⟩
  | @step c c' e hr hs ih =>
    have hpath := step_path hs
    have hfree₀ : c.conn.FrameFree := fun f hf =>
      hfree f ((Connection.path_writes hpath).1.subset hf)
    exact ((ih hfree₀).path_iff (conn_reachable hr).1 hpath).2 hfree

/-- **A run of an SSL connection is confidential exactly when none of its steps
    sends a message.** -/
theorem confidential_iff {steps : List (Client σ × Event)} (h : (system api true).Run c steps) :
    (Confidential api c ∧ ∀ x ∈ steps, Confidential api x.1) ↔
      ∀ x ∈ steps, Silent api x.1 x.2 := by
  refine h.forall_iff (P := Confidential api) (G := Silent api) ?_ ?_
  · rintro c ⟨heap, nullString, prepareCallback, session, rfl⟩ w hw
    cases hw
  · intro c e c' hr hc hs
    obtain ⟨hconn, hssl⟩ := conn_reachable hr
    have hquiet := quiet_of_reachable hr ((confidential_iff_frameFree hr).1 hc)
    rw [confidential_iff_frameFree (hr.step hs), (hquiet.path_iff hconn (step_path hs)).1,
      silent_iff hssl]

/-! ## An SSL connection that is asked for a keyspace -/

/-- A session with the bytes in its network BIO, before the server has answered. -/
def helloSession : OpenSsl (List UInt8) where
  pending
    | .ssl, _ => 0
    | .network, s => s.length
  writeGuarantee _ := 16
  read
    | .ssl, _, s => (s, [], -1)
    | .network, n, s => (s.drop n, s.take n, (s.take n).length)
  write _ bytes s := (s, bytes.length)
  getError _ _ := sslErrorNone
  errorString _ := []
  isInitFinished _ := false

/-- A client with SSL, about to send its hello. -/
def hello : Client (List UInt8) :=
  ⟨Connection.new (fun _ => 0) .throws true false, Message.new fun _ => 0, [22, 3, 1]⟩

def callback (a : Action) (c : Client (List UInt8)) : Client (List UInt8) :=
  { c with conn := (Connection.perform a c.conn).1 }

theorem step_callback {c : Client (List UInt8)} {a : Action} (ha : c.Callback a)
    (h : (Connection.perform a c.conn).2 = none) :
    (system helloSession true).step c (.callback a) (callback a c) :=
  ⟨ha, _, Prod.ext rfl h, rfl⟩

/-- The connection is made, and its SSL loop has not run yet. -/
def connecting : Client (List UInt8) :=
  callback (.onConnect 0) (callback (.onResolve 0) (callback (.init true true) hello))

/-- The SSL loop has run. -/
def greeted : Client (List UInt8) := (connecting.sslRound helloSession []).1

/-- A run up to the hello of the client. -/
theorem run_greeted : (system helloSession true).Run greeted
    [(connecting, .round),
      (callback (.onResolve 0) (callback (.init true true) hello), .callback (.onConnect 0)),
      (callback (.init true true) hello, .callback (.onResolve 0)),
      (hello, .callback (.init true true))] := by
  have h₀ : (system helloSession true).Run hello [] := .init ⟨_, _, _, _, rfl⟩
  have h₁ := h₀.step (step_callback (a := .init true true) ⟨rfl, .inl rfl⟩ rfl)
  have h₂ := h₁.step (step_callback (a := .onResolve 0) ⟨rfl, .inl rfl⟩ rfl)
  have h₃ := h₂.step (step_callback (a := .onConnect 0) ⟨rfl, .inl rfl⟩ rfl)
  have hround : (system helloSession true).step connecting .round greeted :=
    ⟨[], rfl, Prod.ext rfl rfl⟩
  exact h₃.step hround

/-- The hello of the client is `write_output`. -/
theorem confidential_greeted : Confidential helloSession greeted := by
  refine ((confidential_iff run_greeted).2 ?_).1
  simp only [List.forall_mem_cons, List.not_mem_nil, false_implies, implies_true, and_true]
  refine ⟨?_, rfl, rfl, rfl⟩
  intro input hinput
  cases hinput
  refine ⟨fun hseen => absurd hseen.1 (by decide), ?_⟩
  intro message hmem
  cases hmem

/-- The USE of the user goes to the socket as it is. -/
theorem not_confidential_keyspace :
    (system helloSession true).Reachable (callback (.setKeyspace (ascii "ks")) greeted) ∧
      ¬ Confidential helloSession (callback (.setKeyspace (ascii "ks")) greeted) := by
  constructor
  · exact run_greeted.reachable.step (step_callback ⟨rfl, .inr rfl⟩ rfl)
  · intro h
    obtain ⟨_, _, _, _, -, hw⟩ := h _ (List.mem_of_getElem? (i := 1) rfl)
    cases hw

end Client

end CqlClient
