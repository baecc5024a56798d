/-
  CqlClient formalization — stream operations that fail.

  A `set_stream` without a free id, and a `get_stream` that is to release an id that is not
  allocated, return an error and leave the storage as it was.  So `exec` and `prepare`
  without a free stream have done nothing when they fail, and then they would tell their
  request (`refuses_of_sendRequest`), which no later step touches (`kept`).  But with the
  common library there is no request to tell: its constructor has thrown
  (`failed_unchanged`).
-/
import CqlClient.Fates
import CqlClient.Handshake

namespace CqlClient

namespace StreamStorage

variable {α : Type} {max : ℕ} {s : StreamStorage α max}

/-- `set_stream(input, output)`, with what `output` is before and after. -/
def setStreamInto (s : StreamStorage α max) (input : α) (output : ℕ) :
    StreamStorage α max × ℕ × Option Error :=
  match s.setStream input with
  | (s, .ok id) => (s, id, none)
  | (s, .error err) => (s, output, some err)

/-- A call that returns an error has changed nothing, but for `get_stream`'s `output`. -/
structure FailsUnchanged (s : StreamStorage α max) : Prop where
  setStream : ∀ input output err, (s.setStreamInto input output).2.2 = some err →
    s.setStreamInto input output = (s, output, some err)
  getStream : ∀ id releaseStream err, (s.getStream id releaseStream).2.2 = some err →
    (s.getStream id releaseStream).1 = s

theorem failsUnchanged (s : StreamStorage α max) : s.FailsUnchanged where
  setStream input output err h := by
    rcases Nat.lt_or_ge s.availableStreamsIndex max with hlt | hge
    · rw [setStreamInto, StreamStorage.setStream, if_neg (not_le.2 hlt)] at h
      cases h
    · rw [setStreamInto, setStream_error hge] at h ⊢
      cases h
      rfl
  getStream id releaseStream err h := by
    rcases releaseStream with _ | _
    · rfl
    rcases hallocated : s.allocatedStreams id with _ | _
    · rw [getStream_released hallocated]
    · simp [StreamStorage.getStream, hallocated] at h

theorem index_of_free_nil (h : s.free = []) : max ≤ s.availableStreamsIndex := by
  have hlength : s.free.length = max - s.availableStreamsIndex :=
    Slice.length_slice s.availableStreams
  rw [h, List.length_nil] at hlength
  omega

end StreamStorage

/-! ## Requests that are not waiting -/

namespace Core
variable {s s' : Core} {message : Message} {i : ℕ} {r : CallerRequest}

theorem Own.kept (h : s.Own s') (hr : s.requests[i]? = some r) : s'.requests[i]? = some r := by
  rwa [h.requests]

theorem Requests.kept (h : s.Requests s') (hr : s.requests[i]? = some r) :
    s'.requests[i]? = some r := by
  have hlt := (List.getElem?_eq_some_iff.1 hr).1
  cases h with
  | sends r' f _ _ _ hsends => rw [hsends.requests, List.getElem?_append_left hlt, hr]
  | refused r' _ _ _ heq => rw [heq, List.getElem?_append_left hlt, hr]

theorem Acts.kept (h : s.Acts s') (hr : s.requests[i]? = some r) : s'.requests[i]? = some r := by
  cases h with
  | own hown => exact hown.kept hr
  | output bytes heq => rwa [heq]
  | request hreq => exact hreq.kept hr

/-- Only a request that waits is completed. -/
theorem Inv.kept (hinv : s.Inv) (h : s.Dispatches message s') (hr : s.requests[i]? = some r)
    (hn : r.notified ≠ 0) : s'.requests[i]? = some r := by
  cases h with
  | keeps _ hown => exact hown.kept (s := { s with responses := s.responses ++ [message] }) hr
  | unknown _ _ heq => rwa [heq]
  | completes _ j halloc hstorage heq =>
    have hne : i ≠ j := by
      rintro rfl
      obtain ⟨r', hr', hzero⟩ := (hinv.waiting i).2 ⟨_, halloc, hstorage⟩
      rw [hr] at hr'
      cases hr'
      exact hn hzero
    rw [heq]
    simpa [List.getElem?_modify, Ne.symm hne] using hr

end Core

namespace Connection
variable {c c' : Connection} {a : Action} {i : ℕ} {r : CallerRequest}

/-- A request that was notified stays as it is. -/
theorem kept (hc : system.Reachable c) {as : List Action} (h : system.Path c as c')
    (hr : c.requests[i]? = some r) (hn : r.notified ≠ 0) : c'.requests[i]? = some r := by
  induction h with
  | nil => exact hr
  | @cons c c' c'' a as hstep _ ih =>
    refine ih (hc.step hstep) ?_
    have hinv := inv_of_reachable hc
    by_cases hd : ∃ message, a = .dispatch message
    · obtain ⟨message, rfl⟩ := hd
      exact hinv.kept (dispatch_effect hstep) hr hn
    · exact (perform_effect (fun message hm => hd ⟨message, hm⟩) hstep).kept hr

/-! ## Without a free stream -/

theorem sendMessage_full (h : cqlStreamIdMax ≤ c.streamStorage.availableStreamsIndex)
    (message : Message) (request : RequestPtr) :
    c.sendMessage message request = (c, .ok (some noAvailableStreams)) := by
  rw [sendMessage, StreamStorage.setStream_error h]

/-- The request of the action is new, is notified with the error and without a result, and
    stays so; nothing else of the connection has changed. -/
def Refuses (c : Connection) (a : Action) : Prop :=
  ∃ r : CallerRequest, r.error = some noAvailableStreams ∧ r.result = none ∧
    r.notified = 1 ∧
    perform a c = ({ c with requests := c.requests ++ [r]
                            out := c.out ++ [.notify c.requests.length] }, none) ∧
    ∀ as c', system.Path { c with requests := c.requests ++ [r]
                                  out := c.out ++ [.notify c.requests.length] } as c' →
      c'.requests[c.requests.length]? = some r

theorem sendRequest_full (h : cqlStreamIdMax ≤ c.streamStorage.availableStreamsIndex)
    (message : Message) (r : CallerRequest) :
    c.sendRequest message r =
      ({ c with
          requests := c.requests ++
            [CallerRequest.notify { r with error := some noAvailableStreams }]
          out := c.out ++ [.notify c.requests.length] }, .ok (some c.requests.length)) := by
  have hfull := sendMessage_full (c := { c with requests := c.requests ++ [r] }) h message
    (.request c.requests.length)
  unfold sendRequest
  simp only
  rw [hfull]
  simp only [notify, emit, modify_concat]

/-- `exec` and `prepare` -/
theorem refuses_of_sendRequest (hc : system.Reachable c) {message : Message}
    (h : cqlStreamIdMax ≤ c.streamStorage.availableStreamsIndex) (hr : r.notified = 0)
    (hres : r.result = none) (ha : perform a c = outcome (c.sendRequest message r)) :
    c.Refuses a := by
  have hperform := ha.trans (congrArg outcome (sendRequest_full h message r))
  refine ⟨CallerRequest.notify { r with error := some noAvailableStreams }, rfl, hres,
    congrArg (· + 1) hr, hperform, ?_⟩
  intro as c' hpath
  exact kept (hc.step hperform) hpath List.getElem?_concat_length (Nat.succ_ne_zero _)

/-- Without a free stream it is the constructor that decides. -/
theorem refuses_iff (hc : system.Reachable c) (hfree : c.streamStorage.free = [])
    (ha : a.isRequest = true) : c.Refuses a ↔ c.nullString ≠ .throws := by
  rcases request_cases ha c with ⟨hthrows, heq⟩ | ⟨hne, message, r, hr, hres, -, -, heq⟩
  · refine iff_of_false ?_ fun hne => hne hthrows
    rintro ⟨r, -, -, -, hperform, -⟩
    have hrequests := congrArg (fun p => p.1.requests.length) (heq.symm.trans hperform)
    simp at hrequests
  · exact iff_of_true
      (refuses_of_sendRequest hc (StreamStorage.index_of_free_nil hfree) hr hres heq) hne

/-- **Failed stream operations** change nothing.  A request without a stream is told unless
    the library throws in its constructor, and then the call has done nothing at all. -/
theorem failed_unchanged {α : Type} {max : ℕ} (s : StreamStorage α max)
    (hc : system.Reachable c) : s.FailsUnchanged ∧
      ((c.streamStorage.free = [] → ∀ a, a.isRequest = true → c.Refuses a) ↔
        c.nullString ≠ .throws ∨ c.streamStorage.free ≠ []) ∧
      (c.nullString = .throws → ∀ a, a.isRequest = true → perform a c = (c, none)) := by
  refine ⟨s.failsUnchanged, ?_, fun hthrows a ha => perform_throws ha hthrows⟩
  constructor
  · intro h
    by_contra hnot
    simp only [not_or, not_not] at hnot
    obtain ⟨hthrows, hfree⟩ := hnot
    have hrefuses := h hfree (.exec { Message.new c.heap with } false) rfl
    exact (refuses_iff hc hfree rfl).1 hrefuses hthrows
  · rintro (hne | hfree) hnil a ha
    · exact (refuses_iff hc hnil ha).2 hne
    · exact absurd hnil hfree

/-! ## A connection without a free stream -/

/-- While there is a stream, USE takes one. -/
theorem setKeyspace_sends (keyspace : List UInt8)
    (hlt : c.streamStorage.availableStreamsIndex < cqlStreamIdMax) :
    ∃ c' f, perform (.setKeyspace keyspace) c = (c', none) ∧ f.request = .null ∧
      c.toCore.Sends f c'.toCore := by
  obtain ⟨streamStorage, writes, heq, hcount⟩ := sendOwn_eq cqlOpcodeQuery
    (.query { query := ascii "USE " ++ keyspace }) c rfl ⟨_, rfl⟩
  rcases sendOwn_effect heq with hsame | ⟨f, hf, hsends⟩
  · -- the frame is written
    have hone := hcount cqlOpcodeQuery
    rw [if_pos ⟨rfl, hlt⟩] at hone
    have hnil : c.writes ++ writes = c.writes := congrArg Core.writes hsame
    rw [List.append_right_eq_self.1 hnil] at hone
    cases hone
  · exact ⟨_, f, heq, hf, hsends⟩

/-- A connection that is made, and has sent OPTIONS. -/
theorem exists_connected (nullString : NullString) :
    ∃ c, system.Reachable c ∧ c.nullString = nullString ∧ c.requests = [] ∧
      c.streamStorage.availableStreamsIndex = 1 := by
  have h₀ : system.Reachable (new (fun _ => 0) nullString false false) := .init ⟨_, _, _, _, rfl⟩
  have h₁ := h₀.step (a := .init false false) (Prod.ext rfl rfl)
  have h₂ := h₁.step (a := .onResolve 0) (Prod.ext rfl rfl)
  have h₃ := h₂.step (a := .onConnect 0) (Prod.ext rfl rfl)
  exact ⟨_, h₃, rfl, rfl, rfl⟩

/-- A run in which keyspaces are set once the connection is made. -/
theorem exists_taken (nullString : NullString) {n : ℕ} (hn : n + 1 ≤ cqlStreamIdMax) :
    ∃ c, system.Reachable c ∧ c.nullString = nullString ∧ c.requests = [] ∧
      c.streamStorage.availableStreamsIndex = n + 1 := by
  induction n with
  | zero => exact exists_connected nullString
  | succ n ih =>
    obtain ⟨c, hc, hnull, hreq, hindex⟩ := ih (by omega)
    obtain ⟨c', f, hperform, -, hsends⟩ := setKeyspace_sends (c := c) (ascii "k") (by omega)
    obtain ⟨id, rest, -, -, -, hnext, -⟩ := StreamStorage.setStream_ok hsends.free f.request
    refine ⟨c', hc.step hperform, ?_, hsends.requests.trans hreq, ?_⟩
    · exact (perform_state hperform).nullString.trans hnull
    · rw [congrArg Core.streamStorage hsends.eq, ← hindex]
      exact hnext

/-- All streams are taken, by OPTIONS and the keyspaces. -/
theorem exists_allTaken (nullString : NullString) :
    ∃ c, system.Reachable c ∧ c.nullString = nullString ∧ c.requests = [] ∧
      c.streamStorage.availableStreamsIndex = cqlStreamIdMax :=
  exists_taken (n := 126) nullString le_rfl

theorem exists_full (nullString : NullString) : ∃ c, system.Reachable c ∧
    c.nullString = nullString ∧ c.streamStorage.free = [] := by
  obtain ⟨c, hc, hnull, -, hindex⟩ := exists_allTaken nullString
  refine ⟨c, hc, hnull, List.eq_nil_of_length_eq_zero ?_⟩
  rw [StreamStorage.free, Slice.length_slice, hindex, Nat.sub_self]

/-- A storage of one id, which is taken, and a connection all of whose streams are, with a
    library that lets `exec` return. -/
theorem failed_full : ∃ c, system.Reachable c ∧ c.streamStorage.free = [] ∧
    ((StreamStorage.new fun _ => 0 : StreamStorage ℕ 1).setStream 7).1.FailsUnchanged ∧
    c.Refuses (.exec queryMessage false) := by
  obtain ⟨c, hc, hnull, hfree⟩ := exists_full (.returns [])
  obtain ⟨hunchanged, hrefuses, -⟩ := failed_unchanged _ hc
  exact ⟨c, hc, hfree, hunchanged, hrefuses.2 (.inl (by rw [hnull]; nofun)) hfree _ rfl⟩

/-- With the common library `exec` throws there, and no request is told. -/
theorem not_refuses_full : ∃ c, system.Reachable c ∧ c.nullString = .throws ∧
    c.streamStorage.free = [] ∧ ¬ c.Refuses (.exec queryMessage false) := by
  obtain ⟨c, hc, hnull, hfree⟩ := exists_full .throws
  exact ⟨c, hc, hnull, hfree, fun h => (refuses_iff hc hfree rfl).1 h hnull⟩

end Connection

end CqlClient
