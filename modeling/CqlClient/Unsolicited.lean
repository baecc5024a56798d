/-
  CqlClient formalization — results that no request waits for.

  `get_stream` returns what is stored for a stream even if it fails, and the connection's own
  frames store `NULL`.  `on_result` dereferences the pointer unless the stream is not allocated
  and there is no prepared statement to report; so it keeps to the request that is outstanding
  on the stream exactly when the result is expected (`touchesHeld_iff`).
-/
import CqlClient.Requests

namespace CqlClient

open StreamStorage

namespace Connection
variable {c : Connection} {message : Message} {result : BodyResult}

/-- `on_result` dereferences no pointer but those of requests, and it reads, writes and
    notifies only the one that is outstanding on the stream. -/
structure TouchesHeld (c : Connection) (message : Message) : Prop where
  derefs : (handlers.onResult message c).2 ≠ some .nullDeref ∧
    (handlers.onResult message c).2 ≠ some .indeterminate
  outputs : ∃ os, (handlers.onResult message c).1.out = c.out ++ os ∧
    ∀ i, .access i ∈ os ∨ .notify i ∈ os → c.Held message.stream.toNat i
  requests : ∀ i, ¬ c.Held message.stream.toNat i →
    (handlers.onResult message c).1.requests[i]? = c.requests[i]?

/-- The stream of the result is not looked up, or a request is outstanding on it, or nothing is
    done with what is stored for it. -/
def Expects (c : Connection) (message : Message) (result : BodyResult) : Prop :=
  result.kind = cqlResultKindSetKeyspace ∨ (∃ i, c.Held message.stream.toNat i) ∨
    c.streamStorage.allocatedStreams message.stream.toNat = false ∧
      ¬ (result.kind = cqlResultKindPrepared ∧ c.prepareCallback = true)

/-! ## The branches of `on_result` -/

/-- A call that returns, with what it has called out. -/
theorem TouchesHeld.of_eq {c' : Connection} (os : List Output)
    (heq : handlers.onResult message c = (c', none)) (hout : c'.out = c.out ++ os)
    (hos : ∀ i, .access i ∈ os ∨ .notify i ∈ os → c.Held message.stream.toNat i)
    (hreq : ∀ i, ¬ c.Held message.stream.toNat i → c'.requests[i]? = c.requests[i]?) :
    c.TouchesHeld message := by
  refine ⟨?_, ⟨os, ?_, hos⟩, ?_⟩
  · rw [heq]
    exact ⟨nofun, nofun⟩
  · rw [heq]
    exact hout
  · rw [heq]
    exact hreq

theorem handler_keyspace (hbody : message.body = some (.result result))
    (hkind : result.kind = cqlResultKindSetKeyspace) :
    handlers.onResult message c = (if c.keyspaceCallback then
      ((c.receive message).emit (.keyspaceCallback result.keyspace result.keyspaceSize), none)
      else (c.receive message, none)) := by
  change (c.receive message).onResult message c.responses.length = _
  rw [onResult, hbody]
  simp only
  rw [if_pos hkind]
  rfl

/-- The stream is allocated, and released. -/
theorem handler_allocated (hbody : message.body = some (.result result))
    (hkind : result.kind ≠ cqlResultKindSetKeyspace)
    (halloc : c.streamStorage.allocatedStreams message.stream.toNat = true) :
    ∃ c₁ : Connection, c₁.out = c.out ∧ c₁.requests = c.requests ∧
      c₁.prepareCallback = c.prepareCallback ∧ handlers.onResult message c =
      if result.kind = cqlResultKindPrepared then
        match c₁.callPrepareCallback none (c.streamStorage.storage message.stream.toNat) result with
        | (c, some e) => (c, some e)
        | (c', none) =>
          c'.complete (c.streamStorage.storage message.stream.toNat) c.responses.length
      else c₁.complete (c.streamStorage.storage message.stream.toNat) c.responses.length := by
  refine ⟨{ c.receive message with streamStorage :=
    ((c.receive message).streamStorage.getStream message.stream.toNat true).1 }, rfl, rfl, rfl, ?_⟩
  have hget : (c.receive message).streamStorage.getStream message.stream.toNat true =
      (((c.receive message).streamStorage.getStream message.stream.toNat true).1,
        c.streamStorage.storage message.stream.toNat, none) := by
    simp [StreamStorage.getStream, receive, halloc]
  change (c.receive message).onResult message c.responses.length = _
  unfold onResult getStream
  rw [hbody]
  simp only
  rw [hget]
  exact if_neg hkind

/-- There is nothing to release. -/
theorem handler_unallocated (hbody : message.body = some (.result result))
    (hkind : result.kind ≠ cqlResultKindSetKeyspace)
    (halloc : c.streamStorage.allocatedStreams message.stream.toNat = false) :
    handlers.onResult message c = if result.kind = cqlResultKindPrepared then
        (c.receive message).callPrepareCallback (some alreadyReleased)
          (c.streamStorage.storage message.stream.toNat) result
      else ((c.receive message).notifyError alreadyReleased, none) := by
  have hget : (c.receive message).streamStorage.getStream message.stream.toNat true =
      (c.streamStorage, c.streamStorage.storage message.stream.toNat, some alreadyReleased) :=
    getStream_released halloc
  change (c.receive message).onResult message c.responses.length = _
  unfold onResult getStream
  rw [hbody]
  simp only
  rw [if_neg hkind, hget]
  simp only
  split
  · split
    · rename_i h
      exact h.symm
    · rename_i h
      exact h.symm
  · rfl

/-! ## What is touched -/

theorem touchesHeld_keyspace (hbody : message.body = some (.result result))
    (hkind : result.kind = cqlResultKindSetKeyspace) : c.TouchesHeld message := by
  have heq := handler_keyspace (c := c) hbody hkind
  by_cases hcallback : c.keyspaceCallback = true
  · rw [if_pos hcallback] at heq
    refine .of_eq _ heq rfl ?_ fun _ _ => rfl
    simp
  · rw [if_neg hcallback] at heq
    refine .of_eq _ heq (List.append_nil _).symm ?_ fun _ _ => rfl
    simp

theorem complete_error {request : RequestPtr} {e : Crash} (he : request.deref = .error e)
    (c : Connection) (response : ℕ) : c.complete request response = (c, some e) := by
  rw [complete, he]

theorem callPrepareCallback_error {request : RequestPtr} {e : Crash}
    (he : request.deref = .error e) (hcallback : c.prepareCallback = true) (err : Option Error)
    (result : BodyResult) : c.callPrepareCallback err request result = (c, some e) := by
  rw [callPrepareCallback, if_pos hcallback, he]

theorem callPrepareCallback_none (hcallback : ¬ c.prepareCallback = true) (err : Option Error)
    (request : RequestPtr) (result : BodyResult) :
    c.callPrepareCallback err request result = (c, none) := by
  rw [callPrepareCallback, if_neg hcallback]

theorem callPrepareCallback_request (hcallback : c.prepareCallback = true) (err : Option Error)
    (i : ℕ) (result : BodyResult) : ∃ data, c.callPrepareCallback err (.request i) result =
      ((c.emit (.access i)).emit (.prepareCallback err data result.prepared result.preparedSize),
        none) := by
  refine ⟨(c.requests[i]?.map CallerRequest.data).getD [], ?_⟩
  rw [callPrepareCallback, if_pos hcallback]
  rfl

/-- A pointer that is not that of a request. -/
theorem deref_error_of {request : RequestPtr} (h : ∀ i, request ≠ .request i) :
    ∃ e, (e = .nullDeref ∨ e = .indeterminate) ∧ request.deref = .error e := by
  cases request with
  | indeterminate => exact ⟨.indeterminate, .inr rfl, rfl⟩
  | null => exact ⟨.nullDeref, .inl rfl, rfl⟩
  | request i => exact absurd rfl (h i)

theorem TouchesHeld.ne_crash {e : Crash} (h : c.TouchesHeld message)
    (he : e = .nullDeref ∨ e = .indeterminate) : (handlers.onResult message c).2 ≠ some e := by
  rcases he with rfl | rfl
  · exact h.derefs.1
  · exact h.derefs.2

/-- A result on a stream that is allocated. -/
theorem touchesHeld_allocated (hbody : message.body = some (.result result))
    (hkind : result.kind ≠ cqlResultKindSetKeyspace)
    (halloc : c.streamStorage.allocatedStreams message.stream.toNat = true) :
    c.TouchesHeld message ↔ ∃ i, c.Held message.stream.toNat i := by
  obtain ⟨c₁, hout, hrequests, hprepare, heq⟩ := handler_allocated hbody hkind halloc
  constructor
  · intro htouches
    by_contra hnone
    have hptr : ∀ i, c.streamStorage.storage message.stream.toNat ≠ .request i :=
      fun i hi => hnone ⟨i, halloc, hi⟩
    obtain ⟨e, he, hderef⟩ := deref_error_of hptr
    refine htouches.ne_crash he ?_
    rw [heq]
    split
    · by_cases hcallback : c₁.prepareCallback = true
      · rw [callPrepareCallback_error hderef hcallback]
      · rw [callPrepareCallback_none hcallback]
        simp only
        rw [complete_error hderef]
    · rw [complete_error hderef]
  · rintro ⟨i, hheld⟩
    rw [hheld.2] at heq
    have hcomplete : ∀ c₂ : Connection, c₂.requests = c.requests →
        (∃ os, c₂.out = c.out ++ os ∧ ∀ j, .access j ∈ os ∨ .notify j ∈ os → j = i) →
        handlers.onResult message c = c₂.complete (.request i) c.responses.length →
        c.TouchesHeld message := by
      rintro c₂ hrequests₂ ⟨os, hout₂, hos⟩ heq₂
      refine .of_eq (os ++ [Output.access i, Output.notify i]) heq₂ ?_ ?_ ?_
      · change (c₂.out ++ [Output.access i]) ++ [Output.notify i] = _
        rw [hout₂, List.append_assoc, List.append_assoc]
        rfl
      · intro j hj
        have hji : j = i := by
          simp only [List.mem_append, List.mem_cons, List.not_mem_nil, or_false] at hj
          grind
        rwa [hji]
      · intro j hj
        have hne : i ≠ j := by
          rintro rfl
          exact hj hheld
        change ((c₂.requests.modify i _).modify i _)[j]? = _
        rw [hrequests₂, List.getElem?_modify_ne _ _ hne, List.getElem?_modify_ne _ _ hne]
    by_cases hprepared : result.kind = cqlResultKindPrepared
    · rw [if_pos hprepared] at heq
      by_cases hcallback : c₁.prepareCallback = true
      · obtain ⟨data, hcall⟩ := callPrepareCallback_request hcallback none i result
        rw [hcall] at heq
        refine hcomplete ((c₁.emit _).emit _) hrequests
          ⟨[.access i, .prepareCallback none data result.prepared result.preparedSize], ?_, ?_⟩ heq
        · change (c₁.out ++ [_]) ++ [_] = _
          rw [hout, List.append_assoc]
          rfl
        · simp
      · rw [callPrepareCallback_none hcallback] at heq
        exact hcomplete c₁ hrequests ⟨[], by rw [hout, List.append_nil], by simp⟩ heq
    · rw [if_neg hprepared] at heq
      exact hcomplete c₁ hrequests ⟨[], by rw [hout, List.append_nil], by simp⟩ heq

/-- A result on a stream that is not allocated. -/
theorem touchesHeld_unallocated (hbody : message.body = some (.result result))
    (hkind : result.kind ≠ cqlResultKindSetKeyspace)
    (halloc : c.streamStorage.allocatedStreams message.stream.toNat = false) :
    c.TouchesHeld message ↔
      ¬ (result.kind = cqlResultKindPrepared ∧ c.prepareCallback = true) := by
  have heq := handler_unallocated hbody hkind halloc
  have hnone : ∀ i, ¬ c.Held message.stream.toNat i := fun i hi => by
    rw [hi.1] at halloc
    cases halloc
  constructor
  · rintro htouches ⟨hprepared, hcallback⟩
    rw [if_pos hprepared] at heq
    by_cases hptr : ∃ i, c.streamStorage.storage message.stream.toNat = .request i
    · obtain ⟨i, hi⟩ := hptr
      obtain ⟨os, hos, hheld⟩ := htouches.outputs
      have hcallback' : (c.receive message).prepareCallback = true := hcallback
      obtain ⟨data, hcall⟩ :=
        callPrepareCallback_request hcallback' (some alreadyReleased) i result
      rw [hi, hcall] at heq
      rw [heq] at hos
      refine hnone i (hheld i (.inl ?_))
      have hout : (c.out ++ [Output.access i]) ++ [_] = c.out ++ os := hos
      rw [List.append_assoc] at hout
      rw [← List.append_cancel_left hout]
      exact List.mem_cons_self
    · obtain ⟨e, he, hderef⟩ := deref_error_of fun i hi => hptr ⟨i, hi⟩
      refine htouches.ne_crash he ?_
      have hcallback' : (c.receive message).prepareCallback = true := hcallback
      rw [heq, callPrepareCallback_error hderef hcallback']
  · intro hreport
    by_cases hprepared : result.kind = cqlResultKindPrepared
    · have hcallback : ¬ (c.receive message).prepareCallback = true :=
        fun h => hreport ⟨hprepared, h⟩
      rw [if_pos hprepared, callPrepareCallback_none hcallback] at heq
      exact .of_eq _ heq (List.append_nil _).symm (by simp) fun _ _ => rfl
    · rw [if_neg hprepared, notifyError] at heq
      by_cases hconnect : c.connectCallback = true
      · have hconnect' : (c.receive message).connectCallback = true := hconnect
        rw [if_pos hconnect'] at heq
        exact .of_eq _ heq rfl (by simp) fun _ _ => rfl
      · have hconnect' : ¬ (c.receive message).connectCallback = true := hconnect
        rw [if_neg hconnect'] at heq
        exact .of_eq _ heq (List.append_nil _).symm (by simp) fun _ _ => rfl

/-- **A result** touches the request that is outstanding on its stream, and no other, just if
    it is expected. -/
theorem touchesHeld_iff (hbody : message.body = some (.result result)) :
    c.TouchesHeld message ↔ c.Expects message result := by
  by_cases hkind : result.kind = cqlResultKindSetKeyspace
  · exact iff_of_true (touchesHeld_keyspace hbody hkind) (.inl hkind)
  cases halloc : c.streamStorage.allocatedStreams message.stream.toNat with
  | true =>
    rw [touchesHeld_allocated hbody hkind halloc]
    constructor
    · intro hheld
      exact .inr (.inl hheld)
    · rintro (h | h | ⟨h, -⟩)
      · exact absurd h hkind
      · exact h
      · rw [halloc] at h
        cases h
  | false =>
    rw [touchesHeld_unallocated hbody hkind halloc]
    constructor
    · intro hreport
      exact .inr (.inr ⟨halloc, hreport⟩)
    · rintro (h | ⟨i, h⟩ | ⟨-, h⟩)
      · exact absurd h hkind
      · rw [h.1] at halloc
        cases halloc
      · exact h

/-- A query is answered, with a library that lets `exec` return. -/
theorem touchesHeld_answer :
    (perform (.exec queryMessage false) lenient).1.TouchesHeld voidResponse :=
  (touchesHeld_iff rfl).2 (.inr (.inl ⟨0, rfl, rfl⟩))

/-- A connection that has sent OPTIONS. -/
def greeting : Connection :=
  (perform (.onConnect 0) (perform (.onResolve 0) (perform (.init true true) fresh).1).1).1

theorem reachable_perform {a : Action} (hc : system.Reachable c)
    (h : (perform a c).2 = none) : system.Reachable (perform a c).1 :=
  hc.step (Prod.ext rfl h)

theorem reachable_greeting : system.Reachable greeting := by
  have h₀ : system.Reachable fresh := .init ⟨_, _, _, _, rfl⟩
  have h₁ := reachable_perform (a := .init true true) h₀ rfl
  have h₂ := reachable_perform (a := .onResolve 0) h₁ rfl
  exact reachable_perform (a := .onConnect 0) h₂ rfl

/-- OPTIONS is answered with a result: `NULL` is dereferenced. -/
theorem not_touchesHeld_options :
    system.Reachable greeting ∧ ¬ greeting.TouchesHeld voidResponse := by
  refine ⟨reachable_greeting, ?_⟩
  intro htouches
  exact htouches.derefs.1 rfl

end Connection

end CqlClient
