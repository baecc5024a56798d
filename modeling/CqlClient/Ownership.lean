/-
  CqlClient formalization — who owns the responses.

  A message that the read loop releases is an object on the heap.  `on_supported`,
  `on_error` and `on_ready` delete it, and `on_result` makes it the result of the
  request.  In every run no response is deleted twice, none is deleted that is the
  result of a request, and none is the result of two (`owned_of_reachable`).  A
  response is leaked exactly if it is a RESULT of a keyspace, or one on a stream
  that no request waits on (`keepsResponses_iff`).
-/
import CqlClient.Fates
import CqlClient.Results
import CqlClient.States

namespace CqlClient

open StreamStorage

namespace Core
variable {s s' : Core} {f : SentFrame} {message : Message} {i j : ℕ}

/-! ## Results -/

theorem Sends.resultAt (h : s.Sends f s') : s'.ResultAt i j ↔ s.ResultAt i j := by
  rw [ResultAt, h.requests, ResultAt]

theorem Own.resultAt (h : s.Own s') : s'.ResultAt i j ↔ s.ResultAt i j := by
  rcases h with rfl | ⟨f, -, h⟩
  · exact Iff.rfl
  · exact h.resultAt

/-- Only a response gives a request a result. -/
theorem Acts.resultAt (h : s.Acts s') : s'.ResultAt i j ↔ s.ResultAt i j := by
  cases h with
  | own hown => exact hown.resultAt
  | output bytes heq =>
    rw [heq]
    exact Iff.rfl
  | request hreq =>
    rcases hreq with ⟨r, f, -, hres, -, hsends⟩ | ⟨r, -, hres, -, rfl⟩
    · exact hsends.resultAt.trans (resultAt_append hres)
    · exact resultAt_append hres

/-- Requests are only added. -/
theorem Acts.requests_prefix (h : s.Acts s') : s.requests <+: s'.requests := by
  cases h with
  | own hown => rw [hown.requests]
  | output bytes heq => rw [heq]
  | request hreq =>
    rcases hreq with ⟨r, f, -, -, -, hsends⟩ | ⟨r, -, -, -, rfl⟩
    · rw [hsends.requests]
      exact List.prefix_append _ _
    · exact List.prefix_append _ _

/-- A request that has a result was there before anything but a response. -/
theorem ResultAt.waiting (h : s.ResultAt i j) (hpre : s.requests <+: s'.requests) :
    s'.Waiting i ↔ s.Waiting i := by
  obtain ⟨r, hr, -⟩ := h
  obtain ⟨t, ht⟩ := hpre
  rw [Waiting, Waiting, ← ht, List.getElem?_append_left (List.getElem?_eq_some_iff.1 hr).1]

/-- The request that is completed has the new response, the others have what they had. -/
theorem Completes.resultAt {id i₀ : ℕ} (h : s.Completes id i₀ s') (hinv : s.Inv) :
    s'.ResultAt i j ↔ if i = i₀ then j = s.responses.length else s.ResultAt i j := by
  rw [ResultAt, h.request]
  by_cases hi : i = i₀
  · subst hi
    obtain ⟨r, hr, -⟩ := (hinv.waiting i).2 ⟨id, h.held⟩
    rw [if_pos rfl, if_pos rfl, hr]
    constructor
    · rintro ⟨r', hr', hj⟩
      cases hr'
      exact (Option.some.inj hj).symm
    · rintro rfl
      exact ⟨_, rfl, rfl⟩
  · rw [if_neg hi, if_neg hi, ResultAt]

/-- The results after a response: the request that is completed has it. -/
theorem Dispatches.results (h : s.Dispatches message s') (hinv : s.Inv) :
    ((∀ i, s'.Waiting i ↔ s.Waiting i) ∧ ∀ i j, s'.ResultAt i j ↔ s.ResultAt i j) ∨
    ∃ i₀, Releases message ∧ s.Waiting i₀ ∧ (∀ i, s'.Waiting i ↔ i ≠ i₀ ∧ s.Waiting i) ∧
      ∀ i j, s'.ResultAt i j ↔ if i = i₀ then j = s.responses.length else s.ResultAt i j := by
  cases h with
  | keeps _ hown =>
    refine .inl ⟨?_, fun i j => hown.resultAt⟩
    intro i
    rw [Waiting, hown.requests, Waiting]
  | unknown _ _ heq =>
    refine .inl ⟨?_, ?_⟩
    · intro i
      rw [heq]
      exact Iff.rfl
    · intro i j
      rw [heq]
      exact Iff.rfl
  | completes hrel i₀ halloc hstorage heq =>
    have hc : s.Completes message.stream.toNat i₀ s' := by
      rw [heq]
      exact ⟨⟨halloc, hstorage⟩, rfl, rfl, rfl⟩
    exact .inr ⟨i₀, hrel, (hinv.waiting i₀).2 ⟨_, hc.held⟩, hc.waiting, fun i j => hc.resultAt hinv⟩

/-- A result after a response was one before, or is the response, for the one request that
    it completes. -/
theorem Dispatches.resultAt_cases (h : s.Dispatches message s') (hinv : s.Inv) :
    ∃ i₀, ∀ i j, s'.ResultAt i j →
      s.ResultAt i j ∨ (i = i₀ ∧ j = s.responses.length ∧ Releases message) := by
  rcases h.results hinv with ⟨-, hresult⟩ | ⟨i₀, hrel, -, -, hresult⟩
  · exact ⟨0, fun i j hij => .inl ((hresult i j).1 hij)⟩
  · refine ⟨i₀, fun i j hij => ?_⟩
    rw [hresult] at hij
    split at hij
    · rename_i hi
      exact .inr ⟨hi, hij, hrel⟩
    · exact .inl hij

/-- A request that has a result was notified. -/
def ResultsNotified (s : Core) : Prop := ∀ i j, s.ResultAt i j → ¬ s.Waiting i

theorem ResultsNotified.acts (h : s.ResultsNotified) (hacts : s.Acts s') :
    s'.ResultsNotified := by
  intro i j hij
  rw [hacts.resultAt] at hij
  rw [hij.waiting hacts.requests_prefix]
  exact h i j hij

theorem ResultsNotified.dispatches (h : s.ResultsNotified) (hinv : s.Inv)
    (hd : s.Dispatches message s') : s'.ResultsNotified := by
  intro i j hij
  rcases hd.results hinv with ⟨hwaiting, hresult⟩ | ⟨i₀, -, -, hwaiting, hresult⟩
  · rw [hwaiting]
    exact h i j ((hresult i j).1 hij)
  · rw [hwaiting]
    rintro ⟨hi, hw⟩
    rw [hresult, if_neg hi] at hij
    exact h i j hij hw

end Core

/-- **In every run** a request that has a result was notified. -/
theorem Connection.resultsNotified_of_reachable {c : Connection} (h : system.Reachable c) :
    c.ResultsNotified := by
  refine h.invariant (I := fun c => c.ResultsNotified) ?_ ?_
  · rintro c ⟨heap, nullString, ssl, prepareCallback, rfl⟩ i j
    simp [Core.ResultAt, Connection.new]
  · intro c a c' hreach hc hstep
    by_cases hd : ∃ message, a = .dispatch message
    · obtain ⟨message, rfl⟩ := hd
      exact hc.dispatches (inv_of_reachable hreach) (dispatch_effect hstep)
    · exact hc.acts (perform_effect (fun message hm => hd ⟨message, hm⟩) hstep)

/-! ## Custody -/

/-- The handlers that delete the response; `on_result` does not. -/
def deletesResponse (message : Message) : Bool :=
  message.opcode = cqlOpcodeSupported || message.opcode = cqlOpcodeError ||
    message.opcode = cqlOpcodeReady

namespace Custody

/-- The responses that were deleted are those of the handlers that delete them, and
    were deleted once; a request that has a result was notified, and the result was not
    deleted; no two requests have the same result. -/
structure Owned (c : Connection) : Prop where
  known : ∀ j ∈ c.deleted, j < c.responses.length
  nodup : c.deleted.Nodup
  deleted : ∀ (j : ℕ) (m : Message), c.responses[j]? = some m →
    (j ∈ c.deleted ↔ deletesResponse m = true)
  kinds : ∀ (j : ℕ) (m : Message), c.responses[j]? = some m →
    deletesResponse m = true ∨ m.opcode = cqlOpcodeResult
  result : ∀ i j, c.ResultAt i j → ∃ m, c.responses[j]? = some m ∧ Releases m
  kept : ∀ i j, c.ResultAt i j → j ∉ c.deleted
  notified : c.ResultsNotified
  unique : ∀ i i' j, c.ResultAt i j → c.ResultAt i' j → i = i'

variable {c c' : Connection} {message : Message}

/-- The switch over the opcode has no other case. -/
theorem dispatch_opcode {conn conn' : Connection}
    (h : Connection.handlers.dispatch message conn = (conn', none)) :
    deletesResponse message = true ∨ message.opcode = cqlOpcodeResult := by
  unfold Handlers.dispatch at h
  split at h
  · cases h
  split at h
  · cases h
  unfold Handlers.handle at h
  split at h
  · rename_i hop
    exact .inl (by simp [deletesResponse, hop])
  split at h
  · rename_i hop
    exact .inl (by simp [deletesResponse, hop])
  split at h
  · rename_i hop
    exact .inl (by simp [deletesResponse, hop])
  split at h
  · rename_i hop
    exact .inr hop
  · cases h

theorem deletesResponse_of_result (h : message.opcode = cqlOpcodeResult) :
    deletesResponse message = false := by
  simp [deletesResponse, h, cqlOpcodeSupported, cqlOpcodeError, cqlOpcodeReady, cqlOpcodeResult]

/-- What a response adds to the deleted ones. -/
theorem deleted_dispatch (h : Connection.handlers.dispatch message c = (c', none)) :
    c'.deleted = c.deleted ++ if deletesResponse message then [c.responses.length] else [] := by
  rw [(Connection.dispatch_state h).deleted, Action.deletes]
  rcases dispatch_opcode h with hdel | hop
  · have hres : message.opcode ≠ cqlOpcodeResult := by
      intro hop
      rw [deletesResponse_of_result hop] at hdel
      cases hdel
    rw [if_pos hdel, if_neg hres]
  · rw [if_pos hop, deletesResponse_of_result hop, if_neg Bool.false_ne_true]

theorem mem_deleted_dispatch (h : Connection.handlers.dispatch message c = (c', none)) {j : ℕ} :
    j ∈ c'.deleted ↔ j ∈ c.deleted ∨ deletesResponse message = true ∧ j = c.responses.length := by
  rw [deleted_dispatch h]
  split <;> simp_all

/-- Anything but a response deletes nothing. -/
theorem deleted_act {a : Action} (hne : ∀ message, a ≠ .dispatch message)
    (h : Connection.perform a c = (c', none)) : c'.deleted = c.deleted := by
  rw [(Connection.perform_state h).deleted]
  cases a with
  | dispatch message => exact absurd rfl (hne message)
  | _ => exact List.append_nil _

/-- Anything but a response leaves the responses and the results as they are. -/
theorem Owned.act (h : Owned c) {a : Action} (hne : ∀ message, a ≠ .dispatch message)
    (hperform : Connection.perform a c = (c', none)) : Owned c' := by
  have hacts := Connection.perform_effect hne hperform
  have hdel := deleted_act hne hperform
  have hresponses := hacts.responses
  have hresult : ∀ i j, c'.ResultAt i j ↔ c.ResultAt i j := fun i j => hacts.resultAt
  constructor
  · simpa only [hdel, hresponses] using h.known
  · rw [hdel]
    exact h.nodup
  · simpa only [hdel, hresponses] using h.deleted
  · simpa only [hresponses] using h.kinds
  · simpa only [hresult, hresponses] using h.result
  · simpa only [hresult, hdel] using h.kept
  · exact h.notified.acts hacts
  · simpa only [hresult] using h.unique

/-- The next response was not deleted. -/
theorem Owned.not_deleted (h : Owned c) : c.responses.length ∉ c.deleted :=
  fun hmem => absurd (h.known _ hmem) (Nat.lt_irrefl _)

/-- The next response is the result of nobody. -/
theorem Owned.not_result (h : Owned c) {i : ℕ} : ¬ c.ResultAt i c.responses.length := by
  intro hij
  obtain ⟨m, hm, -⟩ := h.result i _ hij
  exact absurd (List.getElem?_eq_some_iff.1 hm).1 (Nat.lt_irrefl _)

/-- A result is not deleted by a response: it was there before, or it is the response, which
    is then a RESULT. -/
theorem Owned.kept_dispatch (h : Owned c) (hinv : c.Inv)
    (hperform : Connection.handlers.dispatch message c = (c', none)) {i j : ℕ}
    (hij : c'.ResultAt i j) : j ∉ c'.deleted := by
  rw [mem_deleted_dispatch hperform]
  obtain ⟨i₀, hresult⟩ := (Connection.dispatch_effect hperform).resultAt_cases hinv
  rcases hresult i j hij with hold | ⟨-, rfl, hrel⟩
  · rintro (hdel | ⟨-, rfl⟩)
    · exact h.kept i j hold hdel
    · exact h.not_result hold
  · rintro (hdel | ⟨hdel, -⟩)
    · exact h.not_deleted hdel
    · rw [deletesResponse_of_result hrel.1] at hdel
      cases hdel

/-- No two requests have the same result after a response. -/
theorem Owned.unique_dispatch (h : Owned c) (hinv : c.Inv)
    (hperform : Connection.handlers.dispatch message c = (c', none)) {i i' j : ℕ}
    (hi : c'.ResultAt i j) (hi' : c'.ResultAt i' j) : i = i' := by
  obtain ⟨i₀, hresult⟩ := (Connection.dispatch_effect hperform).resultAt_cases hinv
  rcases hresult i j hi with hold | ⟨rfl, rfl, -⟩
  · rcases hresult i' j hi' with hold' | ⟨-, rfl, -⟩
    · exact h.unique i i' j hold hold'
    · exact absurd hold h.not_result
  · rcases hresult i' _ hi' with hold' | ⟨rfl, -, -⟩
    · exact absurd hold' h.not_result
    · rfl

/-- A response. -/
theorem Owned.dispatch (h : Owned c) (hinv : c.Inv)
    (hperform : Connection.handlers.dispatch message c = (c', none)) : Owned c' := by
  have heffect := Connection.dispatch_effect hperform
  have hresponses := heffect.responses
  have hmem {j : ℕ} := mem_deleted_dispatch (j := j) hperform
  constructor
  · intro j hj
    rw [hresponses, List.length_append, List.length_singleton]
    rcases hmem.1 hj with hj | ⟨-, rfl⟩
    · exact Nat.lt_succ_of_lt (h.known j hj)
    · exact Nat.lt_succ_self _
  · rw [deleted_dispatch hperform]
    split
    · rw [List.nodup_append]
      refine ⟨h.nodup, List.nodup_singleton _, ?_⟩
      rintro j hj _ hj' rfl
      rw [List.mem_singleton.1 hj'] at hj
      exact h.not_deleted hj
    · rw [List.append_nil]
      exact h.nodup
  · intro j m hm
    rw [hresponses] at hm
    rw [hmem]
    rcases Core.concat_getElem?.1 hm with hm | ⟨rfl, rfl⟩
    · have hlt := (List.getElem?_eq_some_iff.1 hm).1
      rw [h.deleted j m hm]
      simp [Nat.ne_of_lt hlt]
    · simp [h.not_deleted]
  · intro j m hm
    rw [hresponses] at hm
    rcases Core.concat_getElem?.1 hm with hm | ⟨-, rfl⟩
    · exact h.kinds j m hm
    · exact dispatch_opcode hperform
  · intro i j hij
    rw [hresponses]
    obtain ⟨i₀, hresult⟩ := heffect.resultAt_cases hinv
    rcases hresult i j hij with hold | ⟨-, hj, hrel⟩
    · obtain ⟨m, hm, hm'⟩ := h.result i j hold
      exact ⟨m, Core.concat_getElem?.2 (.inl hm), hm'⟩
    · exact ⟨message, Core.concat_getElem?.2 (.inr ⟨hj, rfl⟩), hrel⟩
  · exact fun i j hij => h.kept_dispatch hinv hperform hij
  · exact h.notified.dispatches hinv heffect
  · exact fun i i' j hi hi' => h.unique_dispatch hinv hperform hi hi'

theorem Owned.init (h : Connection.system.init c) : Owned c := by
  obtain ⟨heap, nullString, ssl, prepareCallback, rfl⟩ := h
  constructor <;> simp [Core.ResultAt, Core.ResultsNotified, Connection.new]

/-- Every step. -/
theorem Owned.step (h : Owned c) (hinv : c.Inv) {a : Action}
    (hstep : Connection.system.step c a c') : Owned c' := by
  by_cases hd : ∃ message, a = .dispatch message
  · obtain ⟨message, rfl⟩ := hd
    exact h.dispatch hinv hstep
  · exact h.act (fun message hm => hd ⟨message, hm⟩) hstep

/-- **In every run no response is deleted twice, none is deleted that a request has as
    its result, and no two requests have the same.** -/
theorem owned_of_reachable (h : Connection.system.Reachable c) : Owned c :=
  h.invariant (fun _ hinit => .init hinit)
    fun _ _ _ hreach hc hstep => hc.step (Connection.inv_of_reachable hreach) hstep

/-! ## Leaks -/

/-- Every response was deleted, or is the result of a request. -/
def NoLeak (c : Connection) : Prop :=
  ∀ j < c.responses.length, j ∈ c.deleted ∨ ∃ i, c.ResultAt i j

/-- A RESULT that is dispatched completes a request: it is not that of a keyspace, and
    its stream is allocated. -/
def Expected (c : Connection) : Action → Prop
  | .dispatch message => message.opcode = cqlOpcodeResult →
    Releases message ∧ c.streamStorage.allocatedStreams message.stream.toNat = true
  | _ => True

/-- Anything but a response leaks nothing. -/
theorem NoLeak.act (h : NoLeak c) {a : Action} (hne : ∀ message, a ≠ .dispatch message)
    (hperform : Connection.perform a c = (c', none)) : NoLeak c' := by
  have hacts := Connection.perform_effect hne hperform
  intro j hj
  rw [hacts.responses] at hj
  rw [deleted_act hne hperform]
  rcases h j hj with hj | ⟨i, hij⟩
  · exact .inl hj
  · exact .inr ⟨i, hacts.resultAt.2 hij⟩

/-- A response leaves the others where they were: the request that is completed had no
    result. -/
theorem NoLeak.old_dispatch (h : NoLeak c) (hinv : c.Inv) (hc : Owned c)
    (hperform : Connection.handlers.dispatch message c = (c', none)) {j : ℕ}
    (hj : j < c.responses.length) : j ∈ c'.deleted ∨ ∃ i, c'.ResultAt i j := by
  rcases h j hj with hmem | ⟨i, hij⟩
  · exact .inl ((mem_deleted_dispatch hperform).2 (.inl hmem))
  · refine .inr ⟨i, ?_⟩
    rcases (Connection.dispatch_effect hperform).results hinv with
      ⟨-, hresult⟩ | ⟨i₀, -, hw, -, hresult⟩
    · exact (hresult i j).2 hij
    · have hi : i ≠ i₀ := by
        rintro rfl
        exact hc.notified i j hij hw
      rw [hresult, if_neg hi]
      exact hij

/-- The new response is the result of a request exactly if it releases one that is
    allocated. -/
theorem Owned.result_dispatch (hc : Owned c) (hinv : c.Inv)
    (hd : c.toCore.Dispatches message c'.toCore) :
    (∃ i, c'.ResultAt i c.responses.length) ↔
      Releases message ∧ c.streamStorage.allocatedStreams message.stream.toNat = true := by
  cases hd with
  | keeps hnot hown =>
    refine iff_of_false ?_ fun h => hnot h.1
    rintro ⟨i, hij⟩
    exact hc.not_result (hown.resultAt.1 hij)
  | unknown _ hfree heq =>
    refine iff_of_false ?_ fun h => by simp [hfree] at h
    rintro ⟨i, hij⟩
    rw [heq] at hij
    exact hc.not_result hij
  | completes hrel i₀ halloc hstorage heq =>
    have hcompletes : c.toCore.Completes message.stream.toNat i₀ c'.toCore := by
      rw [heq]
      exact ⟨⟨halloc, hstorage⟩, rfl, rfl, rfl⟩
    exact iff_of_true ⟨i₀, (hcompletes.resultAt hinv).2 (by rw [if_pos rfl])⟩ ⟨hrel, halloc⟩

/-- A step leaks nothing exactly if it is expected. -/
theorem keepsResponses_step (hinv : c.Inv) (hc : Owned c) (hleak : NoLeak c) {a : Action}
    (hperform : Connection.perform a c = (c', none)) : NoLeak c' ↔ Expected c a := by
  by_cases hd : ∃ message, a = .dispatch message
  swap
  · have hne : ∀ message, a ≠ .dispatch message := fun message hm => hd ⟨message, hm⟩
    refine iff_of_true (hleak.act hne hperform) ?_
    cases a with
    | dispatch message => exact absurd rfl (hne message)
    | _ => trivial
  obtain ⟨message, rfl⟩ := hd
  have heffect := Connection.dispatch_effect hperform
  have hlen : c'.responses.length = c.responses.length + 1 := by
    rw [heffect.responses, List.length_append, List.length_singleton]
  have hmem : c.responses.length ∈ c'.deleted ↔ deletesResponse message = true := by
    rw [mem_deleted_dispatch hperform]
    simp [hc.not_deleted]
  have hresult := hc.result_dispatch hinv heffect
  constructor
  · intro hleak' hop
    have hlt : c.responses.length < c'.responses.length := by omega
    rcases hleak' _ hlt with hdel | hij
    · rw [hmem, deletesResponse_of_result hop] at hdel
      cases hdel
    · exact hresult.1 hij
  · intro hexpected j hj
    rw [hlen] at hj
    rcases Nat.lt_succ_iff_lt_or_eq.1 hj with hj | rfl
    · exact hleak.old_dispatch hinv hc hperform hj
    · rcases dispatch_opcode hperform with hdel | hop
      · exact .inl (hmem.2 hdel)
      · exact .inr (hresult.2 (hexpected hop))

/-- **A run leaks no response exactly if every RESULT in it completes a request**: none
    is that of a keyspace, and each comes on an allocated stream. -/
theorem keepsResponses_iff {steps : List (Connection × Action)}
    (h : Connection.system.Run c steps) :
    (NoLeak c ∧ ∀ x ∈ steps, NoLeak x.1) ↔ ∀ x ∈ steps, Expected x.1 x.2 := by
  refine h.forall_iff ?_ ?_
  · rintro c ⟨heap, nullString, ssl, prepareCallback, rfl⟩ j hj
    simp [Connection.new] at hj
  · intro c a c' hreach hleak hstep
    have howned : Owned c := hreach.invariant (fun _ hinit => .init hinit)
      fun _ _ _ hreach hc hstep => hc.step (Connection.inv_of_reachable hreach) hstep
    exact keepsResponses_step (Connection.inv_of_reachable hreach) howned hleak hstep

/-! ## A query, its answer, and an error -/

/-- With a library that lets `exec` return, the connection has sent a query. -/
def queried : Connection := (Connection.perform (.exec queryMessage false) Connection.lenient).1

/-- The query was answered. -/
def completed : Connection := (Connection.perform (.dispatch voidResponse) queried).1

/-- There was an error, too. -/
def erred : Connection := (Connection.perform (.dispatch errorResponse) completed).1

theorem run_erred : Connection.system.Run erred [(completed, .dispatch errorResponse),
    (queried, .dispatch voidResponse), (Connection.lenient, .exec queryMessage false)] := by
  have h₀ : Connection.system.Run Connection.lenient [] := .init ⟨_, _, _, _, rfl⟩
  have h₁ : Connection.system.Run queried [(Connection.lenient, .exec queryMessage false)] :=
    h₀.step (Prod.ext rfl rfl)
  have h₂ : Connection.system.Run completed [(queried, .dispatch voidResponse),
      (Connection.lenient, .exec queryMessage false)] := h₁.step (Prod.ext rfl rfl)
  exact h₂.step (Prod.ext rfl rfl)

/-- The answer is the result of the query, and the error was deleted. -/
theorem owned_erred : Owned erred ∧ erred.ResultAt 0 0 ∧ erred.deleted = [1] :=
  ⟨owned_of_reachable run_erred.reachable, ⟨_, rfl, rfl⟩, rfl⟩

/-- Nothing was leaked. -/
theorem keepsResponses_erred : NoLeak erred := by
  refine ((keepsResponses_iff run_erred).2 ?_).1
  simp only [List.forall_mem_cons]
  refine ⟨?_, ?_, trivial, List.forall_mem_nil _⟩
  · intro hop
    cases hop
  · intro _
    exact ⟨⟨rfl, _, rfl, by decide⟩, rfl⟩

end Custody

end CqlClient
