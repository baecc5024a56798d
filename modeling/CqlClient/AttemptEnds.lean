/-
  CqlClient formalization — how a connection attempt ends.

  The failing branches of `on_resolve` and `on_connect` print and return, and
  `on_close` enters `event_received` in a state that asserts.  So an attempt is
  survived and reported only as long as nothing ends it (`survived_iff`).
-/
import CqlClient.Attempt

namespace CqlClient

open Connection

/-- The opcodes that `consume` has a case for. -/
def isResponse (opcode : UInt8) : Bool :=
  opcode = cqlOpcodeSupported || opcode = cqlOpcodeError || opcode = cqlOpcodeReady ||
  opcode = cqlOpcodeResult

namespace Connection
variable {c : Connection}

/-! ## Responses do not assert -/

theorem deref_error {request : RequestPtr} {e : Crash} (h : request.deref = .error e) :
    e ≠ .assertFailed := by
  cases request <;> cases h <;> nofun

theorem complete_survives (request : RequestPtr) (response : ℕ) (c : Connection) :
    (c.complete request response).2 ≠ some .assertFailed := by
  unfold complete
  split
  · rename_i e he
    intro h
    exact deref_error he (Option.some.inj h)
  · nofun

theorem callPrepareCallback_survives (err : Option Error) (request : RequestPtr)
    (result : BodyResult) (c : Connection) :
    (c.callPrepareCallback err request result).2 ≠ some .assertFailed := by
  unfold callPrepareCallback
  split
  · split
    · rename_i e he
      intro h
      exact deref_error he (Option.some.inj h)
    · nofun
  · nofun

theorem onResult_survives (message : Message) (response : ℕ) (c : Connection) :
    (c.onResult message response).2 ≠ some .assertFailed := by
  unfold onResult
  split
  · rename_i result _
    split
    · split <;> nofun
    split
    · have hcall := callPrepareCallback_survives (c.getStream message.stream).2.2
        (c.getStream message.stream).2.1 result (c.getStream message.stream).1
      simp only
      split
      · rename_i e he
        rwa [he] at hcall
      · split
        · exact complete_survives _ _ _
        · nofun
    · simp only
      split
      · exact complete_survives _ _ _
      · nofun
  · nofun

theorem onError_survives (message : Message) (response : ℕ) (c : Connection) :
    (c.onError message response).2 ≠ some .assertFailed := by
  unfold onError
  split
  · rename_i error _
    split
    · split
      · rename_i e he
        intro h
        rw [Option.some.inj h] at he
        cases hm : error.message <;> rw [hm] at he <;> cases he
      · nofun
    · nofun
  · nofun

theorem advance_crash {message : Message} {step : Advance} (h : message.advance c = some step) :
    step.crash = none := by
  unfold Message.advance at h
  split at h
  · cases h
  split at h
  · cases h
    rfl
  split at h
  · cases h
    rfl
  · cases h

/-- **A response on a stream** does not assert. -/
theorem dispatch_survives {message : Message} (hstream : 0 ≤ message.stream)
    (hop : isResponse message.opcode = true) (c : Connection) :
    (handlers.dispatch message c).2 ≠ some .assertFailed := by
  rcases hstep : message.advance c with _ | step
  · simp only [isResponse, Bool.or_eq_true, decide_eq_true_eq] at hop
    simp only [Message.advance, if_neg (Int.not_lt.2 hstream)] at hstep
    have hname : ¬ opcodeHasName message.opcode = false := by
      rcases hop with ((hop | hop) | hop) | hop <;> rw [hop] <;> decide
    rw [Handlers.dispatch, if_neg hname, if_neg (Int.not_lt.2 hstream), Handlers.handle]
    rcases hop with ((hop | hop) | hop) | hop
    · rw [if_pos hop] at hstep
      cases hstep
    · rw [hop, if_neg (by decide), if_pos rfl]
      exact onError_survives message _ _
    · rw [hop, if_neg (by decide), if_pos rfl] at hstep
      cases hstep
    · rw [hop, if_neg (by decide), if_neg (by decide), if_neg (by decide), if_pos rfl]
      exact onResult_survives message _ _
  · obtain ⟨c', heq, -⟩ := (dispatch_advance message c).1 step hstep
    rw [heq, advance_crash hstep]
    simp

end Connection

namespace Attempt

/-! ## The runs -/

/-- Completions of libuv, and frames of a server; the user only calls `init`. -/
def Outside : Action → Prop
  | .dispatch message => 0 ≤ message.stream ∧ isResponse message.opcode = true
  | .exec _ _ | .prepare _ _ | .setKeyspace _ | .close => False
  | _ => True

/-- The runs of a connection attempt. -/
def attempts (ssl : Bool) : System Attempt Action :=
  (system ssl).restrict fun _ a => Outside a

/-- Every callback that was asked for has been made, and libuv does not read.  A write
    under way changes nothing when it completes. -/
structure Quiescent (s : Attempt) : Prop where
  initialised : s.initialised = true
  resolved : s.resolved = s.conn.calls .getaddrinfo
  connected : s.connected = s.conn.calls .tcpConnect
  closed : s.closed = s.conn.calls .close
  reading : ¬ s.Reading

/-- Nothing asserted, and an attempt that ended before READY was reported once. -/
structure Survived (s : Attempt) : Prop where
  crash : s.crash ≠ some .assertFailed
  reported : s.Quiescent → s.furthest < ClientConnectionState.ready.index → s.conn.reports = 1

/-- The callback is not the end of the attempt. -/
def GoesOn : Action → Prop
  | .onResolve status | .onConnect status => status ≠ -1
  | .onClose => False
  | _ => True

variable {s : Attempt} {ssl : Bool} {a : Action} {step : Advance}

/-- Only a connection that libuv reads from is closed. -/
theorem close_of_reachable (h : (attempts ssl).Reachable s)
    (hr : s.conn.calls .readStart = 0) : s.conn.calls .close = 0 := by
  induction h with
  | init h =>
    obtain ⟨heap, nullString, prepareCallback, rfl⟩ := h
    rfl
  | @step s s' a hreach hs ih =>
    obtain ⟨hout, hc, he, rfl⟩ := hs
    have hinv := inv_of_reachable hreach.of_restrict
    rcases hstep : a.advance s.conn with _ | step
    · have hapart := (perform_eq_of_apart hinv hstep).1
      rw [hapart.calls rfl] at hr ⊢
      exact ih hr
    · obtain ⟨-, -, hadv⟩ := hinv.of_advances hc he hstep
      have hread := hadv.calls .readStart
      have hclose := hadv.calls .close
      have hzero := ih (by omega)
      cases a with
      | close => cases hout
      | readError =>
        have hpos := he.1
        omega
      | onResolve status | onConnect status =>
        simp only [Action.advance] at hstep
        split at hstep
        · cases hstep
        · first
          | cases hstep
            exact hclose.trans hzero
          | split at hstep <;> cases hstep <;> exact hclose.trans hzero
      | init | onClose | handshakeDone =>
        cases hstep
        exact hclose.trans hzero
      | dispatch message =>
        rw [hclose, (advance_calls hstep (o := .close) (by simp)).1]
        exact hzero
      | _ => cases hstep

/-- libuv reads, or has to close what it read from. -/
theorem not_quiescent_of_read (hr : 0 < s.conn.calls .readStart) (hclosed : s.closed = 0) :
    ¬ s.Quiescent := by
  intro hq
  refine hq.reading ⟨hr, ?_⟩
  rw [← hq.closed]
  exact hclosed

/-- Nothing went on after a callback that failed. -/
theorem not_survived_of_quiet (hinv : s.Inv) (hq : s.Quiescent)
    (hr : s.conn.calls .readStart = 0) : ¬ s.Survived := by
  obtain ⟨-, -, -, hrep, hfar⟩ := hinv.quiet hr
  intro hs
  obtain ⟨hasked, hresolved, hconnect, -, -, -, -⟩ := hinv.counts
  rw [hq.initialised, if_pos rfl] at hasked
  have hone := hs.reported hq (lt_of_le_of_lt hfar (by change _ < 5; omega))
  omega

/-- A callback that fails leaves nothing to wait for. -/
theorem not_survived_of_fail (hreach : (attempts ssl).Reachable s) (hc : s.crash = none)
    (he : s.Enabled a) (ha : a = .onResolve (-1) ∨ a = .onConnect (-1)) :
    ¬ (s.perform a).Survived := by
  have hinv := inv_of_reachable hreach.of_restrict
  have hzero := closed_eq hinv hc
  obtain ⟨hasked, hresolved, hconnect, hconnected, hread, hclose, -⟩ := hinv.counts
  have hone := hinv.counts.asked_le
  have hnone : a.advance s.conn = none := by
    rcases ha with rfl | rfl <;> rfl
  have hkeep : ∀ o, o.isStep = true → (s.perform a).conn.calls o = s.conn.calls o :=
    fun o ho => (perform_eq_of_apart hinv hnone).1.calls ho
  -- the callback was the last one that was asked for
  have hlast : s.resolved + a.resolveCalls = s.conn.calls .getaddrinfo ∧
      s.connected + a.connectCalls = s.conn.calls .tcpConnect ∧
      s.conn.calls .readStart = 0 ∧ 0 < s.conn.calls .getaddrinfo := by
    rcases ha with rfl | rfl
    · have he : s.resolved < s.conn.calls .getaddrinfo := he
      simp only [Action.resolveCalls, Action.connectCalls]
      omega
    · have he : s.connected < s.conn.calls .tcpConnect := he.1
      simp only [Action.resolveCalls, Action.connectCalls]
      omega
  obtain ⟨hres, hcon, hr, hpos⟩ := hlast
  have hcl := close_of_reachable hreach hr
  have hclosed : (s.perform a).closed = 0 := by
    rcases ha with rfl | rfl <;> exact hzero
  refine not_survived_of_quiet (hinv.perform hc he) ?_ ((hkeep .readStart rfl).trans hr)
  constructor
  · change (s.initialised || a.isInit) = true
    by_contra hinit
    rw [Bool.or_eq_true, not_or] at hinit
    rw [if_neg hinit.1] at hasked
    omega
  · rw [hkeep _ rfl]
    exact hres
  · rw [hkeep _ rfl]
    exact hcon
  · rw [hkeep _ rfl, hclosed, hcl]
  · intro hreading
    have hread' := hreading.1
    rw [hkeep _ rfl] at hread'
    omega

/-- Something is left to wait for. -/
theorem survived_of_pending (hcrash : s.crash ≠ some .assertFailed) (hq : ¬ s.Quiescent) :
    s.Survived :=
  ⟨hcrash, fun h => absurd h hq⟩

/-- A step of the handshake leaves something to wait for. -/
theorem survived_of_advances (hinv : s.Inv) (hc : s.crash = none) (he : s.Enabled a)
    (hne : a ≠ .onClose) (hstep : a.advance s.conn = some step) : (s.perform a).Survived := by
  obtain ⟨-, hcrash, hadv⟩ := hinv.of_advances hc he hstep
  have hzero := closed_eq hinv hc
  obtain ⟨hasked, hresolved, hconnect, hconnected, hread, hclose, -⟩ := hinv.counts
  have hnocrash : (s.perform a).crash ≠ some .assertFailed := by
    rw [hcrash]
    cases a with
    | onClose => exact absurd rfl hne
    | onResolve status | onConnect status =>
      simp only [Action.advance] at hstep
      split at hstep
      · cases hstep
      · first
        | cases hstep
          simp
        | split at hstep <;> cases hstep <;> simp
    | dispatch message =>
      rw [advance_crash hstep]
      simp
    | _ =>
      cases hstep
      try simp
  have hclosed : (s.perform a).closed = 0 := by
    cases a with
    | onClose => exact absurd rfl hne
    | _ => exact hzero
  have hg := hadv.calls .getaddrinfo
  have ht := hadv.calls .tcpConnect
  have hr := hadv.calls .readStart
  refine survived_of_pending hnocrash ?_
  cases a with
  | init connect keyspace =>
    cases hstep
    have hinit : s.initialised = false := he
    simp only [hinit, Bool.false_eq_true, if_false] at hasked
    intro hq
    have hres : s.resolved = _ := hq.resolved
    simp only [List.count_singleton_self] at hg
    omega
  | onResolve status =>
    simp only [Action.advance] at hstep
    split at hstep
    · cases hstep
    cases hstep
    intro hq
    have hcon : s.connected = _ := hq.connected
    simp only [List.count_singleton_self] at ht
    omega
  | onConnect status =>
    have hcalls : step.calls = [.readStart] := by
      simp only [Action.advance] at hstep
      split at hstep
      · cases hstep
      split at hstep <;> cases hstep <;> rfl
    rw [hcalls, List.count_singleton_self] at hr
    exact not_quiescent_of_read (by omega) hclosed
  | readError =>
    have hpos := he.1
    exact not_quiescent_of_read (by omega) hclosed
  | close =>
    have hcl := hadv.calls .close
    cases hstep
    intro hq
    have hcl' := hq.closed
    simp only [List.count_singleton_self] at hcl
    omega
  | onClose => exact absurd rfl hne
  | handshakeDone =>
    have hpos := he.2
    exact not_quiescent_of_read (by omega) hclosed
  | dispatch message =>
    have hpos : 0 < s.conn.calls .readStart := he
    exact not_quiescent_of_read (by omega) hclosed
  | onWrite | reading | sendOutput | exec | prepare | setKeyspace => cases hstep

/-- `on_write` changes nothing. -/
theorem perform_onWrite (hinv : s.Inv) (hc : s.crash = none) (i : ℕ) (status : ℤ) :
    s.perform (.onWrite i status) = s := by
  have hfar : max s.furthest s.conn.state.progress = s.furthest := max_eq_left hinv.current
  obtain ⟨conn, initialised, resolved, connected, closed, furthest, crash⟩ := s
  simp only at hc hfar
  simp only [perform, Connection.perform, Action.isInit, Action.resolveCalls, Action.connectCalls,
    Action.closeCalls, Bool.or_false, Nat.add_zero, hfar, hc]

/-- **An action keeps an attempt survived and reported exactly when it is not its end.** -/
theorem survived_perform (hreach : (attempts ssl).Reachable s) (hout : Outside a)
    (hc : s.crash = none) (he : s.Enabled a) (h : s.Survived) :
    (s.perform a).Survived ↔ GoesOn a := by
  have hinv := inv_of_reachable hreach.of_restrict
  have hzero := closed_eq hinv hc
  -- a part of a read
  have hread : 0 < s.conn.calls .readStart → a.closeCalls = 0 → a.advance s.conn = none →
      (s.perform a).crash ≠ some .assertFailed → (s.perform a).Survived := by
    intro hpos hcl hnone hcrash
    refine survived_of_pending hcrash (not_quiescent_of_read ?_ ?_)
    · rwa [(perform_eq_of_apart hinv hnone).1.calls rfl]
    · change s.closed + a.closeCalls = 0
      omega
  cases a with
  | init | readError | handshakeDone =>
    exact iff_of_true (survived_of_advances hinv hc he nofun rfl) trivial
  | onResolve status | onConnect status =>
    by_cases hs : status = -1
    · subst hs
      refine iff_of_false (not_survived_of_fail hreach hc he ?_) fun hne => hne rfl
      simp
    · refine iff_of_true ?_ hs
      first
      | exact survived_of_advances hinv hc he nofun (if_neg hs)
      | by_cases hssl : s.conn.ssl = true
        · exact survived_of_advances hinv hc he nofun ((if_neg hs).trans (if_pos hssl))
        · exact survived_of_advances hinv hc he nofun ((if_neg hs).trans (if_neg hssl))
  | onClose =>
    refine iff_of_false (fun hs => ?_) id
    have hstep : Action.onClose.advance s.conn =
        some ⟨.disconnected, [], none, some .assertFailed⟩ := rfl
    obtain ⟨-, hcrash, -⟩ := hinv.of_advances hc he hstep
    exact hs.crash hcrash
  | onWrite i status =>
    rw [perform_onWrite hinv hc]
    exact iff_of_true h trivial
  | dispatch message =>
    refine iff_of_true ?_ trivial
    rcases hstep : message.advance s.conn with _ | step
    · exact hread he rfl hstep (dispatch_survives hout.1 hout.2 s.conn)
    · exact survived_of_advances hinv hc he nofun hstep
  | reading left | sendOutput bytes =>
    exact iff_of_true (hread he.2 rfl rfl nofun) trivial
  | exec | prepare | setKeyspace | close => cases hout

/-- **An attempt is survived and reported exactly as long as nothing ends it.** -/
theorem survived_iff {steps : List (Attempt × Action)} (h : (attempts ssl).Run s steps) :
    (s.Survived ∧ ∀ x ∈ steps, x.1.Survived) ↔ ∀ x ∈ steps, GoesOn x.2 := by
  refine h.forall_iff (P := Survived) (G := fun _ a => GoesOn a) ?_ ?_
  · rintro s ⟨heap, nullString, prepareCallback, rfl⟩
    exact ⟨nofun, fun hq => absurd hq.initialised nofun⟩
  · rintro s a s' hreach hs ⟨hout, hc, he, rfl⟩
    exact survived_perform hreach hout hc he hs

theorem run_outside {steps : List (Attempt × Action)} (h : (attempts ssl).Run s steps) (a : Action)
    (hout : Outside a) (hc : s.crash = none) (he : s.Enabled a) :
    (attempts ssl).Run (s.perform a) ((s, a) :: steps) :=
  h.step ⟨hout, hc, he, rfl⟩

theorem run_resolving : (attempts false).Run resolving [(fresh, .init true true)] :=
  run_outside (.init ⟨_, _, _, rfl⟩) (.init true true) trivial rfl rfl

theorem run_connecting : (attempts false).Run connecting
    [(resolving, .onResolve 0), (fresh, .init true true)] :=
  run_outside run_resolving (.onResolve 0) trivial rfl Nat.zero_lt_one

theorem survived_connecting : connecting.Survived := by
  refine (survived_iff run_connecting).2 ?_ |>.1
  simp [GoesOn]

/-- A host that is not found is not reported, and a peer that goes away is an
    assertion. -/
theorem not_survived_ends :
    ((attempts false).Reachable (resolving.perform (.onResolve (-1))) ∧
      ¬ Survived (resolving.perform (.onResolve (-1)))) ∧
    ((attempts false).Reachable ((greeting.perform .readError).perform .onClose) ∧
      ¬ Survived ((greeting.perform .readError).perform .onClose)) := by
  have hgreeting := run_outside run_connecting (.onConnect 0) trivial rfl ⟨Nat.zero_lt_one, nofun⟩
  have hclosing := run_outside hgreeting .readError trivial rfl ⟨Nat.zero_lt_one, rfl⟩
  constructor
  · constructor
    · exact (run_outside run_resolving (.onResolve (-1)) trivial rfl Nat.zero_lt_one).reachable
    · exact not_survived_of_fail run_resolving.reachable rfl Nat.zero_lt_one (.inl rfl)
  · constructor
    · exact (run_outside hclosing .onClose trivial rfl Nat.zero_lt_one).reachable
    · intro h
      exact h.crash rfl

end Attempt

end CqlClient
