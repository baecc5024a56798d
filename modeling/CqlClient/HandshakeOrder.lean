/-
  CqlClient formalization — the order of the handshake, whatever the server sends.

  `on_supported` and `on_ready` assign the state and go on from there, whatever the
  state was.  The handshake of a connection without SSL is orderly as long as no
  response arrives out of turn (`orderly_iff`).
-/
import CqlClient.Attempt

namespace CqlClient

open Connection

namespace Attempt

/-- The handshake has gone forward only, and each of its steps was taken once. -/
structure Orderly (s : Attempt) : Prop where
  state : s.conn.state.index ≤ ClientConnectionState.ready.index → s.furthest ≤ s.conn.state.index
  options : s.conn.sent cqlOpcodeOptions ≤ 1
  startup : s.conn.sent cqlOpcodeStartup ≤ 1
  ready : s.conn.calls (.connectCallback none) ≤ 1
  after : 0 < s.conn.calls (.connectCallback none) → 0 < s.conn.sent cqlOpcodeStartup

/-- SUPPORTED does not arrive when READY did, or when STARTUP was sent and would be
    sent again; READY does not arrive, for a callback, before STARTUP was sent, or again. -/
def InTurn (s : Attempt) : Action → Prop
  | .dispatch message => 0 ≤ message.stream →
    (message.opcode = cqlOpcodeSupported → s.furthest < ClientConnectionState.ready.index ∧
      (s.conn.HasStream → s.conn.sent cqlOpcodeStartup = 0)) ∧
    (message.opcode = cqlOpcodeReady → s.conn.connectCallback = true →
      s.conn.calls (.connectCallback none) = 0 ∧ 0 < s.conn.sent cqlOpcodeStartup)
  | _ => True

variable {s s' : Attempt} {a : Action} {step : Advance}

/-- An action with no part in the handshake leaves it orderly, and is in turn. -/
theorem orderly_of_apart (hinv : s.Inv) (h : s.Orderly) (hnone : a.advance s.conn = none) :
    (s.perform a).Orderly ↔ s.InTurn a := by
  obtain ⟨hapart, hfar⟩ := perform_eq_of_apart hinv hnone
  have hsent := fun op (hne : op ≠ cqlOpcodeQuery) => hapart.sent op hne
  have hready := hapart.calls (o := .connectCallback none) rfl
  refine iff_of_true ?_ ?_
  · constructor
    · rw [hapart.state, hfar]
      exact h.state
    · rw [hsent _ (by decide)]
      exact h.options
    · rw [hsent _ (by decide)]
      exact h.startup
    · rw [hready]
      exact h.ready
    · rw [hready, hsent _ (by decide)]
      exact h.after
  · cases a with
    | dispatch message =>
      intro hstream
      simp only [Action.advance, Message.advance, if_neg (Int.not_lt.2 hstream)] at hnone
      constructor
      · intro hop
        rw [if_pos hop] at hnone
        cases hnone
      · intro hop
        have hne : message.opcode ≠ cqlOpcodeSupported := by
          rw [hop]
          decide
        rw [if_neg hne, if_pos hop] at hnone
        cases hnone
    | _ => trivial

/-- Before libuv reads there is nothing but the state. -/
theorem orderly_of_early (hinv : s.Inv) (hread : s.conn.calls .readStart = 0)
    (hstate : s.conn.state.index ≤ ClientConnectionState.ready.index →
      s.furthest ≤ s.conn.state.index) : s.Orderly := by
  obtain ⟨hopt, hst, hready, -, -⟩ := hinv.quiet hread
  constructor
  · exact hstate
  · omega
  · omega
  · omega
  · intro hpos
    omega

/-- A closed connection has left the order. -/
theorem orderly_of_closed (h : s.Orderly) (hadv : s.conn.Advances step s'.conn)
    (hstate : ClientConnectionState.ready.index < step.state.index) (hsends : step.sends = none)
    (hcalls : step.calls.count (.connectCallback none) = 0) : s'.Orderly := by
  have hsent : ∀ op, s'.conn.sent op = s.conn.sent op := by
    intro op
    rw [hadv.sent, hsends]
    simp only [reduceCtorEq, false_and, if_false, Nat.add_zero]
  have hready : s'.conn.calls (.connectCallback none) = s.conn.calls (.connectCallback none) := by
    rw [hadv.calls, hcalls]
    rfl
  constructor
  · intro hle
    rw [hadv.state] at hle
    exact absurd hstate (Nat.not_lt.2 hle)
  · rw [hsent]
    exact h.options
  · rw [hsent]
    exact h.startup
  · rw [hready]
    exact h.ready
  · rw [hready, hsent]
    exact h.after

/-- SUPPORTED is in turn exactly when it keeps the order. -/
theorem orderly_supported (hinv : s.Inv) (h : s.Orderly)
    (hadv : s.conn.Advances { state := .supported, sends := some cqlOpcodeStartup } s'.conn)
    (hfar : s'.furthest = max s.furthest 4) : s'.Orderly ↔
      s.furthest < ClientConnectionState.ready.index ∧
      (s.conn.HasStream → s.conn.sent cqlOpcodeStartup = 0) := by
  have hstate : s'.conn.state.index = 4 := by
    rw [hadv.state]
    rfl
  have hopt : s'.conn.sent cqlOpcodeOptions = s.conn.sent cqlOpcodeOptions := by
    rw [hadv.sent]
    rfl
  have hst := hadv.sent cqlOpcodeStartup
  have hready := hadv.calls (.connectCallback none)
  simp only [true_and, List.count_nil, Nat.add_zero] at hst hready
  have hle := h.startup
  have hfar' := hinv.furthest
  constructor
  · intro horder
    have h₁ := horder.state (by rw [hstate]; decide)
    have h₂ := horder.startup
    rw [hfar, hstate] at h₁
    refine ⟨?_, fun hfree => ?_⟩
    · change s.furthest < 5
      omega
    · rw [if_pos hfree] at hst
      omega
  · rintro ⟨hlt, hzero⟩
    change s.furthest < 5 at hlt
    constructor
    · intro _
      rw [hfar, hstate]
      omega
    · rw [hopt]
      exact h.options
    · split at hst
      · rename_i hfree
        have := hzero hfree
        omega
      · omega
    · rw [hready]
      exact h.ready
    · intro hpos
      rw [hready] at hpos
      have := h.after hpos
      omega

/-- READY is in turn exactly when it keeps the order. -/
theorem orderly_ready (hinv : s.Inv) (h : s.Orderly)
    (hadv : s.conn.Advances { state := .ready
                              calls := if s.conn.connectCallback then [.connectCallback none]
                                else [] } s'.conn)
    (hfar : s'.furthest = max s.furthest 5) : s'.Orderly ↔
      (s.conn.connectCallback = true → s.conn.calls (.connectCallback none) = 0 ∧
        0 < s.conn.sent cqlOpcodeStartup) := by
  have hstate : s'.conn.state.index = 5 := by
    rw [hadv.state]
    rfl
  have hsent : ∀ op, s'.conn.sent op = s.conn.sent op := by
    intro op
    rw [hadv.sent]
    rfl
  have hready := hadv.calls (.connectCallback none)
  have hle := h.ready
  have hfar' := hinv.furthest
  constructor
  · intro horder hcallback
    have h₁ := horder.ready
    have h₂ := horder.after
    simp only [hcallback, if_true, List.count_singleton_self] at hready
    rw [hsent] at h₂
    exact ⟨by omega, h₂ (by omega)⟩
  · intro hturn
    constructor
    · intro _
      rw [hfar, hstate]
      omega
    · rw [hsent]
      exact h.options
    · rw [hsent]
      exact h.startup
    · by_cases hcallback : s.conn.connectCallback = true
      · have := (hturn hcallback).1
        simp only [hcallback, if_true, List.count_singleton_self] at hready
        omega
      · rw [if_neg hcallback, List.count_nil] at hready
        omega
    · intro hpos
      rw [hsent]
      by_cases hcallback : s.conn.connectCallback = true
      · exact (hturn hcallback).2
      · rw [if_neg hcallback, List.count_nil] at hready
        exact h.after (by omega)

/-- **One action keeps the order exactly when it is in turn.** -/
theorem orderly_perform (hinv : s.Inv) (hssl : s.conn.ssl = false) (hc : s.crash = none)
    (he : s.Enabled a) (h : s.Orderly) : (s.perform a).Orderly ↔ s.InTurn a := by
  rcases hstep : a.advance s.conn with _ | step
  · exact orderly_of_apart hinv h hstep
  obtain ⟨hinv', -, hadv⟩ := hinv.of_advances hc he hstep
  have hfar : (s.perform a).furthest = max s.furthest step.state.progress := by
    rw [← hadv.state]
    rfl
  obtain ⟨hasked, hresolved, hconnect, hconnected, hread, hclose, hclosed⟩ := hinv.counts
  have hone := hinv.counts.asked_le
  have hr := hadv.calls .readStart
  have hquiet := hinv.quiet
  cases a with
  | init connect keyspace =>
    cases hstep
    have hinit : s.initialised = false := he
    simp only [hinit, Bool.false_eq_true, if_false] at hasked
    have hzero : (s.perform (.init connect keyspace)).conn.calls .readStart = 0 := by
      rw [hr, List.count_eq_zero_of_not_mem (by simp)]
      omega
    refine iff_of_true (orderly_of_early hinv' hzero fun _ => ?_) trivial
    obtain ⟨-, -, -, -, hle⟩ := hquiet (by omega)
    rw [hfar, hadv.state]
    exact max_le (by omega) le_rfl
  | onResolve status =>
    simp only [Action.advance] at hstep
    split at hstep
    · cases hstep
    cases hstep
    have hpos : s.resolved < s.conn.calls .getaddrinfo := he
    have hzero : (s.perform (.onResolve status)).conn.calls .readStart = 0 := by
      rw [hr, List.count_eq_zero_of_not_mem (by simp)]
      omega
    refine iff_of_true (orderly_of_early hinv' hzero fun _ => ?_) trivial
    obtain ⟨-, -, -, -, hle⟩ := hquiet (by omega)
    rw [hfar, hadv.state]
    exact max_le (by change _ ≤ 1; omega) le_rfl
  | onConnect status =>
    simp only [Action.advance, hssl] at hstep
    split at hstep
    · cases hstep
    cases hstep
    have hpos : s.connected < s.conn.calls .tcpConnect := he.1
    obtain ⟨hopt, hst, hready, -, hle⟩ := hquiet (by omega)
    have hopt' := hadv.sent cqlOpcodeOptions
    have hst' := hadv.sent cqlOpcodeStartup
    have hready' := hadv.calls (.connectCallback none)
    rw [hst, if_neg fun hcase => absurd hcase.1 (by simp; decide)] at hst'
    rw [hready, List.count_eq_zero_of_not_mem (by simp)] at hready'
    refine iff_of_true ?_ trivial
    constructor
    · intro _
      rw [hfar, hadv.state]
      exact max_le (by change _ ≤ 3; omega) le_rfl
    · rw [hopt', hopt]
      split <;> decide
    · rw [hst']
      decide
    · rw [hready']
      decide
    · intro hpos'
      rw [hready'] at hpos'
      exact absurd hpos' (Nat.lt_irrefl 0)
  | readError | close | onClose =>
    cases hstep
    exact iff_of_true (orderly_of_closed h hadv (by decide) rfl rfl) trivial
  | handshakeDone =>
    rw [he.1] at hssl
    cases hssl
  | dispatch message =>
    have hinTurn : s.InTurn (.dispatch message) ↔ (0 ≤ message.stream →
      (message.opcode = cqlOpcodeSupported → s.furthest < ClientConnectionState.ready.index ∧
        (s.conn.HasStream → s.conn.sent cqlOpcodeStartup = 0)) ∧
      (message.opcode = cqlOpcodeReady → s.conn.connectCallback = true →
        s.conn.calls (.connectCallback none) = 0 ∧ 0 < s.conn.sent cqlOpcodeStartup)) := Iff.rfl
    rw [hinTurn]
    simp only [Action.advance, Message.advance] at hstep
    split at hstep
    · cases hstep
    rename_i hstream
    have hstream := Int.not_lt.1 hstream
    split at hstep
    · rename_i hop
      cases hstep
      have hne : message.opcode ≠ cqlOpcodeReady := by
        rw [hop]
        decide
      rw [orderly_supported hinv h hadv hfar]
      constructor
      · intro hsup _
        exact ⟨fun _ => hsup, fun hready => absurd hready hne⟩
      · intro hturn
        exact (hturn hstream).1 hop
    split at hstep
    · rename_i hne hop
      cases hstep
      rw [orderly_ready hinv h hadv hfar]
      constructor
      · intro hready _
        exact ⟨fun hsup => absurd hsup hne, fun _ => hready⟩
      · intro hturn
        exact (hturn hstream).2 hop
    · cases hstep
  | onWrite | reading | sendOutput | exec | prepare | setKeyspace => cases hstep

/-- **The handshake is orderly exactly as long as every response is in turn.** -/
theorem orderly_iff {steps : List (Attempt × Action)} (h : (system false).Run s steps) :
    (s.Orderly ∧ ∀ x ∈ steps, x.1.Orderly) ↔ ∀ x ∈ steps, x.1.InTurn x.2 := by
  refine h.forall_iff ?_ ?_
  · rintro s hinit
    refine orderly_of_early (init_inv hinit) ?_ ?_
    · obtain ⟨heap, nullString, prepareCallback, rfl⟩ := hinit
      rfl
    · obtain ⟨heap, nullString, prepareCallback, rfl⟩ := hinit
      exact fun _ => le_rfl
  · rintro s a s' hreach horder ⟨hc, he, rfl⟩
    exact orderly_perform (inv_of_reachable hreach) (ssl_of_reachable hreach) hc he horder

/-! ## A server that answers, and one that answers twice -/

/-- The server has answered OPTIONS, and the connection has sent STARTUP. -/
def starting : Attempt := greeting.perform (.dispatch supportedResponse)

/-- The server has answered STARTUP. -/
def started : Attempt := starting.perform (.dispatch readyResponse)

theorem run_started : (system false).Run started
    [(starting, .dispatch readyResponse), (greeting, .dispatch supportedResponse),
      (connecting, .onConnect 0), (resolving, .onResolve 0), (fresh, .init true true)] := by
  have h := run_perform run_greeting (.dispatch supportedResponse) rfl Nat.zero_lt_one
  exact run_perform h (.dispatch readyResponse) rfl Nat.zero_lt_one

theorem orderly_started : started.Orderly := by
  refine ((orderly_iff run_started).2 ?_).1
  simp only [List.forall_mem_cons, List.not_mem_nil, false_implies, implies_true, and_true]
  refine ⟨fun _ => ⟨nofun, fun _ _ => ?_⟩, fun _ => ⟨fun _ => ?_, nofun⟩, trivial, trivial, trivial⟩
  · exact ⟨rfl, Nat.zero_lt_one⟩
  · exact ⟨by decide, fun _ => rfl⟩

/-- A second SUPPORTED takes a connection that is ready back, and STARTUP is sent again. -/
theorem not_orderly_again :
    (system false).Reachable (started.perform (.dispatch supportedResponse)) ∧
    ¬ Orderly (started.perform (.dispatch supportedResponse)) := by
  constructor
  · exact (run_perform run_started (.dispatch supportedResponse) rfl Nat.zero_lt_one).reachable
  · intro h
    exact absurd h.startup (by decide)

end Attempt

end CqlClient
