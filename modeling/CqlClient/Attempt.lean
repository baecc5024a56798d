/-
  CqlClient formalization — a connection on its event loop.

  libuv calls back once for every `uv_getaddrinfo`, `uv_tcp_connect` and `uv_close`
  that it was asked for, and reads between `uv_read_start` and `uv_close`.  An
  `Attempt` counts these callbacks; what they may find is the invariant `Inv`.
-/
import CqlClient.Handshake
import CqlClient.Requests

namespace CqlClient

open Connection

/-- The place of a state in the order of the handshake; a closed connection has left
    it. -/
def ClientConnectionState.progress : ClientConnectionState → ℕ
  | .disconnecting | .disconnected => 0
  | s => s.index

namespace Action

def isInit : Action → Bool
  | .init _ _ => true
  | _ => false

def resolveCalls : Action → ℕ
  | .onResolve _ => 1
  | _ => 0

def connectCalls : Action → ℕ
  | .onConnect _ => 1
  | _ => 0

def closeCalls : Action → ℕ
  | .onClose => 1
  | _ => 0

end Action

/-- A connection with the callbacks that libuv has made, and how the last action
    ended. -/
structure Attempt where
  conn : Connection
  initialised : Bool := false
  resolved : ℕ := 0
  connected : ℕ := 0
  closed : ℕ := 0
  /-- the furthest place of the handshake so far -/
  furthest : ℕ := 0
  crash : Option Crash := none

namespace Attempt

/-- libuv reads from the socket. -/
def Reading (s : Attempt) : Prop := 0 < s.conn.calls .readStart ∧ s.conn.calls .close = 0

/-- What can happen next.  Frames of a buffer that is being read still arrive when a
    callback of the user has closed the connection; a connect that is closed fails. -/
def Enabled (s : Attempt) : Action → Prop
  | .init _ _ => s.initialised = false
  | .onResolve _ => s.resolved < s.conn.calls .getaddrinfo
  | .onConnect status => s.connected < s.conn.calls .tcpConnect ∧
    (0 < s.conn.calls .close → status = -1)
  | .onClose => s.closed < s.conn.calls .close
  | .onWrite _ _ => True
  | .readError => s.Reading
  | .dispatch _ => 0 < s.conn.calls .readStart
  | .reading _ | .sendOutput _ | .handshakeDone =>
    s.conn.ssl = true ∧ 0 < s.conn.calls .readStart
  | .exec _ _ | .prepare _ _ | .setKeyspace _ => s.initialised = true
  | .close => 0 < s.conn.calls .tcpConnect ∧ s.conn.calls .close = 0

def perform (s : Attempt) (a : Action) : Attempt :=
  let (conn, crash) := Connection.perform a s.conn
  { conn
    initialised := s.initialised || a.isInit
    resolved := s.resolved + a.resolveCalls
    connected := s.connected + a.connectCalls
    closed := s.closed + a.closeCalls
    furthest := max s.furthest conn.state.progress
    crash }

/-- The runs of a connection on its event loop. -/
def system (ssl : Bool) : System Attempt Action where
  init s := ∃ heap nullString prepareCallback,
    s = { conn := Connection.new heap nullString ssl prepareCallback }
  step s a s' := s.crash = none ∧ s.Enabled a ∧ s' = s.perform a

theorem run_perform {s : Attempt} {ssl : Bool} {steps : List (Attempt × Action)}
    (h : (system ssl).Run s steps) (a : Action) (hc : s.crash = none) (he : s.Enabled a) :
    (system ssl).Run (s.perform a) ((s, a) :: steps) :=
  h.step ⟨hc, he, rfl⟩

/-! ## What the callbacks find -/

/-- Every call was asked for by the callback of the call before. -/
structure Counts (s : Attempt) : Prop where
  asked : s.conn.calls .getaddrinfo = if s.initialised then 1 else 0
  resolved : s.resolved ≤ s.conn.calls .getaddrinfo
  connect : s.conn.calls .tcpConnect ≤ s.resolved
  connected : s.connected ≤ s.conn.calls .tcpConnect
  read : s.conn.calls .readStart ≤ s.connected
  close : s.conn.calls .close ≤ s.conn.calls .tcpConnect
  closed : s.closed ≤ s.conn.calls .close

structure Inv (s : Attempt) : Prop where
  counts : s.Counts
  crashed : 0 < s.closed → s.crash ≠ none
  new : s.conn.calls .tcpConnect = 0 → s.conn.state = .new
  /-- nothing is sent or reported before libuv reads -/
  quiet : s.conn.calls .readStart = 0 → s.conn.sent cqlOpcodeOptions = 0 ∧
    s.conn.sent cqlOpcodeStartup = 0 ∧ s.conn.calls (.connectCallback none) = 0 ∧
    s.conn.reports = 0 ∧ s.furthest ≤ s.conn.calls .tcpConnect
  current : s.conn.state.progress ≤ s.furthest
  furthest : s.furthest ≤ 5

variable {s s' : Attempt} {ssl : Bool} {a : Action} {conn : Connection} {step : Advance}

theorem progress_le (state : ClientConnectionState) : state.progress ≤ 5 := by
  cases state <;> decide

theorem init_inv (h : (system ssl).init s) : s.Inv := by
  obtain ⟨heap, nullString, prepareCallback, rfl⟩ := h
  exact {
    counts := ⟨rfl, le_rfl, le_rfl, le_rfl, le_rfl, le_rfl, le_rfl⟩
    crashed := fun hpos => absurd hpos (Nat.lt_irrefl 0)
    new := fun _ => rfl
    quiet := fun _ => ⟨rfl, rfl, rfl, rfl, le_rfl⟩
    current := le_rfl
    furthest := Nat.zero_le 5 }

theorem Counts.asked_le (h : s.Counts) : s.conn.calls .getaddrinfo ≤ 1 := by
  rw [h.asked]
  split
  · exact le_rfl
  · exact Nat.zero_le 1

theorem closed_eq (h : s.Inv) (hc : s.crash = none) : s.closed = 0 := by
  by_contra hpos
  exact h.crashed (Nat.pos_of_ne_zero hpos) hc

/-- An action with no part in the handshake does not change it. -/
theorem perform_eq_of_apart (h : s.Inv) (hnone : a.advance s.conn = none) :
    Apart Output.isStep s.conn (s.perform a).conn ∧ (s.perform a).furthest = s.furthest := by
  have hapart := (perform_apart hnone).1
  refine ⟨hapart, ?_⟩
  change max s.furthest (Connection.perform a s.conn).1.state.progress = s.furthest
  rw [hapart.state]
  exact max_eq_left h.current

/-- A callback was asked for. -/
theorem enabled_calls (he : s.Enabled a) :
    (a.resolveCalls = 0 ∨ a.resolveCalls = 1 ∧ s.resolved < s.conn.calls .getaddrinfo) ∧
    (a.connectCalls = 0 ∨ a.connectCalls = 1 ∧ s.connected < s.conn.calls .tcpConnect) := by
  cases a with
  | onResolve status => exact ⟨.inr ⟨rfl, he⟩, .inl rfl⟩
  | onConnect status => exact ⟨.inl rfl, .inr ⟨rfl, he.1⟩⟩
  | _ => exact ⟨.inl rfl, .inl rfl⟩

theorem Inv.of_apart (h : s.Inv) (hc : s.crash = none) (he : s.Enabled a)
    (hnone : a.advance s.conn = none) : (s.perform a).Inv := by
  obtain ⟨hapart, hfar⟩ := perform_eq_of_apart h hnone
  have hcalls : ∀ o, o.isStep = true → (s.perform a).conn.calls o = s.conn.calls o :=
    fun o ho => hapart.calls ho
  have hg := hcalls .getaddrinfo rfl
  have ht := hcalls .tcpConnect rfl
  have hr := hcalls .readStart rfl
  have hcl := hcalls .close rfl
  have hother : a.isInit = false ∧ a.closeCalls = 0 := by
    cases a with
    | init | onClose => cases hnone
    | _ => exact ⟨rfl, rfl⟩
  have hinit : (s.perform a).initialised = s.initialised := by
    change (s.initialised || a.isInit) = _
    rw [hother.1, Bool.or_false]
  have hresolved : (s.perform a).resolved = s.resolved + a.resolveCalls := rfl
  have hconnected : (s.perform a).connected = s.connected + a.connectCalls := rfl
  have hclosed : (s.perform a).closed = s.closed := congrArg (s.closed + ·) hother.2
  obtain ⟨hres, hcon⟩ := enabled_calls he
  constructor
  · have hcounts := h.counts
    constructor
    · rw [hg, hinit]
      exact hcounts.asked
    · have := hcounts.resolved
      omega
    · have := hcounts.connect
      omega
    · have := hcounts.connected
      omega
    · have := hcounts.read
      omega
    · have := hcounts.close
      omega
    · have := hcounts.closed
      omega
  · intro hpos
    rw [hclosed, closed_eq h hc] at hpos
    exact absurd hpos (Nat.lt_irrefl 0)
  · intro hzero
    rw [hapart.state]
    exact h.new (ht.symm.trans hzero)
  · intro hzero
    obtain ⟨hopt, hst, hready, hrep, hle⟩ := h.quiet (hr.symm.trans hzero)
    have hreports : s.conn.reports = (s.perform a).conn.reports := by
      refine (perform_apart hnone).2 fun message ha => ?_
      subst ha
      have hpos : 0 < s.conn.calls .readStart := he
      omega
    rw [hfar, ht]
    exact ⟨(hapart.sent _ (by decide)).trans hopt, (hapart.sent _ (by decide)).trans hst,
      (hcalls (.connectCallback none) rfl).trans hready, hreports.symm.trans hrep, hle⟩
  · rw [hfar, hapart.state]
    exact h.current
  · exact hfar.trans_le h.furthest

/-- A step of the handshake keeps the invariant if its calls do. -/
theorem Inv.of_calls (h : s.Inv) (hadv : s.conn.Advances step (s.perform a).conn)
    (hcounts : (s.perform a).Counts)
    (hcrashed : 0 < (s.perform a).closed → (s.perform a).crash ≠ none)
    (hnew : (s.perform a).conn.calls .tcpConnect = 0 → step.state = .new)
    (hquiet : (s.perform a).conn.calls .readStart = 0 → step.sends = none ∧
      step.calls.count (.connectCallback none) = 0 ∧ step.calls.countP Output.isReport = 0 ∧
      step.state.progress ≤ (s.perform a).conn.calls .tcpConnect) : (s.perform a).Inv := by
  have hfar : (s.perform a).furthest = max s.furthest (s.perform a).conn.state.progress := rfl
  constructor
  · exact hcounts
  · exact hcrashed
  · intro hzero
    exact hadv.state.trans (hnew hzero)
  · intro hzero
    have hr := hadv.calls .readStart
    have ht := hadv.calls .tcpConnect
    obtain ⟨hsends, hready, hrep, hle⟩ := hquiet hzero
    obtain ⟨hopt, hst, hready', hrep', hle'⟩ := h.quiet (by omega)
    have hsent : ∀ op, (s.perform a).conn.sent op = s.conn.sent op := by
      intro op
      rw [hadv.sent, hsends]
      simp only [reduceCtorEq, false_and, if_false, Nat.add_zero]
    rw [hsent, hsent, hadv.calls, hadv.reports, hfar, hadv.state, hready, hrep]
    exact ⟨hopt, hst, hready', hrep', max_le (by omega) hle⟩
  · rw [hfar]
    exact le_max_right _ _
  · rw [hfar]
    exact max_le h.furthest (progress_le _)

/-- A response makes no call to libuv. -/
theorem advance_calls {message : Message} {c : Connection} (h : message.advance c = some step)
    {o : Output} (ho : o ≠ .connectCallback none) : step.calls.count o = 0 ∧
      step.calls.countP Output.isReport = 0 := by
  unfold Message.advance at h
  split at h
  · cases h
  split at h
  · cases h
    exact ⟨rfl, rfl⟩
  split at h
  · cases h
    cases c.connectCallback
    · exact ⟨rfl, rfl⟩
    · exact ⟨List.count_eq_zero_of_not_mem (by simpa using ho), rfl⟩
  · cases h

/-- The callback that a step of the handshake is, and the calls it makes. -/
theorem Counts.of_advances (h : s.Counts) (he : s.Enabled a) (hstep : a.advance s.conn = some step)
    (hadv : s.conn.Advances step (s.perform a).conn) : (s.perform a).Counts := by
  have hg := hadv.calls .getaddrinfo
  have ht := hadv.calls .tcpConnect
  have hr := hadv.calls .readStart
  have hcl := hadv.calls .close
  have hinit : (s.perform a).initialised = (s.initialised || a.isInit) := rfl
  have hres : (s.perform a).resolved = s.resolved + a.resolveCalls := rfl
  have hcon : (s.perform a).connected = s.connected + a.connectCalls := rfl
  have hclosed : (s.perform a).closed = s.closed + a.closeCalls := rfl
  generalize s.perform a = s' at *
  obtain ⟨hasked, hresolved, hconnect, hconnected, hread, hclose, hclosed'⟩ := h
  cases a with
  | init connect keyspace =>
    cases hstep
    have he : s.initialised = false := he
    simp [Action.isInit, Action.resolveCalls, Action.connectCalls, Action.closeCalls]
      at hg ht hr hcl hinit hres hcon hclosed
    simp only [he, Bool.false_eq_true, if_false] at hasked
    constructor
    · rw [hinit]
      simp
      omega
    all_goals omega
  | onResolve status =>
    simp only [Action.advance] at hstep
    split at hstep
    · cases hstep
    cases hstep
    have he : s.resolved < s.conn.calls .getaddrinfo := he
    simp [Action.isInit, Action.resolveCalls, Action.connectCalls, Action.closeCalls]
      at hg ht hr hcl hinit hres hcon hclosed
    rw [← hinit] at hasked
    constructor
    · rw [hg, hasked]
    all_goals split at hasked <;> omega
  | onConnect status =>
    have hcalls : step.calls = [.readStart] := by
      simp only [Action.advance] at hstep
      split at hstep
      · cases hstep
      split at hstep <;> cases hstep <;> rfl
    have he : s.connected < s.conn.calls .tcpConnect := he.1
    rw [hcalls] at hg ht hr hcl
    simp [Action.isInit, Action.resolveCalls, Action.connectCalls, Action.closeCalls]
      at hg ht hr hcl hinit hres hcon hclosed
    rw [← hinit] at hasked
    constructor
    · rw [hg, hasked]
    all_goals split at hasked <;> omega
  | readError | close =>
    cases hstep
    have he : 0 < s.conn.calls .tcpConnect ∧ s.conn.calls .close = 0 := by
      obtain ⟨hpos, hzero⟩ := he
      exact ⟨by omega, hzero⟩
    simp [Action.isInit, Action.resolveCalls, Action.connectCalls, Action.closeCalls]
      at hg ht hr hcl hinit hres hcon hclosed
    rw [← hinit] at hasked
    constructor
    · rw [hg, hasked]
    all_goals omega
  | onClose =>
    cases hstep
    have he : s.closed < s.conn.calls .close := he
    simp [Action.isInit, Action.resolveCalls, Action.connectCalls, Action.closeCalls]
      at hg ht hr hcl hinit hres hcon hclosed
    rw [← hinit] at hasked
    constructor
    · rw [hg, hasked]
    all_goals omega
  | handshakeDone | dispatch message =>
    have hzero : ∀ o : Output, o ≠ .connectCallback none → step.calls.count o = 0 := by
      intro o ho
      first
      | exact (advance_calls hstep ho).1
      | cases hstep; rfl
    rw [hzero .getaddrinfo (by simp)] at hg
    rw [hzero .tcpConnect (by simp)] at ht
    rw [hzero .readStart (by simp)] at hr
    rw [hzero .close (by simp)] at hcl
    simp only [Action.isInit, Action.resolveCalls, Action.connectCalls, Action.closeCalls,
      Bool.or_false, Nat.add_zero] at hg ht hr hcl hinit hres hcon hclosed
    rw [← hinit] at hasked
    constructor
    · rw [hg, hasked]
    all_goals omega
  | onWrite | reading | sendOutput | exec | prepare | setKeyspace => cases hstep

/-- `init` finds a new connection. -/
theorem Inv.state_of_init (h : s.Inv) {connect keyspace : Bool}
    (he : s.Enabled (.init connect keyspace)) : s.conn.state = .new := by
  have hinit : s.initialised = false := he
  obtain ⟨hasked, hresolved, hconnect, -⟩ := h.counts
  rw [hinit] at hasked
  simp only [Bool.false_eq_true, if_false] at hasked
  exact h.new (by omega)

/-- What a step of the handshake finds and asks for. -/
theorem Inv.of_advances (h : s.Inv) (hc : s.crash = none) (he : s.Enabled a)
    (hstep : a.advance s.conn = some step) : (s.perform a).Inv ∧
      (s.perform a).crash = step.crash ∧ s.conn.Advances step (s.perform a).conn := by
  have hcounts := h.counts
  have hzero := closed_eq h hc
  have hnew : ∀ connect keyspace, a = .init connect keyspace → s.conn.state = .new := by
    rintro connect keyspace rfl
    exact h.state_of_init he
  obtain ⟨conn, hperform, hadv⟩ := perform_advances hstep hnew
  have hconn : (s.perform a).conn = conn := congrArg Prod.fst hperform
  have hcrash : (s.perform a).crash = step.crash := congrArg Prod.snd hperform
  rw [← hconn] at hadv
  have hcounts' := hcounts.of_advances he hstep hadv
  refine ⟨h.of_calls hadv hcounts' ?_ ?_ ?_, hcrash, hadv⟩
  · intro hpos
    rw [hcrash]
    change 0 < s.closed + a.closeCalls at hpos
    cases a with
    | onClose =>
      cases hstep
      nofun
    | _ =>
      rw [hzero] at hpos
      cases hpos
  · intro ht
    have hcalls := hadv.calls .tcpConnect
    obtain ⟨-, -, -, hconnected, hread, hclose, hclosed⟩ := hcounts
    cases a with
    | init => cases hstep; rfl
    | onResolve status =>
      simp only [Action.advance] at hstep
      split at hstep
      · cases hstep
      cases hstep
      simp only [List.count_singleton_self] at hcalls
      omega
    | onConnect status =>
      have hpos := he.1
      omega
    | readError | close =>
      have hpos := he.1
      omega
    | onClose =>
      have hpos : s.closed < s.conn.calls .close := he
      omega
    | handshakeDone =>
      have hpos := he.2
      omega
    | dispatch message =>
      have hpos : 0 < s.conn.calls .readStart := he
      omega
    | onWrite | reading | sendOutput | exec | prepare | setKeyspace => cases hstep
  · intro hr
    have hcalls := hadv.calls .readStart
    have hcalls' := hadv.calls .tcpConnect
    cases a with
    | init | close | onClose =>
      cases hstep
      exact ⟨rfl, rfl, rfl, Nat.zero_le _⟩
    | onResolve status =>
      simp only [Action.advance] at hstep
      split at hstep
      · cases hstep
      cases hstep
      simp only [List.count_singleton_self] at hcalls'
      refine ⟨rfl, rfl, rfl, ?_⟩
      rw [hcalls']
      exact Nat.succ_le_succ (Nat.zero_le _)
    | onConnect status =>
      simp only [Action.advance] at hstep
      split at hstep
      · cases hstep
      split at hstep <;> cases hstep <;> simp only [List.count_singleton_self] at hcalls <;> omega
    | readError =>
      have hpos := he.1
      omega
    | handshakeDone =>
      have hpos := he.2
      omega
    | dispatch message =>
      have hpos : 0 < s.conn.calls .readStart := he
      omega
    | onWrite | reading | sendOutput | exec | prepare | setKeyspace => cases hstep

/-- **The invariant is kept by every action.** -/
theorem Inv.perform (h : s.Inv) (hc : s.crash = none) (he : s.Enabled a) : (s.perform a).Inv := by
  rcases hstep : a.advance s.conn with _ | step
  · exact h.of_apart hc he hstep
  · exact (h.of_advances hc he hstep).1

theorem inv_of_reachable (h : (system ssl).Reachable s) : s.Inv := by
  induction h with
  | init h => exact init_inv h
  | step _ hs ih =>
    obtain ⟨hc, he, rfl⟩ := hs
    exact ih.perform hc he

/-- The connection has SSL or not for good. -/
theorem ssl_of_reachable (h : (system ssl).Reachable s) : s.conn.ssl = ssl := by
  induction h with
  | init h =>
    obtain ⟨heap, nullString, prepareCallback, rfl⟩ := h
    rfl
  | @step s s' a hreach hs ih =>
    obtain ⟨hc, he, rfl⟩ := hs
    have hinv := inv_of_reachable hreach
    rcases hstep : a.advance s.conn with _ | step
    · exact (perform_eq_of_apart hinv hstep).1.ssl.trans ih
    · exact (hinv.of_advances hc he hstep).2.2.ssl.trans ih

/-! ## A connection that connects -/

def fresh : Attempt := { conn := Connection.fresh }

def resolving : Attempt := fresh.perform (.init true true)

def connecting : Attempt := resolving.perform (.onResolve 0)

/-- The connection has sent OPTIONS. -/
def greeting : Attempt := connecting.perform (.onConnect 0)

theorem run_greeting : (system false).Run greeting
    [(connecting, .onConnect 0), (resolving, .onResolve 0), (fresh, .init true true)] := by
  have h₀ : (system false).Run fresh [] := .init ⟨_, _, _, rfl⟩
  have h₁ := run_perform h₀ (.init true true) rfl rfl
  have h₂ := run_perform h₁ (.onResolve 0) rfl Nat.zero_lt_one
  exact run_perform h₂ (.onConnect 0) rfl ⟨Nat.zero_lt_one, nofun⟩

end Attempt

end CqlClient
