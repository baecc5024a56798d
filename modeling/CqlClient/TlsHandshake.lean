/-
  CqlClient formalization — the end of the TLS handshake.

  `on_read` asks whether the handshake is done behind the `break` of its loop: not
  when the session has accepted all of the input.  Where it does ask, it asks
  `ssl_handshake_done_`, which nothing sets.  So the end of the handshake is
  noticed once only if it shows in a round that leaves some input, and in no such
  round after that (`noticed_of_reachable`).  Whether there was such a round is known
  from what `read_write` and `handshake_done` have returned (`seesDone`).
-/
import CqlClient.Attempt
import CqlClient.Confidentiality
import CqlClient.Results

namespace CqlClient

open Connection

namespace Attempt
variable {s s' : Attempt} {a : Action} {as : List Action} {step : Advance}

/-! ## Actions other than the notice -/

/-- OPTIONS is not sent, the connection does not enter the handshake state, and it is
    not connected again. -/
structure Between (s s' : Attempt) : Prop where
  sent : s'.conn.sent cqlOpcodeOptions = s.conn.sent cqlOpcodeOptions
  read : s'.conn.calls .readStart = s.conn.calls .readStart
  close : s.conn.calls .close ≤ s'.conn.calls .close
  handshake : s'.conn.state = .handshake → s.conn.state = .handshake ∧ s'.furthest = s.furthest
  connected : s'.conn.state = .connected →
    s.conn.state = .connected ∧ s'.conn.calls .close = s.conn.calls .close

theorem Between.refl (s : Attempt) : Between s s :=
  ⟨rfl, rfl, le_rfl, fun h => ⟨h, rfl⟩, fun h => ⟨h, rfl⟩⟩

theorem Between.trans {s₁ : Attempt} (h : Between s s₁) (h' : Between s₁ s') : Between s s' where
  sent := h'.sent.trans h.sent
  read := h'.read.trans h.read
  close := h.close.trans h'.close
  handshake hstate := by
    obtain ⟨hstate₁, hfar⟩ := h'.handshake hstate
    obtain ⟨hstate₀, hfar'⟩ := h.handshake hstate₁
    exact ⟨hstate₀, hfar.trans hfar'⟩
  connected hstate := by
    obtain ⟨hstate₁, hclose⟩ := h'.connected hstate
    obtain ⟨hstate₀, hclose'⟩ := h.connected hstate₁
    exact ⟨hstate₀, hclose.trans hclose'⟩

/-- The end of the handshake is noticed, or the connection is connected. -/
def Begins : Action → Prop
  | .onConnect status => status ≠ -1
  | .handshakeDone => True
  | _ => False

/-- Every other step of the handshake sends no OPTIONS and enters another state. -/
theorem advance_between {c : Connection} (h : a.advance c = some step) (hne : ¬ Begins a) :
    step.sends ≠ some cqlOpcodeOptions ∧ step.calls.count .readStart = 0 ∧
      step.state ≠ .handshake ∧ step.state ≠ .connected := by
  cases a with
  | onResolve status =>
    simp only [Action.advance] at h
    split at h
    · cases h
    · cases h
      exact ⟨by simp, rfl, by simp, by simp⟩
  | onConnect status =>
    simp only [Action.advance] at h
    split at h
    · cases h
    · rename_i hs
      exact absurd hs hne
  | handshakeDone => exact absurd trivial hne
  | dispatch message =>
    have hcalls := (advance_calls h (o := .readStart) (by simp)).1
    simp only [Action.advance, Message.advance] at h
    split at h
    · cases h
    split at h
    · cases h
      exact ⟨by decide, hcalls, by simp, by simp⟩
    split at h
    · cases h
      exact ⟨by simp, hcalls, by simp, by simp⟩
    · cases h
  | init | onClose | readError | close =>
    cases h
    exact ⟨by simp, rfl, by simp, by simp⟩
  | _ => cases h

/-- **Every other action** is between. -/
theorem perform_between (hinv : s.Inv) (hc : s.crash = none) (he : s.Enabled a)
    (hne : ¬ Begins a) : Between s (s.perform a) := by
  rcases hstep : a.advance s.conn with _ | step
  · obtain ⟨hapart, hfar⟩ := perform_eq_of_apart hinv hstep
    have hclose : (s.perform a).conn.calls .close = s.conn.calls .close := hapart.calls rfl
    constructor
    · exact hapart.sent _ (by decide)
    · exact hapart.calls rfl
    · exact hclose.ge
    · intro hstate
      exact ⟨hapart.state.symm.trans hstate, hfar⟩
    · intro hstate
      exact ⟨hapart.state.symm.trans hstate, hclose⟩
  · obtain ⟨-, -, hadv⟩ := hinv.of_advances hc he hstep
    obtain ⟨hsends, hread, hhandshake, hconnected⟩ := advance_between hstep hne
    constructor
    · rw [hadv.sent, if_neg fun h => hsends h.1]
      rfl
    · rw [hadv.calls, hread]
      rfl
    · rw [hadv.calls]
      exact Nat.le_add_right _ _
    · intro hstate
      exact absurd (hadv.state.symm.trans hstate) hhandshake
    · intro hstate
      exact absurd (hadv.state.symm.trans hstate) hconnected

theorem path_between (hreach : (system true).Reachable s) (h : (system true).Path s as s')
    (hne : ∀ a ∈ as, ¬ Begins a) : Between s s' := by
  induction h with
  | nil s => exact .refl s
  | @cons s s₁ s' a as hs hpath ih =>
    have hs' := hs
    obtain ⟨hc, he, rfl⟩ := hs'
    have hfirst := perform_between (inv_of_reachable hreach) hc he (hne a (List.mem_cons_self ..))
    exact hfirst.trans (ih (hreach.step hs) fun b hb => hne b (List.mem_cons_of_mem a hb))

/-- Without SUPPORTED and READY the handshake gets no further. -/
theorem path_furthest (hreach : (system true).Reachable s) (h : (system true).Path s as s')
    (hnone : ∀ a ∈ as, ∀ c, a.advance c = none) : s'.furthest = s.furthest := by
  induction h with
  | nil s => rfl
  | @cons s s₁ s' a as hs hpath ih =>
    have hs' := hs
    obtain ⟨hc, he, rfl⟩ := hs'
    have hfirst := (perform_eq_of_apart (inv_of_reachable hreach)
      (hnone a (List.mem_cons_self ..) s.conn)).2
    exact (ih (hreach.step hs) fun b hb => hnone b (List.mem_cons_of_mem a hb)).trans hfirst

/-- A connected connection is read from, and has not sent OPTIONS. -/
theorem connected_of_reachable (h : (system true).Reachable s)
    (hstate : s.conn.state = .connected) :
    s.conn.sent cqlOpcodeOptions = 0 ∧ s.Reading := by
  induction h with
  | init h =>
    obtain ⟨heap, nullString, prepareCallback, rfl⟩ := h
    cases hstate
  | @step s s' a hreach hs ih =>
    obtain ⟨hc, he, rfl⟩ := hs
    have hinv := inv_of_reachable hreach
    by_cases hbegins : Begins a
    · cases a with
      | onConnect status =>
        have hssl := ssl_of_reachable hreach
        obtain ⟨-, -, hadv⟩ := hinv.of_advances hc he ((if_neg hbegins).trans (if_pos hssl))
        obtain ⟨hasked, hresolved, hconnect, hconnected, hread, hclose, -⟩ := hinv.counts
        have hlt : s.connected < s.conn.calls .tcpConnect := he.1
        have hone := hinv.counts.asked_le
        obtain ⟨hopt, -⟩ := hinv.quiet (by omega)
        have hsent := hadv.sent cqlOpcodeOptions
        have hread' := hadv.calls .readStart
        have hclose' := hadv.calls .close
        simp only [reduceCtorEq, false_and, if_false, Nat.add_zero] at hsent
        rw [List.count_singleton_self] at hread'
        rw [List.count_eq_zero_of_not_mem (by simp)] at hclose'
        refine ⟨hsent.trans hopt, by omega, ?_⟩
        by_contra hpos
        exact hbegins (he.2 (by omega))
      | handshakeDone =>
        obtain ⟨-, -, hadv⟩ := hinv.of_advances hc he rfl
        cases hadv.state.symm.trans hstate
      | _ => cases hbegins
    · have hbetween := perform_between hinv hc he hbegins
      obtain ⟨hstate', hclose⟩ := hbetween.connected hstate
      obtain ⟨hsent, hread, hopen⟩ := ih hstate'
      refine ⟨hbetween.sent.trans hsent, ?_, hclose.trans hopen⟩
      rw [hbetween.read]
      exact hread

/-- The actions are those of the connection. -/
theorem path_conn {ssl : Bool} (h : (system ssl).Path s as s') {c' : Connection}
    (h' : Connection.system.Path s.conn as c') : s'.conn = c' := by
  induction h with
  | nil s =>
    cases h'
    rfl
  | @cons s s₁ s' a as hs hpath ih =>
    obtain ⟨-, -, rfl⟩ := hs
    rcases h' with _ | ⟨hs', h'⟩
    refine ih ?_
    have hperform : (s.perform a).conn = _ := congrArg Prod.fst hs'
    rw [hperform]
    exact h'

/-! ## How far the handshake got -/

/-- The message takes the handshake further than to its start. -/
def Furthers (m : Message) : Prop := m.opcode = cqlOpcodeSupported ∨ m.opcode = cqlOpcodeReady

/-- The handshake has got no further than to its start, or the server has said more. -/
def Far (s : Attempt) : Prop :=
  s.furthest ≤ ClientConnectionState.handshake.index ∨ ∃ m ∈ s.conn.responses, Furthers m

theorem nextState_progress (a : Action) (state : ClientConnectionState) :
    (a.nextState state).progress ≤ max state.progress ClientConnectionState.handshake.index ∨
      ∃ m, a = .dispatch m ∧ Furthers m := by
  cases a with
  | onResolve status | onConnect status =>
    left
    simp only [Action.nextState]
    split
    · exact le_max_left _ _
    · exact le_max_of_le_right (by decide)
  | dispatch m =>
    by_cases hsup : m.opcode = cqlOpcodeSupported
    · exact .inr ⟨m, rfl, .inl hsup⟩
    by_cases hready : m.opcode = cqlOpcodeReady
    · exact .inr ⟨m, rfl, .inr hready⟩
    left
    simp only [Action.nextState, if_neg hsup, if_neg hready]
    exact le_max_left _ _
  | onClose | readError | close => exact .inl (Nat.zero_le _)
  | handshakeDone => exact .inl (le_max_right _ _)
  | _ => exact .inl (le_max_left _ _)

theorem perform_far (hreach : (system true).Reachable s) {c' : Connection}
    (h : Connection.perform a s.conn = (c', none)) (hfar : s.Far) : (s.perform a).Far := by
  have hconn : (s.perform a).conn = c' := congrArg Prod.fst h
  have hfurthest : (s.perform a).furthest = max s.furthest c'.state.progress := by
    rw [← hconn]
    rfl
  have hstate := (perform_state h).state (ssl_of_reachable hreach)
  have hcurrent := (inv_of_reachable hreach).current
  have hresponses : s.conn.responses <+: c'.responses := by
    by_cases hd : ∃ m, a = .dispatch m
    · obtain ⟨m, rfl⟩ := hd
      rw [(dispatch_effect h).responses]
      exact List.prefix_append _ _
    · rw [(perform_effect (fun m hm => hd ⟨m, hm⟩) h).responses]
  rcases hfar with hle | ⟨m, hm, hop⟩
  · rcases nextState_progress a s.conn.state with hnext | ⟨m, rfl, hop⟩
    · left
      rw [hfurthest, hstate]
      exact max_le hle (hnext.trans (max_le (hcurrent.trans hle) le_rfl))
    · refine .inr ⟨m, ?_, hop⟩
      rw [hconn, (dispatch_effect h).responses]
      exact List.mem_append_right _ (List.mem_singleton_self m)
  · exact .inr ⟨m, hconn ▸ hresponses.subset hm, hop⟩

theorem path_far (hreach : (system true).Reachable s) (h : (system true).Path s as s')
    {c' : Connection} (h' : Connection.system.Path s.conn as c') (hfar : s.Far) : s'.Far := by
  induction h with
  | nil s => exact hfar
  | @cons s s₁ s' a as hs hpath ih =>
    have hs₁ := hs
    obtain ⟨-, -, rfl⟩ := hs₁
    rcases h' with _ | ⟨hs', h'⟩
    rename_i c₁
    have hperform : (s.perform a).conn = c₁ := congrArg Prod.fst hs'
    rw [← hperform] at h'
    exact ih (hreach.step hs) h' (perform_far hreach hs' hfar)

end Attempt

/-! ## The stream of OPTIONS -/

namespace Connection
variable {c c' : Connection}

/-- A response other than SUPPORTED takes no stream. -/
theorem dispatch_hasStream {message : Message} (hinv : c.Inv) (hssl : c.ssl = true)
    (hop : message.opcode ≠ cqlOpcodeSupported) (h : handlers.dispatch message c = (c', none))
    (hfree : c.HasStream) : c'.HasStream := by
  have hwrites := dispatch_writes hssl hop h
  unfold HasStream
  rcases dispatch_effect h with ⟨-, hown⟩ | ⟨-, -, heq⟩ | ⟨-, i, halloc, -, heq⟩
  · rcases hown with hsame | ⟨f, -, hsends⟩
    · rw [hsame]
      exact hfree
    · rw [hsends.eq] at hwrites
      simp at hwrites
  · rw [heq]
    exact hfree
  · obtain ⟨-, -, hindex, -⟩ := StreamStorage.getStream_release hinv.streams (by decide) halloc
    unfold HasStream at hfree
    rw [heq]
    simp only
    omega

/-- Nor does anything else in a round, up to its end. -/
theorem path_hasStream {as : List Action} (hreach : system.Reachable c) (hssl : c.ssl = true)
    (h : system.Path c as c') (hquiet : ∀ a ∈ as,
      (∃ m : Message, a = .dispatch m ∧ m.opcode ≠ cqlOpcodeSupported) ∨
        (∃ bytes, a = .sendOutput bytes) ∨ ∃ left, a = .reading left)
    (hfree : c.HasStream) : c'.HasStream := by
  induction h with
  | nil c => exact hfree
  | @cons c c₁ c' a as hs hpath ih =>
    have hssl₁ := (perform_state hs).ssl.trans hssl
    refine ih (hreach.step hs) hssl₁ (fun b hb => hquiet b (List.mem_cons_of_mem a hb)) ?_
    rcases hquiet a List.mem_cons_self with ⟨m, rfl, hop⟩ | ⟨bytes, rfl⟩ | ⟨left, rfl⟩
    · exact dispatch_hasStream (inv_of_reachable hreach) hssl hop hs hfree
    · cases hs
      exact hfree
    · cases hs
      exact hfree

end Connection

/-! ## A client on its event loop -/

/-- A round that leaves some input while the handshake is done, by what `read_write` and
    `handshake_done` return. -/
def Client.seesDone {σ : Type} (api : OpenSsl σ) (c : Client σ) : Client.Event → Bool
  | .round => c.conn.reading.any fun input =>
    let (session, out, _) := api.readWrite input [] c.session
    decide (out.readSize < input.length) && api.isInitFinished session
  | _ => false

/-- A client with the callbacks that libuv has made, and whether an earlier round has seen
    the end of the handshake. -/
structure TlsClient (σ : Type) where
  client : Client σ
  attempt : Attempt
  seen : Bool := false

namespace TlsClient
variable {σ : Type} (api : OpenSsl σ)

/-- The runs of a client with SSL, in which libuv makes the callbacks it was asked for,
    and reads until it is closed. -/
def system : System (TlsClient σ) Client.Event where
  init x := (Client.system api true).init x.client ∧ x.attempt = { conn := x.client.conn } ∧
    x.seen = false
  step x e x' := Client.step api x.client e x'.client ∧
    (∀ bytes, e = .read bytes → x.attempt.Reading) ∧
    (Attempt.system true).Path x.attempt (Client.actions api x.client e) x'.attempt ∧
    x'.seen = (x.seen || x.client.seesDone api e)

/-- The end of the handshake has been noticed, and only once. -/
structure Noticed (x : TlsClient σ) : Prop where
  /-- after an `on_read` with the handshake done the connection has left CONNECTED -/
  left : x.client.conn.reading = none → x.client.conn.state = .connected →
    api.isInitFinished x.client.session = false
  once : x.client.conn.sent cqlOpcodeOptions ≤ 1
  /-- and has sent OPTIONS, unless it is closing -/
  sent : x.client.conn.reading = none → x.attempt.Reading →
    api.isInitFinished x.client.session = true → x.client.conn.sent cqlOpcodeOptions = 1
  /-- it does not go back to HANDSHAKE -/
  forward : x.client.conn.state = .handshake →
    x.attempt.furthest ≤ ClientConnectionState.handshake.index

/-- A round that leaves input while the handshake is done is the first such round, has a
    stream, and comes before SUPPORTED and READY, also in the bytes it passes on.  A round
    that leaves nothing while the handshake is done comes after such a one, or when the
    connection is closing. -/
def Timely (x : TlsClient σ) : Client.Event → Prop
  | .round => ∀ input, x.client.conn.reading = some input →
    api.isInitFinished (api.readWrite input [] x.client.session).1 = true →
    ((api.readWrite input [] x.client.session).2.1.readSize < input.length →
      x.seen = false ∧ x.client.conn.HasStream ∧
      ∀ m ∈ x.client.conn.responses ++ x.client.dispatched (Client.decrypted api input x.client),
        ¬ Attempt.Furthers m) ∧
    (input.length ≤ (api.readWrite input [] x.client.session).2.1.readSize →
      x.attempt.Reading → x.seen = true)
  | _ => True

/-- What the rounds that have seen the end of the handshake have done. -/
structure Inv (x : TlsClient σ) : Prop where
  sent : x.client.conn.sent cqlOpcodeOptions = x.seen.toNat
  far : x.attempt.Far
  done : x.client.conn.reading = none → x.attempt.Reading →
    api.isInitFinished x.client.session = true → x.seen = true
  forward : x.client.conn.state = .handshake →
    x.attempt.furthest ≤ ClientConnectionState.handshake.index

variable {api} {x x' : TlsClient σ} {e : Client.Event}

/-- The two halves are about one connection. -/
theorem reachable_attempt (h : (system api).Reachable x) :
    (Attempt.system true).Reachable x.attempt ∧ x.attempt.conn = x.client.conn := by
  induction h with
  | init h =>
    obtain ⟨⟨heap, nullString, prepareCallback, session, hclient⟩, hattempt, -⟩ := h
    refine ⟨.init ⟨heap, nullString, prepareCallback, ?_⟩, ?_⟩
    · rw [hattempt, hclient]
    · rw [hattempt]
  | step _ hs ih =>
    obtain ⟨hstep, -, hpath, -⟩ := hs
    have hconn := Client.step_path hstep
    rw [← ih.2] at hconn
    exact ⟨ih.1.path hpath, Attempt.path_conn hpath hconn⟩

/-- Without the callbacks it is a run of the client. -/
theorem reachable_client (h : (system api).Reachable x) :
    (Client.system api true).Reachable x.client := by
  induction h with
  | init h => exact .init h.1
  | step _ hs ih => exact ih.step hs.1

/-- `ssl_handshake_done_` is never set. -/
theorem sslHandshakeDone_of_reachable (h : (system api).Reachable x) :
    x.client.conn.sslHandshakeDone = false := by
  induction h with
  | init h =>
    obtain ⟨⟨heap, nullString, prepareCallback, session, hclient⟩, -⟩ := h
    rw [hclient]
    rfl
  | step _ hs ih => exact (Client.sameSsl_of_path (Client.step_path hs.1)).2.trans ih

theorem onConnect_reading {status : ℤ} (hs : status ≠ -1) {c : Connection} (hssl : c.ssl = true) :
    (perform (.onConnect status) c).1.reading = some [] := by
  have heq : perform (.onConnect status) c =
      if c.ssl then ({ c.emit .readStart with state := .connected, reading := some [] }, none)
      else sendOptions { c.emit .readStart with state := .handshake } := by
    rw [perform, onConnect, if_neg hs]
    rfl
  rw [heq, if_pos hssl]

/-- A callback other than a connect leaves `on_read` where it is. -/
theorem perform_reading {a : Action} (hcallback : a.isCallback = true) (hne : ¬ Attempt.Begins a)
    {c : Connection} (hnew : ∀ connect keyspace, a = .init connect keyspace → c.state = .new) :
    (perform a c).1.reading = c.reading := by
  cases a with
  | init connect keyspace =>
    have hstate := hnew connect keyspace rfl
    simp only [perform, init, eventReceived, eventReceivedWith, hstate]
    rfl
  | onResolve status =>
    rw [perform, onResolve]
    split <;> rfl
  | onConnect status =>
    rw [perform, onConnect, if_pos (not_not.1 hne)]
  | exec | prepare => exact request_reading rfl _
  | setKeyspace keyspace => exact sendOwn_reading _ _ _
  | onClose | onWrite | readError | close => rfl
  | _ => cases hcallback

/-- The session and the place in `on_read` are the same. -/
theorem Inv.of_between (h : x.Inv api) (hconn : x.attempt.conn = x.client.conn)
    (hconn' : x'.attempt.conn = x'.client.conn) (hb : x.attempt.Between x'.attempt)
    (hfar : x'.attempt.Far) (hseen : x'.seen = x.seen)
    (hdone : x'.client.conn.reading = none → x'.attempt.Reading →
      api.isInitFinished x'.client.session = true → x.seen = true) : x'.Inv api where
  sent := by
    rw [← hconn', hb.sent, hconn, hseen]
    exact h.sent
  far := hfar
  done hnone hread hfinished := hseen.trans (hdone hnone hread hfinished)
  forward hstate := by
    rw [← hconn'] at hstate
    obtain ⟨hstate', hfurthest⟩ := hb.handshake hstate
    rw [hfurthest]
    rw [hconn] at hstate'
    exact h.forward hstate'

/-- Between, libuv was reading before if it is now. -/
theorem reading_of_between {s s' : Attempt} (hb : s.Between s') (h : s'.Reading) :
    s.Reading := by
  refine ⟨?_, Nat.eq_zero_of_le_zero (hb.close.trans h.2.le)⟩
  rw [← hb.read]
  exact h.1

/-- A callback. -/
theorem Inv.callback {a : Action} (hreach : (system api).Reachable x) (h : x.Inv api)
    (hs : (system api).step x (.callback a) x') : x'.Inv api := by
  obtain ⟨hattempt, hconn⟩ := reachable_attempt hreach
  obtain ⟨-, hconn'⟩ := reachable_attempt (hreach.step hs)
  obtain ⟨⟨⟨hcallback, -⟩, conn, hperform, hclient⟩, -, hpath, hseen⟩ := hs
  replace hseen : x'.seen = x.seen := hseen.trans (Bool.or_false _)
  have hcpath : Connection.system.Path x.attempt.conn [a] conn := by
    rw [hconn]
    exact .single hperform
  have hfar := Attempt.path_far hattempt hpath hcpath h.far
  rcases hpath with _ | ⟨hs, hnil⟩
  cases hnil
  obtain ⟨hc, he, heq⟩ := hs
  have hinv := Attempt.inv_of_reachable hattempt
  have hsession : x'.client.session = x.client.session := by
    rw [hclient]
  have hreading : x'.client.conn.reading = (perform a x.client.conn).1.reading := by
    rw [hclient, hperform]
  by_cases hbegins : Attempt.Begins a
  · cases a with
    | onConnect status =>
      have hssl := Attempt.ssl_of_reachable hattempt
      obtain ⟨-, -, hadv⟩ := hinv.of_advances hc he ((if_neg hbegins).trans (if_pos hssl))
      rw [← heq, hconn', hconn] at hadv
      rw [onConnect_reading hbegins (hconn ▸ hssl)] at hreading
      refine ⟨?_, hfar, ?_, ?_⟩
      · rw [hadv.sent, hseen]
        exact h.sent
      · intro hnone
        rw [hreading] at hnone
        cases hnone
      · intro hstate
        cases hadv.state.symm.trans hstate
    | handshakeDone => cases hcallback
    | _ => cases hbegins
  · have hb := Attempt.perform_between hinv hc he hbegins
    rw [← heq] at hb
    refine h.of_between hconn hconn' hb hfar hseen fun hnone hread hdone => ?_
    rw [hreading, perform_reading hcallback hbegins] at hnone
    · rw [hsession] at hdone
      exact h.done hnone (reading_of_between hb hread) hdone
    · rintro connect keyspace rfl
      rw [← hconn]
      exact hinv.state_of_init he

/-- The bytes of an `on_read`. -/
theorem Inv.read {bytes : List UInt8} (hreach : (system api).Reachable x) (h : x.Inv api)
    (hs : (system api).step x (.read bytes) x') : x'.Inv api := by
  obtain ⟨hattempt, hconn⟩ := reachable_attempt hreach
  obtain ⟨-, hconn'⟩ := reachable_attempt (hreach.step hs)
  obtain ⟨hstep, -, hpath, hseen⟩ := hs
  replace hseen : x'.seen = x.seen := hseen.trans (Bool.or_false _)
  have hfar := Attempt.path_far hattempt hpath (hconn ▸ Client.step_path hstep) h.far
  obtain ⟨-, hclient⟩ := hstep
  have hssl : x.client.conn.ssl = true := by
    rw [← hconn]
    exact Attempt.ssl_of_reachable hattempt
  rw [Client.onRead, if_pos hssl] at hclient
  simp only [Prod.mk.injEq, and_true] at hclient
  simp only [Client.actions, if_pos hssl] at hpath
  have hb := Attempt.path_between hattempt hpath (by simp [Attempt.Begins])
  refine h.of_between hconn hconn' hb hfar hseen fun hnone => ?_
  rw [← hclient] at hnone
  cases hnone

/-- The actions of a round, up to its end. -/
theorem roundActions_quiet {input : List UInt8} {c : Client σ} {a : Action}
    (h : a ∈ (c.dispatched (Client.decrypted api input c)).map Action.dispatch ++
      Client.outputActions (api.readWrite input [] c.session).2.1 ++
      [.reading (if (api.readWrite input [] c.session).2.1.readSize < input.length then
        some (input.drop (api.readWrite input [] c.session).2.1.readSize) else none)]) :
    (∃ m ∈ c.dispatched (Client.decrypted api input c), a = .dispatch m) ∨
      (∃ bytes, a = .sendOutput bytes) ∨ ∃ left, a = .reading left := by
  rw [List.mem_append, List.mem_append] at h
  rcases h with (h | h) | h
  · obtain ⟨m, hm, rfl⟩ := List.mem_map.1 h
    exact .inl ⟨m, hm, rfl⟩
  · obtain ⟨size, bytes, -, -, rfl⟩ := Client.mem_outputActions.1 h
    exact .inr (.inl ⟨_, rfl⟩)
  · exact .inr (.inr ⟨_, List.mem_singleton.1 h⟩)

/-- The end of the handshake is seen for the first time, after actions that change little:
    there is a stream for OPTIONS, and nothing had come from the server. -/
theorem Inv.notices {s₁ : Attempt} (h : x.Inv api) (hconn : x.attempt.conn = x.client.conn)
    (hconn' : x'.attempt.conn = x'.client.conn) (hreach₁ : (Attempt.system true).Reachable s₁)
    (hb : x.attempt.Between s₁) (hfurthest : s₁.furthest = x.attempt.furthest)
    (hfree : s₁.conn.HasStream) (hs : (Attempt.system true).step s₁ .handshakeDone x'.attempt)
    (hnot : x.seen = false) (hmessages : ∀ m ∈ x.client.conn.responses, ¬ Attempt.Furthers m)
    (hfar : x'.attempt.Far) (hseen : x'.seen = true)
    (hreading : ∃ left, x'.client.conn.reading = some left) : x'.Inv api := by
  obtain ⟨hc, he, heq⟩ := hs
  obtain ⟨-, -, hadv⟩ := (Attempt.inv_of_reachable hreach₁).of_advances hc he rfl
  have hsent := hadv.sent cqlOpcodeOptions
  rw [← heq, hconn', hb.sent, hconn, h.sent, hnot, if_pos ⟨rfl, hfree⟩] at hsent
  refine ⟨?_, hfar, fun hnone => ?_, fun _ => ?_⟩
  · rw [hsent, hseen]
    rfl
  · obtain ⟨left, hleft⟩ := hreading
    rw [hleft] at hnone
    cases hnone
  · have hfurthest' : x'.attempt.furthest = max s₁.furthest 3 := by
      rw [heq]
      exact congrArg (max s₁.furthest ·.progress) hadv.state
    rcases h.far with hle | ⟨m, hm, hop⟩
    · rw [hfurthest', hfurthest]
      exact max_le hle le_rfl
    · rw [hconn] at hm
      exact absurd hop (hmessages m hm)

/-- **A round.** -/
theorem Inv.round (hreach : (system api).Reachable x) (h : x.Inv api)
    (hg : Timely api x .round) (hs : (system api).step x .round x') : x'.Inv api := by
  obtain ⟨hattempt, hconn⟩ := reachable_attempt hreach
  obtain ⟨-, hconn'⟩ := reachable_attempt (hreach.step hs)
  obtain ⟨hstep, -, hpath, hseen⟩ := hs
  have hcpath := Client.step_path hstep
  have hfar := Attempt.path_far hattempt hpath (hconn ▸ hcpath) h.far
  obtain ⟨input, hreading, hround⟩ := hstep
  have hg := hg input hreading
  obtain ⟨hsession, hnext⟩ := Client.sslRound_spec hround
  rw [Client.seesDone, hreading, Option.any_some] at hseen
  simp only at hseen
  simp only [Client.actions, hreading, Client.roundActions] at hpath hcpath
  obtain ⟨s₁, hpath₁, hpath₂⟩ := hpath.of_append
  obtain ⟨c₁, hcpath₁, -⟩ := hcpath.of_append
  have hb := Attempt.path_between hattempt hpath₁ fun a ha => by
    rcases roundActions_quiet ha with ⟨m, -, rfl⟩ | ⟨bytes, rfl⟩ | ⟨left, rfl⟩ <;> exact id
  by_cases hsees : Client.HandshakeSeen api input x.client
  · rw [if_pos hsees] at hpath₂
    obtain ⟨hlt, -, hdone⟩ := hsees
    rw [if_pos hlt] at hnext
    obtain ⟨hnot, hfree, hmessages⟩ := (hg hdone).1 hlt
    have hfurthest := Attempt.path_furthest hattempt hpath₁ fun a ha conn => by
      rcases roundActions_quiet ha with ⟨m, hm, rfl⟩ | ⟨bytes, rfl⟩ | ⟨left, rfl⟩
      · have hm := hmessages m (List.mem_append_right _ hm)
        rw [Action.advance, Message.advance, if_neg fun h => hm (.inl h),
          if_neg fun h => hm (.inr h), ite_self]
      · rfl
      · rfl
    have hfree₁ : c₁.HasStream := by
      refine path_hasStream (Client.conn_reachable (reachable_client hreach)).1
        (Client.conn_reachable (reachable_client hreach)).2 hcpath₁ (fun a ha => ?_) hfree
      rcases roundActions_quiet ha with ⟨m, hm, rfl⟩ | hout | hleft
      · exact .inl ⟨m, rfl, fun h => hmessages m (List.mem_append_right _ hm) (.inl h)⟩
      · exact .inr (.inl hout)
      · exact .inr (.inr hleft)
    rw [← hconn] at hcpath₁
    rw [← Attempt.path_conn hpath₁ hcpath₁] at hfree₁
    rcases hpath₂ with _ | ⟨hs, hnil⟩
    cases hnil
    refine h.notices hconn hconn' (hattempt.path hpath₁) hb hfurthest hfree₁ hs hnot
      (fun m hm => hmessages m (List.mem_append_left _ hm)) hfar ?_ ⟨_, hnext⟩
    rw [hseen, hnot, hdone, decide_eq_true hlt]
    rfl
  · rw [if_neg hsees] at hpath₂
    cases hpath₂
    have hnot : ((decide ((api.readWrite input [] x.client.session).2.1.readSize < input.length) &&
        api.isInitFinished (api.readWrite input [] x.client.session).1) = false) := by
      rw [Bool.and_eq_false_iff, decide_eq_false_iff_not, ← Bool.not_eq_true]
      by_contra hboth
      rw [not_or, not_not, not_not] at hboth
      exact hsees ⟨hboth.1, sslHandshakeDone_of_reachable hreach, hboth.2⟩
    rw [hnot, Bool.or_false] at hseen
    refine h.of_between hconn hconn' hb hfar hseen fun hnone hread hdone => ?_
    -- the loop is over, so that all of the input was accepted
    rw [hsession] at hdone
    refine (hg hdone).2 ?_ (reading_of_between hb hread)
    by_contra hlt
    rw [if_pos (Nat.not_le.1 hlt), hnone] at hnext
    cases hnext

theorem inv_of_reachable (h : ((system api).restrict (Timely api)).Reachable x) :
    x.Inv api := by
  induction h with
  | init h =>
    obtain ⟨⟨heap, nullString, prepareCallback, session, hclient⟩, hattempt, hseen⟩ := h
    rename_i x
    obtain ⟨client, attempt, seen⟩ := x
    simp only at hclient hattempt hseen
    subst hclient hattempt hseen
    exact ⟨rfl, .inl (Nat.zero_le _), fun _ hread => absurd hread.1 (Nat.lt_irrefl 0), nofun⟩
  | @step x x' e hreach hs ih =>
    obtain ⟨hg, hs⟩ := hs
    cases e with
    | callback a => exact ih.callback hreach.of_restrict hs
    | read bytes => exact ih.read hreach.of_restrict hs
    | round => exact ih.round hreach.of_restrict hg hs

/-- **In a run whose rounds are all timely the end of the handshake is noticed, once.** -/
theorem noticed_of_reachable (h : ((system api).restrict (Timely api)).Reachable x) :
    x.Noticed api := by
  have hinv := inv_of_reachable h
  obtain ⟨hattempt, hconn⟩ := reachable_attempt h.of_restrict
  refine ⟨fun hnone hstate => ?_, ?_, fun hnone hread hdone => ?_, hinv.forward⟩
  · -- a connected connection has not sent OPTIONS
    rw [← hconn] at hstate
    obtain ⟨hzero, hread⟩ := Attempt.connected_of_reachable hattempt hstate
    by_contra hdone
    have hseen := hinv.done hnone hread (Bool.eq_true_of_not_eq_false hdone)
    have hsent := hinv.sent
    rw [hseen, ← hconn, hzero] at hsent
    cases hsent
  · rw [hinv.sent]
    exact Bool.toNat_le x.seen
  · rw [hinv.sent, hinv.done hnone hread hdone]
    rfl

/-! ## A session that takes one byte at a time -/

/-- The handshake is done with the first byte. -/
def oneByte : OpenSsl ℕ where
  pending _ _ := 0
  writeGuarantee _ := 1
  read _ _ s := (s, [], 0)
  write
    | .network, input, s => (s + input.length, input.length)
    | .ssl, input, s => (s, input.length)
  getError _ _ := sslErrorNone
  errorString _ := []
  isInitFinished s := 0 < s

theorem oneByte_decrypted (input : List UInt8) (c : Client ℕ) :
    Client.decrypted oneByte input c = [] := by
  rcases input with _ | ⟨b, input⟩ <;> rfl

/-- The state after an event. -/
def after (x : TlsClient ℕ) (e : Client.Event) : TlsClient ℕ where
  client :=
    match e with
    | .callback a => { x.client with conn := (perform a x.client.conn).1 }
    | .read bytes => (x.client.onRead bytes).1
    | .round => (x.client.sslRound oneByte (x.client.conn.reading.getD [])).1
  attempt := (Client.actions oneByte x.client e).foldl Attempt.perform x.attempt
  seen := x.seen || x.client.seesDone oneByte e

def fresh : TlsClient ℕ where
  client := ⟨Connection.new (fun _ => 0) .throws true false, Message.new fun _ => 0, 0⟩
  attempt := { conn := Connection.new (fun _ => 0) .throws true false }

/-- A connection after `init`, `on_resolve` and `on_connect`. -/
def connectedConn : Connection :=
  { Connection.new (fun _ => 0) .throws true false with
    state := .connected
    connectCallback := true
    keyspaceCallback := true
    out := [.getaddrinfo, .tcpConnect, .readStart] }

/-- The `on_read` of `ssl_handshake` has returned. -/
def shaking : TlsClient ℕ where
  client := ⟨connectedConn, Message.new fun _ => 0, 0⟩
  attempt :=
    { conn := connectedConn
      initialised := true
      resolved := 1
      connected := 1
      furthest := 2 }

theorem reachable_callback {x : TlsClient ℕ}
    (h : ((system oneByte).restrict (Timely oneByte)).Reachable x)
    (a : Action) (hcallback : x.client.Callback a) (hcrash : (perform a x.client.conn).2 = none)
    (hc : x.attempt.crash = none) (he : x.attempt.Enabled a) :
    ((system oneByte).restrict (Timely oneByte)).Reachable (x.after (.callback a)) :=
  h.step (a := .callback a)
    ⟨trivial, ⟨hcallback, _, Prod.ext rfl hcrash, rfl⟩, nofun, .single ⟨hc, he, rfl⟩, rfl⟩

theorem shaking_reachable : ((system oneByte).restrict (Timely oneByte)).Reachable shaking := by
  have h₀ : ((system oneByte).restrict (Timely oneByte)).Reachable fresh :=
    .init ⟨⟨_, _, _, _, rfl⟩, rfl, rfl⟩
  have h₁ := reachable_callback h₀ (.init true true) ⟨rfl, .inl rfl⟩ rfl rfl rfl
  have h₂ := reachable_callback h₁ (.onResolve 0) ⟨rfl, .inl rfl⟩ rfl rfl Nat.zero_lt_one
  have h₃ := reachable_callback h₂ (.onConnect 0) ⟨rfl, .inl rfl⟩ rfl rfl ⟨Nat.zero_lt_one, nofun⟩
  refine h₃.step (a := .round)
    ⟨?_, ⟨[], rfl, rfl⟩, nofun, .single ⟨rfl, ⟨rfl, Nat.zero_lt_one⟩, rfl⟩, rfl⟩
  rintro input hinput hdone
  cases hinput
  cases hdone

/-- A read of two bytes, of which the first ends the handshake. -/
def noticing : TlsClient ℕ := (shaking.after (.read [0x16, 0x03])).after .round

theorem noticing_reachable : ((system oneByte).restrict (Timely oneByte)).Reachable noticing := by
  have h₁ : ((system oneByte).restrict (Timely oneByte)).Reachable
      (shaking.after (.read [0x16, 0x03])) :=
    shaking_reachable.step (a := .read [0x16, 0x03]) ⟨trivial, ⟨rfl, rfl⟩,
      fun _ _ => ⟨Nat.zero_lt_one, rfl⟩, .single ⟨rfl, ⟨rfl, Nat.zero_lt_one⟩, rfl⟩, rfl⟩
  refine h₁.step (a := .round) ⟨?_, ⟨[0x16, 0x03], rfl, rfl⟩, nofun,
    .cons ⟨rfl, ⟨rfl, Nat.zero_lt_one⟩, rfl⟩ (.single ⟨rfl, ⟨rfl, Nat.zero_lt_one⟩, rfl⟩), rfl⟩
  rintro input hinput -
  cases hinput
  refine ⟨fun _ => ⟨rfl, by decide, ?_⟩, fun hle => absurd hle (by decide)⟩
  rw [oneByte_decrypted, Client.dispatched_nil]
  exact fun m hm => absurd hm List.not_mem_nil

/-- The `on_read` has returned. -/
def told : TlsClient ℕ := noticing.after .round

theorem told_reachable : ((system oneByte).restrict (Timely oneByte)).Reachable told := by
  refine noticing_reachable.step (a := .round) ⟨?_, ⟨[0x03], rfl, rfl⟩, nofun,
    .single ⟨rfl, ⟨rfl, Nat.zero_lt_one⟩, rfl⟩, rfl⟩
  rintro input hinput -
  cases hinput
  exact ⟨fun hlt => absurd hlt (by decide), fun _ _ => rfl⟩

theorem noticed_told : told.Noticed oneByte := noticed_of_reachable told_reachable

/-- After a read of the one byte that ends the handshake the connection is still
    CONNECTED.  When the next read after the handshake leaves input OPTIONS is sent again. -/
theorem not_noticed :
    ((system oneByte).Reachable ((shaking.after (.read [0x16])).after .round) ∧
      ¬ Noticed oneByte ((shaking.after (.read [0x16])).after .round)) ∧
    ((system oneByte).Reachable ((told.after (.read [0x17, 0x03])).after .round) ∧
      ¬ Noticed oneByte ((told.after (.read [0x17, 0x03])).after .round)) := by
  have h₁ : (system oneByte).Reachable (shaking.after (.read [0x16])) :=
    shaking_reachable.of_restrict.step (a := .read [0x16]) ⟨⟨rfl, rfl⟩,
      fun _ _ => ⟨Nat.zero_lt_one, rfl⟩, .single ⟨rfl, ⟨rfl, Nat.zero_lt_one⟩, rfl⟩, rfl⟩
  have h₂ : (system oneByte).Reachable (told.after (.read [0x17, 0x03])) :=
    told_reachable.of_restrict.step (a := .read [0x17, 0x03]) ⟨⟨rfl, rfl⟩,
      fun _ _ => ⟨Nat.zero_lt_one, rfl⟩, .single ⟨rfl, ⟨rfl, Nat.zero_lt_one⟩, rfl⟩, rfl⟩
  constructor
  · constructor
    · exact h₁.step (a := .round) ⟨⟨[0x16], rfl, rfl⟩, nofun,
        .single ⟨rfl, ⟨rfl, Nat.zero_lt_one⟩, rfl⟩, rfl⟩
    · intro h
      cases h.left rfl rfl
  · constructor
    · exact h₂.step (a := .round) ⟨⟨[0x17, 0x03], rfl, rfl⟩, nofun,
        .cons ⟨rfl, ⟨rfl, Nat.zero_lt_one⟩, rfl⟩ (.single ⟨rfl, ⟨rfl, Nat.zero_lt_one⟩, rfl⟩), rfl⟩
    · intro h
      exact absurd h.once (by decide)

end TlsClient

end CqlClient
