/-
  CqlClient formalization — a client and its server, with SSL or without.

  Without SSL `on_read` gives what the network delivers to the read loop.  With SSL
  it gives it to OpenSSL, piece by piece, and to the read loop what each piece makes
  OpenSSL pass on: some of the bytes at once, more of them at the next piece, or none
  and an error that is ignored.  OpenSSL is any (`OpenSsl`); what a run asks of it is
  that the bytes it passes on are the next ones of those the server wrote.

  Such a client is a connection at its socket (`refines_socket`), so that what is
  known of one holds of the other.
-/
import CqlClient.Socket
import CqlClient.TlsPipe

namespace CqlClient

variable {σ : Type}

/-- A client and what its server wrote. -/
structure Link (σ : Type) where
  client : Client σ
  /-- which frame the server answered, and with which, in order -/
  written : List (ℕ × Frame)
  /-- the bytes of what was written that the read loop was given -/
  passed : ℕ

inductive LinkAction where
  /-- a step of the client -/
  | event (e : Client.Event)
  /-- the server answers the frame at position `k` -/
  | answer (k : ℕ) (f : Frame)

/-- The bytes that a step gives to the read loop. -/
def Client.passes (api : OpenSsl σ) (c : Client σ) : Client.Event → List UInt8
  | .callback _ => []
  | .read bytes => if c.conn.ssl then [] else bytes
  | .round =>
    match c.conn.reading with
    | some input => Client.decrypted api input c
    | none => []

/-- The read loop between two calls: it has nothing left. -/
def Client.readLoop (c : Client σ) : ReadLoop Connection where
  incomming := c.incomming
  conn := c.conn
  dispatched := c.conn.responses

namespace Link

/-- The connection at its socket. -/
def socket (l : Link σ) : Socket where
  loop := l.client.readLoop
  written := l.written
  delivered := l.passed

/-- The runs of a client with its server. -/
def system (api : OpenSsl σ) (bound : ℕ) : System (Link σ) LinkAction where
  init l := (∃ ssl, (Client.system api ssl).init l.client) ∧ l.written = [] ∧ l.passed = 0
  step l a l' :=
    match a with
    | .event e => Client.step api l.client e l'.client ∧
      (l.client.passes api e).length ≤ bound ∧
      l.client.passes api e <+: l.socket.stream.drop l.passed ∧
      l'.written = l.written ∧ l'.passed = l.passed + (l.client.passes api e).length
    | .answer k f => (∃ g, l.client.conn.Unanswered l.socket.answered k g ∧
        toInt8 f.stream.toNat = g.stream) ∧
      f.size + bound < 2 ^ 31 ∧ l' = { l with written := l.written ++ [(k, f)] }

/-- The read loop is given no bytes that end inside a body. -/
def Whole (api : OpenSsl σ) (l : Link σ) : LinkAction → Prop
  | .event e => Socket.Uncut (l.written.map Prod.snd)
      (l.passed + (l.client.passes api e).length)
  | .answer _ _ => True

end Link

/-! ## The read loop behind other messages -/

namespace ReadLoop
variable {S : Type} {f : List UInt8 → Body → Except Crash (Body × Bool)} {h : Handlers S}

/-- The loop when the messages `ms` were dispatched before. -/
def behind (ms : List Message) (st : ReadLoop S) : ReadLoop S :=
  { st with dispatched := ms ++ st.dispatched }

theorem iterate_behind (ms : List Message) (st : ReadLoop S) :
    (st.behind ms).iterate f h = ((st.iterate f h).1.behind ms, (st.iterate f h).2) := by
  have hwindow : (st.behind ms).window = st.window := rfl
  have hincomming : (st.behind ms).incomming = st.incomming := rfl
  have hconn : (st.behind ms).conn = st.conn := rfl
  rcases hw : st.window with _ | window
  · simp only [iterate, hwindow, hw]
  rcases hc : st.incomming.consume f window with ⟨m, e | c⟩
  · simp only [iterate, hwindow, hw, hincomming, hc]
    rfl
  rcases hr : m.bodyReady with _ | _
  · rw [iterate_waiting hw hc hr, iterate_waiting (hwindow.trans hw) hc hr]
    rfl
  · rw [iterate_ready hw hc hr, iterate_ready (hwindow.trans hw) hc hr, hconn]
    have hdelivered : ∀ conn, (st.behind ms).delivered m conn =
        (st.delivered m conn).behind ms := by
      intro conn
      simp only [delivered, reset, behind, List.append_assoc]
    rcases hd : h.dispatch m st.conn with ⟨conn, e | _⟩
    · simp only [hdelivered]
      rfl
    · simp only [hdelivered]

/-- The messages of a call are its responses. -/
theorem responses_of_delivers {c c' : Connection} {ms : List Message}
    (hd : Delivers Connection.handlers c ms c') : c'.responses = c.responses ++ ms := by
  induction hd with
  | nil => rw [List.append_nil]
  | @cons c c₁ c' m ms hm _ ih =>
    rw [ih, (Connection.dispatch_effect hm).responses, List.append_assoc]
    rfl

end ReadLoop

/-! ## Paths of the socket -/

namespace Socket
variable {bound : ℕ} {s : Socket}

/-- An action that delivers nothing. -/
def Quiet (a : SocketAction) : Prop := ∀ n, a ≠ .read n

theorem Quiet.whole {a : SocketAction} (h : Quiet a) (s : Socket) : Whole s a := by
  cases a with
  | read n => exact absurd rfl (h n)
  | act | answer | round => trivial

/-- The rounds of a call that returns. -/
theorem rounds_path (bound : ℕ) (ms : List Message) (s : Socket) {fuel : ℕ}
    {st st' : ReadLoop Connection}
    (h : st.run Body.consume Connection.handlers fuel = some (st', none)) :
    ∃ as, (system bound).Path { s with loop := st.behind ms } as
      { s with loop := st'.behind ms } ∧ (∀ a ∈ as, Quiet a) ∧ st'.remaining = 0 := by
  induction fuel generalizing st with
  | zero =>
    rw [ReadLoop.run] at h
    split at h
    · rename_i hzero
      cases h
      exact ⟨[], .nil _, List.forall_mem_nil _, hzero⟩
    · cases h
  | succ fuel ih =>
    rw [ReadLoop.run] at h
    split at h
    · rename_i hzero
      cases h
      exact ⟨[], .nil _, List.forall_mem_nil _, hzero⟩
    · rename_i hne
      rcases hit : st.iterate Body.consume Connection.handlers with ⟨st₁, _ | e⟩
      · rw [hit] at h
        obtain ⟨as, hp, hquiet, hzero⟩ := ih h
        refine ⟨.round :: as, .cons ⟨hne, st₁.behind ms, ?_, rfl⟩ hp, ?_, hzero⟩
        · change (st.behind ms).iterate _ _ = _
          rw [ReadLoop.iterate_behind, hit]
        · refine List.forall_mem_cons.2 ⟨?_, hquiet⟩
          intro n hn
          cases hn
      · rw [hit] at h
        cases h

/-- Actions of the connection other than responses. -/
theorem acts_path (bound : ℕ) {c c' : Connection} {as : List Action}
    (h : Connection.system.Path c as c') (hne : ∀ a ∈ as, ∀ message, a ≠ .dispatch message)
    (s : Socket) :
    (system bound).Path { s with loop := { s.loop with conn := c } } (as.map .act)
        { s with loop := { s.loop with conn := c' } } ∧
      c'.responses = c.responses := by
  induction h with
  | nil c => exact ⟨.nil _, rfl⟩
  | @cons c c₁ c' a as hs _ ih =>
    obtain ⟨ha, has⟩ := List.forall_mem_cons.1 hne
    obtain ⟨hp, hresponses⟩ := ih has
    exact ⟨.cons ⟨ha, c₁, hs, rfl⟩ hp,
      hresponses.trans (Connection.perform_effect ha hs).responses⟩

theorem quiet_acts (as : List Action) : ∀ a ∈ as.map SocketAction.act, Quiet a := by
  intro a ha n hn
  obtain ⟨b, -, rfl⟩ := List.mem_map.1 ha
  cases hn

end Socket

/-! ## A step of the client -/

namespace Client
variable {api : OpenSsl σ} {c c' : Client σ}

/-- The read loop has come back, and left the client as it is. -/
structure AtRest (c : Client σ) (st : ReadLoop Connection) : Prop where
  start : st.start [] = c.readLoop
  remaining : st.remaining = 0

theorem AtRest.readLoop (c : Client σ) : AtRest c (c.readLoop.start []) := ⟨rfl, rfl⟩

/-- The connection goes on by itself. -/
theorem AtRest.conn {st : ReadLoop Connection} (h : AtRest c st)
    (hincomming : c'.incomming = c.incomming) (hresponses : c'.conn.responses = c.conn.responses) :
    AtRest c' { st with conn := c'.conn } := by
  obtain ⟨hstart, hremaining⟩ := h
  refine ⟨?_, hremaining⟩
  have hinc := congrArg ReadLoop.incomming hstart
  have hdisp := congrArg ReadLoop.dispatched hstart
  simp only [ReadLoop.start, Client.readLoop] at hinc hdisp ⊢
  rw [hinc, hdisp, hincomming, hresponses]
  rfl

/-- A call of `consume` is rounds of the loop. -/
theorem consume_rounds (bound : ℕ) {input : List UInt8} (h : c.consume input = (c', none))
    (s : Socket) :
    ∃ as st, (Socket.system bound).Path { s with loop := c.readLoop.start input } as
        { s with loop := st } ∧ (∀ a ∈ as, Socket.Quiet a) ∧ AtRest c' st := by
  rcases hrun : (({ incomming := c.incomming, conn := c.conn } :
      ReadLoop Connection).start input).run Body.consume Connection.handlers input.length with
    _ | ⟨st, crash⟩
  · simp only [consume, ReadLoop.consume, hrun, Option.getD_none, Prod.mk.injEq] at h
    cases h.2
  · simp only [consume, ReadLoop.consume, hrun, Option.getD_some, Prod.mk.injEq] at h
    obtain ⟨rfl, rfl⟩ := h
    obtain ⟨as, hp, hquiet, hzero⟩ := Socket.rounds_path bound c.conn.responses s hrun
    obtain ⟨ms, hms, hdel⟩ := ReadLoop.run_delivers hrun
    have hdispatched : st.dispatched = ms := hms
    have hresponses : st.conn.responses = c.conn.responses ++ ms :=
      ReadLoop.responses_of_delivers hdel
    have hbehind : (({ incomming := c.incomming, conn := c.conn } :
        ReadLoop Connection).start input).behind c.conn.responses = c.readLoop.start input := by
      simp only [ReadLoop.behind, ReadLoop.start, readLoop, List.append_nil]
    rw [hbehind] at hp
    refine ⟨as, st.behind c.conn.responses, hp, hquiet, ?_, hzero⟩
    simp only [ReadLoop.start, ReadLoop.behind, readLoop, hdispatched, hresponses]
    rfl

theorem sendOutput_incomming (out : ReadWrite) (c : Client σ) :
    (c.sendOutput out).incomming = c.incomming := by
  unfold sendOutput
  split
  · split
    · rfl
    · rfl
  · rfl

theorem nextInput_incomming {input : List UInt8} {n : ℕ}
    (h : c.nextInput api input n = (c', none)) : c'.incomming = c.incomming := by
  unfold nextInput at h
  split at h
  · simp only at h
    split at h
    · simp only [Prod.mk.injEq] at h
      obtain ⟨rfl, -⟩ := h
      rfl
    · cases h
      rfl
  · cases h
    rfl

/-- What a round does behind `consume`. -/
theorem outputActions_ne (out : ReadWrite) :
    ∀ a ∈ outputActions out, ∀ message, a ≠ .dispatch message := by
  intro a ha message
  unfold outputActions at ha
  split at ha
  · split at ha
    · rw [List.mem_singleton.1 ha]
      simp
    · cases ha
  · cases ha

/-- **A step of a client** is rounds of its read loop, on the bytes that the step gives
    to it, and actions of the connection. -/
theorem step_rounds (bound : ℕ) {e : Event} (h : step api c e c') (s : Socket) :
    ∃ as st, (Socket.system bound).Path { s with loop := c.readLoop.start (c.passes api e) } as
        { s with loop := st } ∧ (∀ a ∈ as, Socket.Quiet a) ∧ AtRest c' st := by
  cases e with
  | callback a =>
    obtain ⟨hcallback, conn, hperform, hc'⟩ := h
    have hne : ∀ b ∈ [a], ∀ message, b ≠ .dispatch message := by
      intro b hb message hm
      rw [List.mem_singleton.1 hb] at hm
      rw [hm] at hcallback
      cases hcallback.1
    obtain ⟨hp, hresponses⟩ := Socket.acts_path bound (.single hperform) hne
      { s with loop := c.readLoop.start [] }
    subst hc'
    simp only [passes]
    exact ⟨_, _, hp, Socket.quiet_acts _, (AtRest.readLoop c).conn rfl hresponses⟩
  | read bytes =>
    obtain ⟨-, h⟩ := h
    unfold onRead at h
    by_cases hssl : c.conn.ssl = true
    · rw [if_pos hssl] at h
      cases h
      have hpath : Connection.system.Path c.conn [.reading (some bytes)]
          { c.conn with reading := some bytes } := .single rfl
      obtain ⟨hp, hresponses⟩ := Socket.acts_path bound hpath (by simp)
        { s with loop := c.readLoop.start [] }
      simp only [passes, if_pos hssl]
      exact ⟨_, _, hp, Socket.quiet_acts _, (AtRest.readLoop c).conn rfl hresponses⟩
    · rw [if_neg hssl] at h
      simp only [passes, if_neg hssl]
      exact consume_rounds bound h s
  | round =>
    obtain ⟨input, hreading, h⟩ := h
    rcases hrw : api.readWrite input [] c.session with ⟨session, out, err⟩
    obtain ⟨c₁, hcons, hnext⟩ := sslRound_inv hrw h
    -- what the round passes on
    obtain ⟨as, st, hp, hquiet, hrest⟩ : ∃ as st,
        (Socket.system bound).Path
          { s with loop := c.readLoop.start (c.passes api .round) } as { s with loop := st } ∧
        (∀ a ∈ as, Socket.Quiet a) ∧ AtRest c₁ st := by
      have hpasses : c.passes api .round = (applicationBytes out).getD [] := by
        simp only [passes, hreading, decrypted, hrw]
      rw [hpasses]
      unfold consumeOutput at hcons
      rcases hb : applicationBytes out with _ | _ | ⟨b, bytes⟩
      · rw [hb] at hcons
        cases hcons
      · rw [hb] at hcons
        cases hcons
        rw [Option.getD_some]
        exact ⟨[], _, .nil _, List.forall_mem_nil _, AtRest.readLoop _⟩
      · rw [hb] at hcons
        exact consume_rounds bound (c := { c with session }) hcons s
    -- what it writes, and what is left of its input
    have hpath := (sendOutput_path out c₁).1.append (nextInput_path hnext)
    obtain ⟨hp', hresponses⟩ := Socket.acts_path bound hpath (by
      intro a ha message
      rcases List.mem_append.1 ha with ha | ha
      · exact outputActions_ne out a ha message
      · simp only [List.singleton_append, List.mem_cons] at ha
        rcases ha with rfl | ha
        · simp
        · split at ha
          · rw [List.mem_singleton.1 ha]
            simp
          · cases ha) { s with loop := st }
    have hincomming := (nextInput_incomming hnext).trans (sendOutput_incomming out c₁)
    have hconn : st.conn = c₁.conn := congrArg ReadLoop.conn hrest.start
    rw [← hconn] at hp'
    refine ⟨_, _, hp.append hp', ?_, hrest.conn hincomming hresponses⟩
    intro a ha
    rcases List.mem_append.1 ha with ha | ha
    · exact hquiet a ha
    · exact Socket.quiet_acts _ a ha

end Client

/-! ## Runs -/

namespace Link
variable {api : OpenSsl σ} {bound : ℕ} {l l' : Link σ}

/-- The read loop is given no more than was written. -/
theorem passed_le (h : (system api bound).Reachable l) : l.passed ≤ l.socket.stream.length := by
  refine h.invariant (I := fun l => l.passed ≤ l.socket.stream.length) ?_ ?_
  · rintro l ⟨-, -, hpassed⟩
    rw [hpassed]
    exact Nat.zero_le _
  · rintro l a l' - ih hstep
    cases a with
    | event e =>
      obtain ⟨-, -, hpre, hwritten, hpassed⟩ := hstep
      have hlen := hpre.length_le
      rw [List.length_drop] at hlen
      rw [hpassed, Socket.stream, show l'.socket.written = l.written from hwritten]
      rw [Socket.stream] at hlen ih
      simp only [socket] at hlen ih
      omega
    | answer k f =>
      obtain ⟨-, -, rfl⟩ := hstep
      simp only [Socket.stream, socket, List.map_append, List.flatMap_append,
        List.length_append] at ih ⊢
      exact ih.trans (Nat.le_add_right _ _)

/-- A step of the client at its socket: the next bytes are read, the read loop takes them,
    and nothing is read behind them. -/
theorem event_path (h : (system api bound).Reachable l) {e : Client.Event}
    (hstep : (system api bound).step l (.event e) l') :
    ∃ s₁ as s₂, (Socket.system bound).step l.socket
        (.read (l.client.passes api e).length) s₁ ∧
      (Socket.system bound).Path s₁ as s₂ ∧ (∀ a ∈ as, Socket.Quiet a) ∧
      (Socket.system bound).step s₂ (.read 0) l'.socket ∧ s₂.written = l.written ∧
      s₂.delivered = l.passed + (l.client.passes api e).length := by
  have hle := passed_le h
  obtain ⟨hclient, hbound, hpre, hwritten, hpassed⟩ := hstep
  have hlen := hpre.length_le
  rw [List.length_drop] at hlen
  have hwithin : l.passed + (l.client.passes api e).length ≤ l.socket.stream.length := by omega
  have hnext : (l.socket.stream.drop l.passed).take (l.client.passes api e).length =
      l.client.passes api e := (List.prefix_iff_eq_take.1 hpre).symm
  obtain ⟨as, st, hp, hquiet, hstart, hremaining⟩ := Client.step_rounds bound hclient
    { l.socket with delivered := l.passed + (l.client.passes api e).length }
  have hread : (Socket.system bound).step l.socket (.read (l.client.passes api e).length)
      { l.socket with
        loop := l.client.readLoop.start (l.client.passes api e)
        delivered := l.passed + (l.client.passes api e).length } := by
    refine ⟨rfl, hbound, hwithin, ?_⟩
    rw [show l.socket.delivered = l.passed from rfl, hnext]
    rfl
  refine ⟨_, as, _, hread, hp, hquiet, ⟨hremaining, Nat.zero_le _, hwithin, ?_⟩, rfl, rfl⟩
  simp only [socket, hwritten, hpassed, List.take_zero, Nat.add_zero, hstart]

/-- **A client is a connection at its socket**, with SSL or without. -/
theorem refines_socket (api : OpenSsl σ) (bound : ℕ) :
    (system api bound).Refines (Socket.system bound) socket where
  init l hinit := by
    obtain ⟨⟨ssl, heap, nullString, prepareCallback, session, hclient⟩, hwritten, hpassed⟩ := hinit
    refine ⟨⟨heap, heap, nullString, ssl, prepareCallback, ?_⟩, hwritten, hpassed⟩
    rw [socket, hclient]
    rfl
  step l a l' h hstep := by
    cases a with
    | event e =>
      obtain ⟨s₁, as, s₂, hread, hp, -, hlast, -, -⟩ := event_path h hstep
      exact ⟨_, .cons hread (hp.append (.single hlast))⟩
    | answer k f =>
      obtain ⟨hanswer, hsize, rfl⟩ := hstep
      exact ⟨[.answer k f], .single ⟨hanswer, hsize, rfl⟩⟩

/-- If the read loop is given no bytes that end inside a body, no buffer at the socket
    does. -/
theorem refines_whole (api : OpenSsl σ) (bound : ℕ) :
    ((system api bound).restrict (Whole api)).Refines
      ((Socket.system bound).restrict Socket.Whole) socket where
  init := (refines_socket api bound).init
  step l a l' h hstep := by
    obtain ⟨hwhole, hstep⟩ := hstep
    cases a with
    | event e =>
      obtain ⟨s₁, as, s₂, hread, hp, hquiet, hlast, hwritten, hdelivered⟩ :=
        event_path h.of_restrict hstep
      have hp' : ((Socket.system bound).restrict Socket.Whole).Path s₁ as s₂ :=
        hp.restrict fun a ha => (hquiet a ha).whole
      have hwhole' : Socket.Whole s₂ (.read 0) := by
        rw [Socket.Whole, hwritten, hdelivered]
        exact hwhole
      exact ⟨.read (l.client.passes api e).length :: (as ++ [.read 0]),
        .cons ⟨hwhole, hread⟩ (hp'.append (.single ⟨hwhole', hlast⟩))⟩
    | answer k f =>
      obtain ⟨hanswer, hsize, rfl⟩ := hstep
      exact ⟨[.answer k f], .single ⟨trivial, hanswer, hsize, rfl⟩⟩

/-- **From end to end, with SSL or without**: what the server says is what the requests
    are told. -/
theorem answers_told (h : ((system api bound).restrict (Whole api)).Reachable l)
    {answers : List Answer} (hspeaks : l.socket.Speaks answers) : l.socket.Told answers := by
  have hs := (refines_whole api bound).reachable h
  refine ⟨?_, Socket.result_iff hs hspeaks, Socket.length_responses hs hspeaks⟩
  intro j a m hja hm
  exact (Socket.message_tells hs hspeaks hja hm).2

/-! ## A query and its answer over SSL -/

/-- An OpenSSL that loses nothing, with room for more than a frame. -/
def roomy : OpenSsl (List UInt8) := { fourBytes with writeGuarantee := fun _ => 66560 }

/-- An established session, with a library that lets `exec` return. -/
def lenient : Client (List UInt8) :=
  { established with conn := Connection.new (fun _ => 0) (.returns []) true false }

/-- The query is sent. -/
def queried : Client (List UInt8) :=
  { lenient with conn := (Connection.perform (.exec queryMessage false) lenient.conn).1 }

/-- The network delivers the answer, and OpenSSL keeps it. -/
def held : Client (List UInt8) :=
  ((queried.onRead Socket.voidFrame.bytes).1.sslRound roomy Socket.voidFrame.bytes).1

/-- The next byte that the network delivers makes OpenSSL pass it on. -/
def heard : Client (List UInt8) := ((held.onRead [0x16]).1.sslRound roomy [0x16]).1

def answered : Link (List UInt8) := ⟨heard, [(0, Socket.voidFrame)], 12⟩

theorem uncut_voidFrame {n : ℕ} (h : n = 0 ∨ n = 12) : Socket.Uncut [Socket.voidFrame] n := by
  intro front f rest hsplit hcut
  rcases front with _ | ⟨f', front⟩
  · obtain ⟨rfl, -⟩ := List.cons.inj hsplit
    rcases h with rfl | rfl
    · exact absurd hcut (by decide)
    · decide
  · simp at hsplit

/-- Nothing is passed on while the read loop is given nothing. -/
theorem step_event_nil {c c' : Client (List UInt8)} {written : List (ℕ × Frame)}
    {e : Client.Event} (h : Client.step roomy c e c') (hnil : c.passes roomy e = [])
    (huncut : Socket.Uncut (written.map Prod.snd) 0) :
    ((system roomy 12).restrict (Whole roomy)).step ⟨c, written, 0⟩ (.event e)
      ⟨c', written, 0⟩ := by
  refine ⟨?_, h, ?_, ?_, rfl, ?_⟩
  · rw [Whole, hnil]
    exact huncut
  · rw [hnil]
    exact Nat.zero_le _
  · rw [hnil]
    exact List.nil_prefix
  · rw [hnil]
    rfl

/-- The answer is passed on. -/
theorem step_event_answer {c c' : Client (List UInt8)} {e : Client.Event}
    (h : Client.step roomy c e c') (hpasses : c.passes roomy e = Socket.voidFrame.bytes) :
    ((system roomy 12).restrict (Whole roomy)).step ⟨c, [(0, Socket.voidFrame)], 0⟩ (.event e)
      ⟨c', [(0, Socket.voidFrame)], 12⟩ := by
  refine ⟨?_, h, ?_, ?_, rfl, ?_⟩
  · rw [Whole, hpasses]
    exact uncut_voidFrame (.inr rfl)
  · rw [hpasses]
    decide
  · rw [hpasses, Socket.stream]
    simp [socket]
  · rw [hpasses]
    rfl

/-- A round of the SSL loop. -/
theorem step_round {c : Client (List UInt8)} (input : List UInt8)
    (hreading : c.conn.reading = some input) (hok : (c.sslRound roomy input).2 = none) :
    Client.step roomy c .round (c.sslRound roomy input).1 :=
  ⟨input, hreading, Prod.ext rfl hok⟩

/-- The answer is passed on one piece later. -/
theorem reachable_answered : ((system roomy 12).restrict (Whole roomy)).Reachable answered := by
  have hnone : Socket.Uncut [] 0 := by
    intro front f rest hsplit
    simp at hsplit
  have hzero : Socket.Uncut [Socket.voidFrame] 0 := uncut_voidFrame (.inl rfl)
  have h₀ : ((system roomy 12).restrict (Whole roomy)).Reachable ⟨lenient, [], 0⟩ :=
    .init ⟨⟨true, fun _ => 0, .returns [], false, [], rfl⟩, rfl, rfl⟩
  have h₁ : ((system roomy 12).restrict (Whole roomy)).Reachable ⟨queried, [], 0⟩ :=
    h₀.step (step_event_nil (e := .callback (.exec queryMessage false))
      ⟨⟨rfl, .inl rfl⟩, _, Prod.ext rfl rfl, rfl⟩ rfl hnone)
  have h₂ : ((system roomy 12).restrict (Whole roomy)).Reachable
      ⟨queried, [(0, Socket.voidFrame)], 0⟩ :=
    h₁.step (a := .answer 0 Socket.voidFrame)
      ⟨trivial, ⟨_, ⟨rfl, by decide⟩, by decide⟩, by decide, rfl⟩
  have h₃ : ((system roomy 12).restrict (Whole roomy)).Reachable
      ⟨(queried.onRead Socket.voidFrame.bytes).1, [(0, Socket.voidFrame)], 0⟩ :=
    h₂.step (step_event_nil (e := .read Socket.voidFrame.bytes) ⟨rfl, rfl⟩ rfl hzero)
  have h₄ := h₃.step (step_event_nil
    (step_round Socket.voidFrame.bytes rfl (by decide +kernel)) (by decide +kernel)
    hzero)
  rw [← held] at h₄
  have hssl : held.conn.ssl = true := by decide +kernel
  have hread : held.conn.reading = none := by decide +kernel
  have h₅ := h₄.step (step_event_nil (e := .read [0x16]) ⟨hread, onRead_ssl hssl⟩
    (by rw [Client.passes, if_pos hssl]) hzero)
  have hpasses : (held.onRead [0x16]).1.passes roomy .round = Socket.voidFrame.bytes := by
    decide +kernel
  have hok : ((held.onRead [0x16]).1.sslRound roomy [0x16]).2 = none := by decide +kernel
  rw [onRead_ssl hssl] at hpasses hok
  have hheard : heard = (({ held with conn := { held.conn with reading := some [0x16] } } :
      Client (List UInt8)).sslRound roomy [0x16]).1 := by
    rw [heard, onRead_ssl hssl]
  rw [answered, hheard]
  exact h₅.step (step_event_answer (step_round [0x16] rfl hok) hpasses)

theorem answered_ssl : answered.client.conn.ssl = true := by decide +kernel

theorem answered_responses : answered.client.conn.responses.length = 1 := by decide +kernel

theorem speaks_answered : Socket.Speaks answered.socket [.void] :=
  .cons ⟨trivial, rfl, rfl⟩ .nil

/-- The request is told that the query was done. -/
theorem answers_told_answered : ∃ l : Link (List UInt8), l.client.conn.ssl = true ∧
    l.client.conn.responses.length = 1 ∧ l.socket.Told [.void] :=
  ⟨answered, answered_ssl, answered_responses, answers_told reachable_answered speaks_answered⟩

end Link

end CqlClient
