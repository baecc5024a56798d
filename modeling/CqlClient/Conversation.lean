/-
  CqlClient formalization — a conversation with a server.

  The server reads the bytes that the client has written by `Layout.request`, and
  answers each frame at most once, at any time and in any order, with an answer that
  `serves` allows for what the frame asks.  Its bytes come back in buffers of any
  sizes that end inside no body.  The result of a request is then an answer to what
  the request asked, and once everything was answered and read, no request waits
  (`settled_of_reachable`).
-/
import CqlClient.Asked
import CqlClient.Ownership
import CqlClient.Socket

namespace CqlClient

open Wire.Parser

/-- A connection at its socket, with what its requests ask and what the server
    answers. -/
structure Conversation where
  socket : Socket
  calls : List Asked
  answers : List Answer

inductive Turn where
  | act (a : Action)
  /-- the server answers the frame at position `k` -/
  | answer (k : ℕ) (f : Frame) (a : Answer)
  | read (n : ℕ)
  | round

namespace Conversation

abbrev conn (s : Conversation) : Connection := s.socket.loop.conn

/-- The server finds the frame at position `k` in the bytes written, on the stream of
    `f`, and `a` is an answer to what it asks. -/
def Serves (serves : Asked → Answer → Prop) (c : Connection) (k : ℕ) (f : Frame) (a : Answer) :
    Prop :=
  ∃ log rest q, many Layout.request (k + 1) (c.writes.flatMap Write.bytes) = some (log, rest) ∧
    log[k]? = some (f.stream.toNat, q) ∧ serves q a

/-- The runs of a conversation. -/
def system (bound : ℕ) (serves : Asked → Answer → Prop) : System Conversation Turn where
  init s := (Socket.system bound).init s.socket ∧ s.conn.ssl = false ∧ s.calls = [] ∧
    s.answers = []
  step s x s' :=
    match x with
    | .act a => a.Sendable ∧ (Socket.system bound).step s.socket (.act a) s'.socket ∧
      s'.calls = s.calls ++ s.conn.asks a ∧ s'.answers = s.answers
    | .answer k f a => k ∉ s.socket.answered ∧ Serves serves s.conn k f a ∧
      (a.Fits ∧ f.opcode = a.opcode ∧ f.body = a.encode) ∧ f.size + bound < 2 ^ 31 ∧
      s'.socket = { s.socket with written := s.socket.written ++ [(k, f)] } ∧
      s'.calls = s.calls ∧ s'.answers = s.answers ++ [a]
    | .read n => s.socket.Whole (.read n) ∧
      (Socket.system bound).step s.socket (.read n) s'.socket ∧
      s'.calls = s.calls ∧ s'.answers = s.answers
    | .round => (Socket.system bound).step s.socket .round s'.socket ∧
      s'.calls = s.calls ∧ s'.answers = s.answers

variable {bound : ℕ} {serves : Asked → Answer → Prop} {s s' : Conversation}

/-! ## What the server has understood -/

/-- `log` is what the client has asked, and every answer is one to what its frame asks. -/
structure Follows (serves : Asked → Answer → Prop) (s : Conversation)
    (log : List (ℕ × Asked)) : Prop where
  understood : Transcript.Understood ⟨s.conn, s.calls⟩ log
  speaks : s.socket.Speaks s.answers
  served : ∀ (j k : ℕ) (a : Answer), s.socket.answered[j]? = some k → s.answers[j]? = some a →
    ∃ stream q, log[k]? = some (stream, q) ∧ serves q a

variable {log : List (ℕ × Asked)}

/-- A call into the connection, of the user or of the read loop. -/
theorem Follows.perform (h : Follows serves s log) (hinv : s.conn.Inv) {a : Action}
    (hsend : a.Sendable) (hperform : Connection.perform a s.conn = (s'.conn, none))
    (hcalls : s'.calls = s.calls ++ s.conn.asks a) (hanswers : s'.answers = s.answers)
    (hwritten : s'.socket.written = s.socket.written) : ∃ log', Follows serves s' log' := by
  obtain ⟨more, hmore⟩ : ∃ more, Transcript.Understood ⟨s'.conn, s'.calls⟩ (log ++ more) :=
    h.understood.step hinv hsend hperform hcalls
  refine ⟨log ++ more, hmore, ?_, ?_⟩
  · rw [Socket.Speaks, hwritten, hanswers]
    exact h.speaks
  · intro j k a hj ha
    rw [Socket.answered, hwritten] at hj
    rw [hanswers] at ha
    obtain ⟨stream, q, hq, hserves⟩ := h.served j k a hj ha
    exact ⟨stream, q, Core.getElem?_append_of_eq_some hq, hserves⟩

/-- Nothing that the server sees. -/
theorem Follows.same (h : Follows serves s log) (hconn : s'.conn = s.conn)
    (hcalls : s'.calls = s.calls) (hanswers : s'.answers = s.answers)
    (hwritten : s'.socket.written = s.socket.written) : Follows serves s' log := by
  refine ⟨?_, ?_, ?_⟩
  · rw [hconn, hcalls]
    exact h.understood
  · rw [Socket.Speaks, hwritten, hanswers]
    exact h.speaks
  · rw [Socket.answered, hwritten, hanswers]
    exact h.served

theorem request_nil : Layout.request [] = none := rfl

/-- What the server finds at a position is what the log has there. -/
theorem Follows.serves_log (h : Follows serves s log) {k : ℕ} {f : Frame} {a : Answer}
    (hserves : Serves serves s.conn k f a) :
    ∃ q, log[k]? = some (f.stream.toNat, q) ∧ serves q a := by
  obtain ⟨log', rest, q, hread, hk, hq⟩ := hserves
  have hlog' : log' = log.take (k + 1) := by
    refine many_forall₂ (g := Write.bytes) (h.understood.log.imp ?_) request_nil hread
    rintro w ⟨stream, q⟩ ⟨f, rfl, rfl, hasks, -⟩
    exact hasks.reads
  refine ⟨q, ?_, hq⟩
  rw [hlog', List.getElem?_take_of_lt (Nat.lt_succ_self k)] at hk
  exact hk

/-- The server's answer goes to the frame that it has read. -/
theorem Follows.unanswered (h : Follows serves s log) {k : ℕ} {f : Frame} {a : Answer}
    (hk : k ∉ s.socket.answered) (hserves : Serves serves s.conn k f a) :
    ∃ g, s.conn.Unanswered s.socket.answered k g ∧ toInt8 f.stream.toNat = g.stream := by
  obtain ⟨q, hlog, -⟩ := h.serves_log hserves
  obtain ⟨w, hw, g, rfl, hstream, hasks, -⟩ := h.understood.asks hlog
  refine ⟨g, ⟨hw, hk⟩, ?_⟩
  have hlt := hasks.inByte
  simp only at hstream
  rw [← hstream]
  exact Int.bmod_eq_of_le (by norm_num) (by norm_num; omega)

theorem Follows.answer (h : Follows serves s log) {k : ℕ} {f : Frame} {a : Answer}
    (hserves : Serves serves s.conn k f a)
    (hsaid : a.Fits ∧ f.opcode = a.opcode ∧ f.body = a.encode)
    (hsocket : s'.socket = { s.socket with written := s.socket.written ++ [(k, f)] })
    (hcalls : s'.calls = s.calls) (hanswers : s'.answers = s.answers ++ [a]) :
    Follows serves s' log := by
  have hlen : s.socket.answered.length = s.answers.length := by
    rw [Socket.answered, List.length_map]
    exact h.speaks.length_eq
  refine ⟨?_, ?_, ?_⟩
  · rw [conn, hsocket, hcalls]
    exact h.understood
  · rw [Socket.Speaks, hsocket, hanswers]
    exact List.rel_append h.speaks (.cons hsaid .nil)
  · intro j k' a' hj ha
    rw [hsocket, Socket.answered, List.map_append, List.map_singleton] at hj
    rw [hanswers] at ha
    rcases Core.concat_getElem?.1 hj with hj | ⟨hjl, rfl⟩
    · rcases Core.concat_getElem?.1 ha with ha | ⟨hjl, rfl⟩
      · exact h.served j k' a' hj ha
      · have hlt := (List.getElem?_eq_some_iff.1 hj).1
        rw [← Socket.answered] at hlt
        omega
    · rcases Core.concat_getElem?.1 ha with ha | ⟨-, rfl⟩
      · have hlt := (List.getElem?_eq_some_iff.1 ha).1
        rw [← Socket.answered] at hjl
        omega
      · obtain ⟨q, hq, hserve⟩ := h.serves_log hserves
        exact ⟨_, q, hq, hserve⟩

/-! ## Runs -/

/-- Whoever answers, it is a run of the connection. -/
theorem refines_connection : Peers.system.Refines Connection.system Peers.conn where
  init _ hinit := hinit.1
  step _ a _ _ hstep := by
    cases a with
    | act a => exact ⟨[a], .single hstep.2.1⟩
    | answer k message => exact ⟨[.dispatch message], .single hstep.2.1⟩

theorem reachable_conn {s : Socket}
    (h : ((Socket.system bound).restrict Socket.Whole).Reachable s) :
    Connection.system.Reachable s.loop.conn :=
  refines_connection.reachable ((Socket.refines_peers bound).reachable h.of_restrict)

/-- **One turn**: seen at the socket it is a step, and the server still follows. -/
theorem Follows.step (h : Follows serves s log)
    (hsocket : ((Socket.system bound).restrict Socket.Whole).Reachable s.socket) {x : Turn}
    (hstep : (system bound serves).step s x s') :
    (∃ a, ((Socket.system bound).restrict Socket.Whole).step s.socket a s'.socket) ∧
      ∃ log', Follows serves s' log' := by
  have hinv := Connection.inv_of_reachable (reachable_conn hsocket)
  cases x with
  | act a =>
    obtain ⟨hsend, hact, hcalls, hanswers⟩ := hstep
    refine ⟨⟨.act a, trivial, hact⟩, ?_⟩
    obtain ⟨-, c, hperform, hs'⟩ := hact
    have hconn : s'.conn = c := by rw [conn, hs']
    have hwritten : s'.socket.written = s.socket.written := by rw [hs']
    rw [← hconn] at hperform
    exact h.perform hinv hsend hperform hcalls hanswers hwritten
  | answer k f a =>
    obtain ⟨hk, hserves, hsaid, hsize, hs', hcalls, hanswers⟩ := hstep
    exact ⟨⟨.answer k f, trivial, h.unanswered hk hserves, hsize, hs'⟩,
      log, h.answer hserves hsaid hs' hcalls hanswers⟩
  | read n =>
    obtain ⟨hwhole, hread, hcalls, hanswers⟩ := hstep
    refine ⟨⟨.read n, hwhole, hread⟩, log, ?_⟩
    obtain ⟨-, -, -, hs'⟩ := hread
    exact h.same (by rw [conn, hs']; rfl) hcalls hanswers (by rw [hs'])
  | round =>
    obtain ⟨hround, hcalls, hanswers⟩ := hstep
    refine ⟨⟨.round, trivial, hround⟩, ?_⟩
    obtain ⟨hne, loop, hit, hs'⟩ := hround
    have hconn : s'.conn = loop.conn := by rw [conn, hs']
    have hwritten : s'.socket.written = s.socket.written := by rw [hs']
    have hsinv := Socket.inv_of_reachable hsocket.of_restrict
    obtain ⟨n, ha⟩ := hsinv.aligned
    obtain ⟨-, -, hcase⟩ := ha.round hsinv hne hit
    rcases hcase with ⟨-, hsame, -, -⟩ | ⟨k, f, m, -, -, hdispatch, -, -, -⟩
    · exact ⟨log, h.same (hconn.trans hsame) hcalls hanswers hwritten⟩
    · rw [← hconn] at hdispatch
      refine h.perform (a := .dispatch m) hinv trivial hdispatch ?_ hanswers hwritten
      rw [hcalls, Connection.asks]
      simp [Action.asks]

theorem follows_of_reachable (h : (system bound serves).Reachable s) :
    ((Socket.system bound).restrict Socket.Whole).Reachable s.socket ∧
      ∃ log, Follows serves s log := by
  refine h.invariant (I := fun s => ((Socket.system bound).restrict Socket.Whole).Reachable
    s.socket ∧ ∃ log, Follows serves s log) ?_ ?_
  · rintro s ⟨hinit, hssl, hcalls, hanswers⟩
    refine ⟨.init hinit, [], ?_, ?_, ?_⟩
    · obtain ⟨⟨heap, heap', nullString, ssl, prepareCallback, hloop⟩, -, -⟩ := hinit
      rw [conn, hloop] at hssl
      obtain rfl : ssl = false := hssl
      refine Transcript.Understood.init ⟨⟨heap', nullString, prepareCallback, ?_⟩, hcalls⟩
      rw [conn, hloop]
    · rw [Socket.Speaks, hinit.2.1, hanswers]
      exact .nil
    · intro j k a hj ha
      rw [hanswers] at ha
      cases ha
  · rintro s x s' - ⟨hsocket, log, hlog⟩ hstep
    obtain ⟨⟨a, ha⟩, hfollows⟩ := hlog.step hsocket hstep
    exact ⟨hsocket.step ha, hfollows⟩

/-- A result is an answer to what its request asked, and says so, but for blank column
    entries; a request whose frame got such an answer has it, once all of the bytes are
    read; and then, if every frame of a request got one, no request waits. -/
structure Settled (serves : Asked → Answer → Prop) (s : Conversation) : Prop where
  result : ∀ i j : ℕ, s.conn.ResultAt i j → ∃ q, ∃ a : Answer, ∃ m b, s.calls[i]? = some q ∧
    s.answers[j]? = some a ∧ serves q a ∧ a.completesRequest = true ∧
    s.conn.responses[j]? = some m ∧ m.body = some b ∧ a.ToldBy (m.bodyBuffer.take m.length.toNat) b
  completed : s.socket.loop.remaining = 0 → s.socket.delivered = s.socket.stream.length →
    ∀ (j k i : ℕ) (f : SentFrame) (a : Answer), s.socket.answered[j]? = some k →
      s.conn.Frame k f → f.request = .request i → s.answers[j]? = some a →
      a.completesRequest = true → s.conn.ResultAt i j
  all : s.socket.loop.remaining = 0 → s.socket.delivered = s.socket.stream.length →
    (∀ (k i : ℕ) (f : SentFrame), s.conn.Frame k f → f.request = .request i →
      ∃ j : ℕ, ∃ a : Answer, s.socket.answered[j]? = some k ∧ s.answers[j]? = some a ∧
        a.completesRequest = true) →
    ∀ i, ¬ s.conn.Waiting i

/-- **A conversation comes out right**: requests get answers to what they asked. -/
theorem settled_of_reachable (h : (system bound serves).Reachable s) : s.Settled serves := by
  obtain ⟨hsocket, log, hlog⟩ := follows_of_reachable h
  have hresult := Socket.result_iff hsocket hlog.speaks
  have hcompleted : s.socket.loop.remaining = 0 →
      s.socket.delivered = s.socket.stream.length →
      ∀ (j k i : ℕ) (f : SentFrame) (a : Answer), s.socket.answered[j]? = some k →
      s.conn.Frame k f → f.request = .request i → s.answers[j]? = some a →
      a.completesRequest = true → s.conn.ResultAt i j := by
    intro hzero hall j k i f a hj hk hreq ha hcompletes
    have hlen := Socket.length_responses hsocket hlog.speaks hzero hall
    have hlt := (List.getElem?_eq_some_iff.1 ha).1
    exact (hresult i j).2 ⟨hlen ▸ hlt, k, f, a, hj, hk, hreq, ha, hcompletes⟩
  refine ⟨?_, hcompleted, ?_⟩
  · intro i j hij
    obtain ⟨hlt, k, g, a, hj, hk, hreq, ha, hcompletes⟩ := (hresult i j).1 hij
    have hm : s.conn.responses[j]? = some s.conn.responses[j] := List.getElem?_eq_getElem hlt
    obtain ⟨-, b, hb, htells⟩ := Socket.message_tells hsocket hlog.speaks ha hm
    -- what the server has read is what the request asked
    obtain ⟨stream, q, hq, hserves⟩ := hlog.served j k a hj ha
    obtain ⟨w, hw, g', rfl, -, -, hwho⟩ := hlog.understood.asks hq
    obtain rfl := Write.frame.inj (Option.some.inj (hk.symm.trans hw))
    rcases hwho with ⟨hnull, -⟩ | ⟨i', hreq', hcall⟩
    · rw [hreq] at hnull
      cases hnull
    · obtain rfl := RequestPtr.request.inj (hreq.symm.trans hreq')
      exact ⟨q, a, _, b, hcall, ha, hserves, hcompletes, hm, hb, htells⟩
  · intro hzero hall hserved i hwaiting
    have hconn := reachable_conn hsocket
    have hinv := Connection.inv_of_reachable hconn
    obtain ⟨id, hheld⟩ := (hinv.waiting i).1 hwaiting
    obtain ⟨k, f, hk, -, hreq⟩ := hinv.frame id hheld.1
    have hfi := hreq.trans hheld.2
    obtain ⟨j, a, hj, ha, hcompletes⟩ := hserved k i f hk hfi
    have hij := hcompleted hzero hall j k i f a hj hk hfi ha hcompletes
    exact Connection.resultsNotified_of_reachable hconn i j hij hwaiting

/-! ## A query and its answer -/

/-- A server that has done whatever it is asked. -/
def obliging (_ : Asked) (a : Answer) : Prop := a = .void

/-- The empty query, with a library that lets `exec` return; it was answered, and the loop
    has the answer. -/
def answeredVoid : Conversation := ⟨Socket.toldVoid, [.query (BodyQuery.config {})], [.void]⟩

theorem reachable_answeredVoid : (system 12 obliging).Reachable answeredVoid := by
  have h₀ : (system 12 obliging).Reachable ⟨{ Socket.asked with
      loop := { Socket.asked.loop with conn := Connection.lenient } }, [], []⟩ :=
    .init ⟨⟨⟨_, _, _, _, _, rfl⟩, rfl, rfl⟩, rfl, rfl, rfl⟩
  have h₁ : (system 12 obliging).Reachable
      ⟨Socket.asked, [.query (BodyQuery.config {})], []⟩ := by
    refine h₀.step (a := .act (.exec queryMessage false))
      ⟨⟨_, Transcript.asks_queryMessage⟩, ⟨?_, _, Prod.ext rfl rfl, rfl⟩, rfl, rfl⟩
    intro message hm
    cases hm
  have h₂ : (system 12 obliging).Reachable
      ⟨{ Socket.asked with written := [(0, Socket.voidFrame)] }, [.query (BodyQuery.config {})],
        [.void]⟩ := by
    refine h₁.step (a := .answer 0 Socket.voidFrame .void)
      ⟨by simp [Socket.answered, Socket.asked], ?_, ⟨trivial, rfl, rfl⟩, by decide, rfl, rfl, rfl⟩
    exact ⟨[(1, .query (BodyQuery.config {}))], [], _, by decide +kernel, rfl, rfl⟩
  refine h₂.step (a := .read 12) ⟨?_, ⟨rfl, le_rfl, by decide, rfl⟩, rfl, rfl⟩
  intro front f rest hsplit hcut
  rcases front with _ | ⟨f', front⟩
  · cases hsplit
    decide
  · simp at hsplit

/-- After one round the query has its answer. -/
theorem settled_void : ∃ s, (system 12 obliging).Reachable s ∧ s.Settled obliging ∧
    s.conn.ResultAt 0 0 := by
  have hit : (Socket.toldVoid.loop.iterate Body.consume Connection.handlers).2 = none := by
    decide +kernel
  have hreach : (system 12 obliging).Reachable { answeredVoid with
      socket := { Socket.toldVoid with
        loop := (Socket.toldVoid.loop.iterate Body.consume Connection.handlers).1 } } :=
    reachable_answeredVoid.step (a := .round)
      ⟨⟨by decide, _, Prod.ext rfl hit, rfl⟩, rfl, rfl⟩
  have hsettled := settled_of_reachable hreach
  refine ⟨_, hreach, hsettled, hsettled.completed ?_ ?_ 0 0 0 _ .void rfl rfl rfl rfl rfl⟩
  · decide +kernel
  · decide +kernel

end Conversation

end CqlClient
