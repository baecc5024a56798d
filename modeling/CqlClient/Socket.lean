/-
  CqlClient formalization — a connection at its socket.

  The server answers a frame by writing one of its own, at any time later.  libuv
  delivers the bytes written in buffers of any sizes, and `on_read` gives each to
  the read loop; before every round of the loop the user may call.  Message by
  message this is a run of a connection with its server (`refines_peers`): the
  messages dispatched are the frames written, in the order in which they were
  written.

  If no buffer ends inside a body, a message dispatched also has the body that was
  written, and the result of a request says what the server answered to the
  request's own frame (`told_of_reachable`).
-/
import CqlClient.Lib.Refinement
import CqlClient.Results
import CqlClient.Confidentiality
import CqlClient.Deframe
import CqlClient.Responses

namespace CqlClient

open Word

/-- A connection, its read loop, and its server. -/
structure Socket where
  loop : ReadLoop Connection
  /-- which frame the server answered, and with which, in order -/
  written : List (ℕ × Frame)
  /-- the bytes of what was written that libuv has delivered -/
  delivered : ℕ

inductive SocketAction where
  /-- anything but a response -/
  | act (a : Action)
  /-- the server answers the frame at position `k` -/
  | answer (k : ℕ) (f : Frame)
  /-- `on_read` with the next `n` bytes -/
  | read (n : ℕ)
  /-- a round of the read loop -/
  | round

namespace Socket

/-- The bytes written. -/
def stream (s : Socket) : List UInt8 := (s.written.map Prod.snd).flatMap Frame.bytes

/-- The frames answered. -/
def answered (s : Socket) : List ℕ := s.written.map Prod.fst

/-- The runs of a connection at its socket, with buffers of at most `bound` bytes.  With
    SSL the socket is the session, and the bytes are those that it passes on. -/
def system (bound : ℕ) : System Socket SocketAction where
  init s := (∃ heap heap' nullString ssl prepareCallback, s.loop =
    { incomming := Message.new heap
      conn := Connection.new heap' nullString ssl prepareCallback }) ∧
    s.written = [] ∧ s.delivered = 0
  step s a s' :=
    match a with
    | .act a => (∀ message, a ≠ .dispatch message) ∧ ∃ c,
      Connection.perform a s.loop.conn = (c, none) ∧
      s' = { s with loop := { s.loop with conn := c } }
    | .answer k f => (∃ g, s.loop.conn.Unanswered s.answered k g ∧
        toInt8 f.stream.toNat = g.stream) ∧
      f.size + bound < 2 ^ 31 ∧ s' = { s with written := s.written ++ [(k, f)] }
    | .read n => s.loop.remaining = 0 ∧ n ≤ bound ∧ s.delivered + n ≤ s.stream.length ∧
      s' = { s with
        loop := s.loop.start ((s.stream.drop s.delivered).take n)
        delivered := s.delivered + n }
    | .round => s.loop.remaining ≠ 0 ∧ ∃ loop,
      s.loop.iterate Body.consume Connection.handlers = (loop, none) ∧ s' = { s with loop }

/-- Message by message: the frames whose answers were dispatched are answered. -/
def peers (s : Socket) : Peers := ⟨s.loop.conn, s.answered.take s.loop.dispatched.length⟩

end Socket

/-! ## A round of the loop -/

/-- The message has the body that `allocate_body` and `consume` make of the frame's. -/
structure Decoded (f : Frame) (m : Message) : Prop where
  buffer : m.bodyBuffer.take m.length.toNat = f.body
  body : ∃ fresh b ok, allocateBody f.opcode = .ok (some fresh) ∧
    fresh.consume f.body = .ok (b, ok) ∧ m.body = some b

namespace ReadLoop
variable {S : Type} {h : Handlers S} {st st' : ReadLoop S} {f : Frame} {n : ℕ}

/-- What is left of the input after `c` bytes more. -/
theorem left_drop (hst : Inv st) (hst' : Inv st') (hinput : st'.input = st.input) {c : ℕ}
    (hbuffer : st'.buffer = st.buffer + c) : st'.left = st.left.drop c := by
  have hb := hst.buffer
  have hsum := hst.sum
  have hsum' := hst'.sum
  rw [hinput] at hsum'
  rw [left, left, hinput, hbuffer, List.drop_take, List.drop_drop]
  rw [show (st.buffer + c).toNat = st.buffer.toNat + c by omega,
    show st'.remaining.toNat = st.remaining.toNat - c by omega]

/-- **A round in front of the frame `f`** takes all of the input, or the rest of the
    frame, and then dispatches a message that carries it. -/
theorem iterate_front (hst : Inv st) (hne : st.remaining ≠ 0) (hm : st.incomming.Partial f n)
    {rest : List UInt8} (hleft : st.left <+: f.bytes.drop n ++ rest)
    (hov : n + st.left.length < 2 ^ 31)
    (hit : st.iterate Body.consume h = (st', none)) :
    Inv st' ∧ st'.input = st.input ∧
    ((st'.dispatched = st.dispatched ∧ st'.conn = st.conn ∧ st'.left = [] ∧
        st'.incomming.Partial f (n + st.left.length)) ∨
      ∃ m, st'.dispatched = st.dispatched ++ [m] ∧ h.dispatch m st.conn = (st'.conn, none) ∧
        (∃ heap, st'.incomming = Message.new heap) ∧ st.left = f.bytes.drop n ++ st'.left ∧
        Carries f m ∧ (n < cqlHeaderSize → Decoded f m)) := by
  have hinv' : Inv st' := by
    rcases round_result Body.consume h hst hne with ⟨s, e, hit'⟩ | ⟨s, m, c, -, hit', hinv, -⟩
    · rw [hit] at hit'; cases hit'
    · rw [hit] at hit'; cases hit'
      exact hinv
  rcases Nat.lt_or_ge (n + st.left.length) f.size with hlt | hge
  · -- all of the input belongs to the frame
    have hin : st.left <+: f.bytes.drop n :=
      List.prefix_of_prefix_length_le hleft (List.prefix_append _ _) (by simp; omega)
    obtain ⟨m, hc, hp⟩ := Message.consume_partial Body.consume hm hin hlt
    rw [iterate_waiting hst.window hc hp.ready] at hit
    cases hit
    refine ⟨hinv', rfl, .inl ⟨rfl, rfl, ?_, hp⟩⟩
    rw [left_drop hst hinv' rfl rfl, List.drop_length]
  · -- the frame ends in the input
    have hsize := hm.lt
    have hin : f.bytes.drop n <+: st.left :=
      List.prefix_of_prefix_length_le (List.prefix_append _ _) hleft (by simp; omega)
    obtain ⟨m, hc, hhdr, -, hcop, hbuffer, -⟩ :=
      Message.consume_complete Body.consume hm hin hov
    obtain ⟨fresh, hfresh⟩ := allocateBody_ok f.supported
    have hmb : m.body = some fresh := by
      have halloc := hhdr.body
      rw [hfresh] at halloc
      exact (Except.ok.inj halloc).symm
    rcases hbc : fresh.consume (m.bodyBuffer.take m.length.toNat) with e | ⟨b, ok⟩
    · -- the loop goes on only if the body is decoded
      rw [Message.decodeBody_error _ hmb hbc] at hc
      simp only [iterate, hst.window, hc] at hit
      cases hit
    rw [Message.decodeBody_ok _ hmb hbc] at hc
    rw [iterate_ready hst.window hc rfl] at hit
    rcases hd : h.dispatch (m.setBody b ok) st.conn with ⟨conn, e | _⟩
    swap
    · rw [hd] at hit; cases hit
    rw [hd] at hit
    cases hit
    refine ⟨hinv', rfl, .inr ⟨m.setBody b ok, rfl, hd, ⟨_, rfl⟩, ?_, ?_, ?_⟩⟩
    · rw [left_drop hst hinv' rfl rfl]
      obtain ⟨t, ht⟩ := hin
      rw [← ht, List.drop_left' (by simp)]
    · exact ⟨hhdr.version, hhdr.flags, hhdr.stream, hhdr.opcode, hhdr.length, hcop⟩
    · intro hn
      have hbuf : m.bodyBuffer.take m.length.toNat = f.body := by
        rw [hhdr.length, Int.toNat_natCast]
        exact (hbuffer hn).1
      exact ⟨hbuf, fresh, b, ok, hfresh, by rw [← hbuf]; exact hbc, rfl⟩

end ReadLoop

/-! ## The invariant -/

namespace Core
variable {s s' : Core} {message : Message}

/-- Frames stay written. -/
theorem Frame.mono {k : ℕ} {f : SentFrame} (h : s.Frame k f) (hpre : s.writes <+: s'.writes) :
    s'.Frame k f := by
  obtain ⟨t, ht⟩ := hpre
  rw [Frame, ← ht]
  exact getElem?_append_of_eq_some h

end Core

namespace Socket
variable {s s' : Socket} {bound : ℕ}

/-- The frames written that are not dispatched yet. -/
def pending (s : Socket) : List Frame :=
  (s.written.drop s.loop.dispatched.length).map Prod.snd

/-- The frames whose messages were dispatched. -/
def arrived (s : Socket) : List Frame :=
  (s.written.take s.loop.dispatched.length).map Prod.snd

theorem stream_split (s : Socket) :
    s.stream = s.arrived.flatMap Frame.bytes ++ s.pending.flatMap Frame.bytes := by
  rw [stream, arrived, pending, ← List.flatMap_append, ← List.map_append, List.take_append_drop]

/-- Of the bytes delivered, the first are those of the messages dispatched, then come
    the `n` of the message under way, and the rest is what the loop has left. -/
structure Aligned (s : Socket) (n : ℕ) : Prop where
  carries : List.Forall₂ Carries s.arrived s.loop.dispatched
  underWay : ReadLoop.Pending s.pending n s.loop.incomming
  bytes : s.stream.take s.delivered =
    s.arrived.flatMap Frame.bytes ++ (s.pending.flatMap Frame.bytes).take n ++ s.loop.left
  within : s.delivered ≤ s.stream.length

structure Inv (bound : ℕ) (s : Socket) : Prop where
  loop : ReadLoop.Inv s.loop
  input : s.loop.input.length ≤ bound
  responses : s.loop.conn.responses = s.loop.dispatched
  aligned : ∃ n, s.Aligned n
  sizes : ∀ x ∈ s.written, x.2.size + bound < 2 ^ 31
  once : s.answered.Nodup
  frames : ∀ x ∈ s.written, ∃ g, s.loop.conn.Frame x.1 g ∧ toInt8 x.2.stream.toNat = g.stream

/-- Every message dispatched is one of the frames written. -/
theorem Aligned.length_le {n : ℕ} (h : s.Aligned n) :
    s.loop.dispatched.length ≤ s.written.length := by
  have hlen := h.carries.length_eq
  rw [arrived, List.length_map, List.length_take] at hlen
  omega

/-- The bytes left are the next ones of the frames that are pending. -/
theorem Aligned.left {n : ℕ} (h : s.Aligned n) :
    s.loop.left <+: (s.pending.flatMap Frame.bytes).drop n := by
  have hpre := List.take_prefix s.delivered s.stream
  rw [h.bytes, s.stream_split, List.append_assoc, List.prefix_append_right_inj] at hpre
  exact prefix_drop_of_take_append hpre

theorem length_left_le (h : ReadLoop.Inv s.loop) : s.loop.left.length ≤ s.loop.input.length := by
  have hleft := h.length_left
  have hsum := h.sum
  have hbuffer := h.buffer
  omega

/-! ## The steps -/

/-- A call of the user, or of libuv. -/
theorem Inv.act (h : Inv bound s) {a : Action} {c : Connection}
    (hne : ∀ message, a ≠ .dispatch message)
    (hperform : Connection.perform a s.loop.conn = (c, none)) :
    Inv bound { s with loop := { s.loop with conn := c } } where
  loop := ⟨h.loop.waiting, h.loop.buffer, h.loop.remaining, h.loop.sum, h.loop.size⟩
  input := h.input
  responses := (Connection.perform_effect hne hperform).responses.trans h.responses
  aligned := by
    obtain ⟨n, ha⟩ := h.aligned
    exact ⟨n, ha.carries, ha.underWay, ha.bytes, ha.within⟩
  sizes := h.sizes
  once := h.once
  frames x hx := by
    obtain ⟨g, hg, hstream⟩ := h.frames x hx
    exact ⟨g, hg.mono (Connection.perform_writes hperform).1, hstream⟩

theorem Pending.concat {rest : List Frame} {n : ℕ} {m : Message} (f : Frame)
    (h : ReadLoop.Pending rest n m) : ReadLoop.Pending (rest ++ [f]) n m := by
  cases h with
  | idle heap => exact ReadLoop.Pending.new [f] heap
  | frame hm => exact .frame hm

/-- The bytes of a new answer are behind those delivered. -/
theorem Aligned.answer {n : ℕ} (ha : s.Aligned n) (k : ℕ) (f : Frame) :
    Aligned { s with written := s.written ++ [(k, f)] } n := by
  have hle := ha.length_le
  have harrived : arrived { s with written := s.written ++ [(k, f)] } = s.arrived := by
    simp only [arrived, List.take_append_of_le_length hle]
  have hpending : pending { s with written := s.written ++ [(k, f)] } = s.pending ++ [f] := by
    simp only [pending, List.drop_append_of_le_length hle, List.map_append, List.map_singleton]
  have hbytes : stream { s with written := s.written ++ [(k, f)] } = s.stream ++ f.bytes := by
    simp [stream]
  refine ⟨?_, ?_, ?_, ?_⟩
  · rw [harrived]
    exact ha.carries
  · rw [hpending]
    exact Pending.concat f ha.underWay
  · rw [hbytes, harrived, hpending, List.flatMap_append,
      List.take_append_of_le_length ha.underWay.le, List.take_append_of_le_length ha.within]
    exact ha.bytes
  · rw [hbytes, List.length_append]
    exact ha.within.trans (Nat.le_add_right _ _)

/-- The server answers. -/
theorem Inv.answer (h : Inv bound s) {k : ℕ} {f : Frame} {g : SentFrame}
    (hk : s.loop.conn.Unanswered s.answered k g) (hstream : toInt8 f.stream.toNat = g.stream)
    (hsize : f.size + bound < 2 ^ 31) :
    Inv bound { s with written := s.written ++ [(k, f)] } where
  loop := h.loop
  input := h.input
  responses := h.responses
  aligned := by
    obtain ⟨n, ha⟩ := h.aligned
    exact ⟨n, ha.answer k f⟩
  sizes x hx := by
    rcases List.mem_append.1 hx with hx | hx
    · exact h.sizes x hx
    · obtain rfl := List.mem_singleton.1 hx
      exact hsize
  once := by
    rw [answered, List.map_append, List.map_singleton, List.nodup_append]
    refine ⟨h.once, List.nodup_singleton k, ?_⟩
    rintro k' hk' _ hmem rfl
    rw [List.mem_singleton.1 hmem] at hk'
    exact hk.2 hk'
  frames x hx := by
    rcases List.mem_append.1 hx with hx | hx
    · exact h.frames x hx
    · obtain rfl := List.mem_singleton.1 hx
      exact ⟨g, hk.1, hstream⟩

theorem left_start {S : Type} (st : ReadLoop S) {input : List UInt8}
    (hin : input.length < 2 ^ 31) : (st.start input).left = input := by
  have hr : toInt32 (input.length : ℤ) = input.length := toInt32_eq (by omega) (by omega)
  simp only [ReadLoop.left, ReadLoop.start, hr, Int.toNat_zero, List.drop_zero,
    Int.toNat_natCast, List.take_length]

theorem left_eq_nil (h : ReadLoop.Inv s.loop) (hzero : s.loop.remaining = 0) :
    s.loop.left = [] := by
  refine List.eq_nil_of_length_eq_zero ?_
  have := h.length_left
  omega

/-- libuv never delivers more bytes than an `int` counts. -/
theorem Inv.length_read (h : Inv bound s) {n : ℕ} (hn : n ≤ bound)
    (hle : s.delivered + n ≤ s.stream.length) :
    ((s.stream.drop s.delivered).take n).length = n ∧ n < 2 ^ 31 := by
  refine ⟨?_, ?_⟩
  · rw [List.length_take, List.length_drop]
    omega
  · rcases hwritten : s.written with _ | ⟨x, written⟩
    · rw [stream, hwritten, List.map_nil, List.flatMap_nil, List.length_nil] at hle
      omega
    · have := h.sizes x (hwritten ▸ List.mem_cons_self)
      omega

/-- The next bytes are what the loop has left. -/
theorem Aligned.read {m n : ℕ} (ha : s.Aligned m) (h : Inv bound s)
    (hzero : s.loop.remaining = 0) (hn : n ≤ bound) (hle : s.delivered + n ≤ s.stream.length) :
    Aligned { s with
      loop := s.loop.start ((s.stream.drop s.delivered).take n)
      delivered := s.delivered + n } m := by
  obtain ⟨hlen, hsize⟩ := h.length_read hn hle
  refine ⟨ha.carries, ha.underWay, ?_, hle⟩
  change s.stream.take (s.delivered + n) = _ ++ (s.loop.start _).left
  rw [left_start _ (by omega), List.take_add, ha.bytes, left_eq_nil h.loop hzero, List.append_nil]
  rfl

/-- libuv delivers the next bytes. -/
theorem Inv.read (h : Inv bound s) {n : ℕ} (hzero : s.loop.remaining = 0) (hn : n ≤ bound)
    (hle : s.delivered + n ≤ s.stream.length) :
    Inv bound { s with
      loop := s.loop.start ((s.stream.drop s.delivered).take n)
      delivered := s.delivered + n } := by
  obtain ⟨hlen, hsize⟩ := h.length_read hn hle
  obtain ⟨m, ha⟩ := h.aligned
  refine ⟨h.loop.start (by omega), ?_, h.responses, ⟨m, ha.read h hzero hn hle⟩, h.sizes, h.once,
    h.frames⟩
  change ((s.stream.drop s.delivered).take n).length ≤ bound
  rw [hlen]
  exact hn

/-- The frame that a round with input works on. -/
theorem Aligned.head {n : ℕ} (h : s.Aligned n) (hloop : ReadLoop.Inv s.loop)
    (hne : s.loop.remaining ≠ 0) :
    ∃ k f rest, s.written.drop s.loop.dispatched.length = (k, f) :: rest ∧
      s.loop.incomming.Partial f n := by
  rcases hrest : s.written.drop s.loop.dispatched.length with _ | ⟨⟨k, f⟩, rest⟩
  · have hleft := h.left
    rw [pending, hrest, List.map_nil, List.flatMap_nil, List.drop_nil, List.prefix_nil] at hleft
    have hlen := hloop.length_left
    rw [hleft, List.length_nil] at hlen
    exact absurd hlen.symm hne
  · have hpending := h.underWay
    rw [pending, hrest] at hpending
    exact ⟨k, f, rest, rfl, hpending.partial_cons⟩

/-- **A round of the loop**: nothing is dispatched, or the message of the next frame
    written is. -/
theorem Aligned.round {n : ℕ} (ha : s.Aligned n) (h : Inv bound s)
    (hne : s.loop.remaining ≠ 0) {loop : ReadLoop Connection}
    (hit : s.loop.iterate Body.consume Connection.handlers = (loop, none)) :
    ReadLoop.Inv loop ∧ loop.input = s.loop.input ∧
    ((loop.dispatched = s.loop.dispatched ∧ loop.conn = s.loop.conn ∧ loop.left = [] ∧
        Aligned { s with loop } (n + s.loop.left.length)) ∨
      ∃ k f m, s.written[s.loop.dispatched.length]? = some (k, f) ∧
        loop.dispatched = s.loop.dispatched ++ [m] ∧
        Connection.handlers.dispatch m s.loop.conn = (loop.conn, none) ∧
        Carries f m ∧ (n < cqlHeaderSize → Decoded f m) ∧ Aligned { s with loop } 0) := by
  obtain ⟨k, f, rest, hrest, hm⟩ := ha.head h.loop hne
  have hmem : (k, f) ∈ s.written := List.mem_of_mem_drop (hrest ▸ List.mem_cons_self)
  have hpending : s.pending = f :: rest.map Prod.snd := by rw [pending, hrest, List.map_cons]
  have hbytes : s.pending.flatMap Frame.bytes =
      f.bytes ++ (rest.map Prod.snd).flatMap Frame.bytes := by
    rw [hpending, List.flatMap_cons]
  have hnf : n ≤ f.bytes.length := by
    rw [f.length_bytes]
    exact hm.lt.le
  have hleft := ha.left
  rw [hbytes, List.drop_append_of_le_length hnf] at hleft
  have hov : n + s.loop.left.length < 2 ^ 31 := by
    have := h.sizes _ hmem
    have := length_left_le h.loop
    have := h.input
    have := hm.lt
    simp only at *
    omega
  obtain ⟨hinv, hinput, hcase⟩ := ReadLoop.iterate_front h.loop hne hm hleft hov hit
  refine ⟨hinv, hinput, ?_⟩
  rcases hcase with ⟨hdisp, hconn, hnil, hp⟩ | ⟨m, hdisp, hdispatch, ⟨heap, hnew⟩, hrem, hcar, hdec⟩
  · refine .inl ⟨hdisp, hconn, hnil, ?_, ?_, ?_, ha.within⟩
    · simp only [arrived, hdisp]
      exact ha.carries
    · simp only [pending, hdisp]
      rw [← pending, hpending]
      exact .frame hp
    · have hlast := ha.left
      simp only [arrived, pending, hdisp, hnil, List.append_nil]
      rw [← pending, ← arrived, take_add_of_isPrefix hlast, ← List.append_assoc]
      exact ha.bytes
  · have hat : s.written[s.loop.dispatched.length]? = some (k, f) := by
      have h0 := congrArg (fun l => l[0]?) hrest
      simpa using h0
    have hnext : s.written.drop (s.loop.dispatched.length + 1) = rest := by
      rw [← List.drop_drop, hrest, List.drop_succ_cons, List.drop_zero]
    have harrived : arrived { s with loop } = s.arrived ++ [f] := by
      simp only [arrived, hdisp, List.length_append, List.length_singleton, List.take_add_one, hat,
        Option.toList_some, List.map_append, List.map_singleton]
    have hpending' : pending { s with loop } = rest.map Prod.snd := by
      simp only [pending, hdisp, List.length_append, List.length_singleton, hnext]
    refine .inr ⟨k, f, m, hat, hdisp, hdispatch, hcar, hdec, ?_, ?_, ?_, ha.within⟩
    · rw [harrived, hdisp]
      exact List.rel_append ha.carries (.cons hcar .nil)
    · rw [hpending', hnew]
      exact ReadLoop.Pending.new _ heap
    · rw [harrived, List.take_zero, List.append_nil, List.flatMap_append, List.flatMap_singleton]
      change s.stream.take s.delivered = _
      rw [ha.bytes, hbytes, List.take_append_of_le_length hnf, hrem, List.append_assoc,
        List.append_assoc, ← List.append_assoc (f.bytes.take n), List.take_append_drop]

/-- The loop goes on. -/
theorem Inv.round (h : Inv bound s) (hne : s.loop.remaining ≠ 0) {loop : ReadLoop Connection}
    (hit : s.loop.iterate Body.consume Connection.handlers = (loop, none)) :
    Inv bound { s with loop } := by
  obtain ⟨n, ha⟩ := h.aligned
  obtain ⟨hinv, hinput, hcase⟩ := ha.round h hne hit
  have hin : loop.input.length ≤ bound := by
    rw [hinput]
    exact h.input
  rcases hcase with ⟨hdisp, hconn, -, ha'⟩ | ⟨k, f, m, -, hdisp, hdispatch, -, -, ha'⟩
  · refine ⟨hinv, hin, ?_, ⟨_, ha'⟩, h.sizes, h.once, ?_⟩
    · rw [hconn, hdisp]
      exact h.responses
    · rw [hconn]
      exact h.frames
  · have heffect := Connection.dispatch_effect hdispatch
    refine ⟨hinv, hin, ?_, ⟨_, ha'⟩, h.sizes, h.once, ?_⟩
    · rw [heffect.responses, h.responses, hdisp]
    · intro x hx
      obtain ⟨g, hg, hstream⟩ := h.frames x hx
      exact ⟨g, hg.mono heffect.writes.1, hstream⟩

/-! ## Runs -/

/-- **The bytes and the messages agree** in every run. -/
theorem inv_of_reachable (h : (system bound).Reachable s) : Inv bound s := by
  refine h.invariant (I := Inv bound) ?_ ?_
  · rintro s ⟨⟨heap, heap', nullString, ssl, prepareCallback, hloop⟩, hwritten, hdelivered⟩
    have hloop' : ReadLoop.Inv s.loop := by
      rw [hloop]
      exact ⟨Message.waiting_new heap, le_rfl, le_rfl, rfl, by simp⟩
    refine ⟨hloop', ?_, ?_, ⟨0, ?_, ?_, ?_, ?_⟩, ?_, ?_, ?_⟩
    · rw [hloop]
      exact Nat.zero_le _
    · rw [hloop]
      rfl
    · rw [arrived, hwritten, hloop]
      exact .nil
    · rw [pending, hwritten, hloop]
      exact .idle heap
    · simp [hdelivered, hloop, arrived, hwritten, ReadLoop.left]
    · rw [hdelivered]
      exact Nat.zero_le _
    · simp [hwritten]
    · simp [answered, hwritten]
    · simp [hwritten]
  · rintro s a s' - h hstep
    cases a with
    | act a =>
      obtain ⟨hne, c, hperform, rfl⟩ := hstep
      exact h.act hne hperform
    | answer k f =>
      obtain ⟨⟨g, hk, hstream⟩, hsize, rfl⟩ := hstep
      exact h.answer hk hstream hsize
    | read n =>
      obtain ⟨hzero, hn, hle, rfl⟩ := hstep
      exact h.read hzero hn hle
    | round =>
      obtain ⟨hne, loop, hit, rfl⟩ := hstep
      exact h.round hne hit

/-- The answer that a round dispatches was not dispatched before. -/
theorem Inv.unanswered (h : Inv bound s) {k : ℕ} {f : Frame}
    (hat : s.written[s.loop.dispatched.length]? = some (k, f)) :
    ∃ g, s.loop.conn.Unanswered (s.answered.take s.loop.dispatched.length) k g ∧
      toInt8 f.stream.toNat = g.stream := by
  obtain ⟨g, hg, hstream⟩ := h.frames _ (List.mem_of_getElem? hat)
  refine ⟨g, ⟨hg, ?_⟩, hstream⟩
  intro hmem
  have hk : s.answered[s.loop.dispatched.length]? = some k := by
    rw [answered, List.getElem?_map, hat, Option.map_some]
  obtain ⟨i, hi, hget⟩ := List.getElem_of_mem hmem
  have hi' : i < s.loop.dispatched.length := by
    rw [List.length_take] at hi
    omega
  have hik : s.answered[i]? = some k := by
    rw [← List.getElem?_take_of_lt hi', List.getElem?_eq_getElem hi, hget]
  have hlt := (List.getElem?_eq_some_iff.1 hik).1
  have heq := (List.getElem?_inj hlt h.once).1 (hik.trans hk.symm)
  omega

/-- **Message by message, a connection at its socket is a connection with its server**:
    a round that dispatches is the answer to the frame that it was written for. -/
theorem refines_peers (bound : ℕ) : (system bound).Refines Peers.system peers where
  init s hinit := by
    obtain ⟨⟨heap, heap', nullString, ssl, prepareCallback, hloop⟩, hwritten, -⟩ := hinit
    refine ⟨⟨heap', nullString, ssl, prepareCallback, ?_⟩, ?_⟩
    · rw [peers, hloop]
    · simp [peers, answered, hwritten]
  step s a s' hs hstep := by
    have h := inv_of_reachable hs
    cases a with
    | act a =>
      obtain ⟨hne, c, hperform, rfl⟩ := hstep
      exact ⟨[.act a], .single ⟨hne, hperform, rfl⟩⟩
    | answer k f =>
      obtain ⟨-, -, rfl⟩ := hstep
      obtain ⟨n, ha⟩ := h.aligned
      have hle : s.loop.dispatched.length ≤ (s.written.map Prod.fst).length := by
        rw [List.length_map]
        exact ha.length_le
      have hpeers : peers { s with written := s.written ++ [(k, f)] } = s.peers := by
        simp only [peers, answered, List.map_append, List.take_append_of_le_length hle]
      rw [hpeers]
      exact ⟨[], .nil _⟩
    | read n =>
      obtain ⟨-, -, -, rfl⟩ := hstep
      exact ⟨[], .nil _⟩
    | round =>
      obtain ⟨hne, loop, hit, rfl⟩ := hstep
      obtain ⟨n, ha⟩ := h.aligned
      obtain ⟨-, -, hcase⟩ := ha.round h hne hit
      rcases hcase with ⟨hdisp, hconn, -, -⟩ | ⟨k, f, m, hat, hdisp, hdispatch, hcar, -, -⟩
      · refine ⟨[], ?_⟩
        have hpeers : peers { s with loop } = s.peers := by
          simp only [peers, answered, hdisp, hconn]
        rw [hpeers]
        exact .nil _
      · obtain ⟨g, hg, hstream⟩ := h.unanswered hat
        refine ⟨[.answer k m], .single ⟨⟨g, hg, hcar.stream.trans hstream⟩, hdispatch, ?_⟩⟩
        have hk : (s.written.map Prod.fst)[s.loop.dispatched.length]? = some k := by
          rw [List.getElem?_map, hat, Option.map_some]
        simp only [peers, answered, hdisp, List.length_append, List.length_singleton,
          List.take_add_one, hk, Option.toList_some]

/-! ## Bodies -/

/-- A buffer that ends behind these bytes ends inside no body. -/
def Uncut (frames : List Frame) (cut : ℕ) : Prop :=
  ∀ front f rest, frames = front ++ f :: rest →
    (front.flatMap Frame.bytes).length + cqlHeaderSize ≤ cut →
    (front.flatMap Frame.bytes).length + f.size ≤ cut

/-- libuv delivers no buffer that ends inside a body. -/
def Whole (s : Socket) : SocketAction → Prop
  | .read n => Uncut (s.written.map Prod.snd) (s.delivered + n)
  | _ => True

/-- What is written later is behind the bytes delivered. -/
theorem Uncut.concat {frames : List Frame} {cut : ℕ} (h : Uncut frames cut) (f : Frame)
    (hle : cut ≤ (frames.flatMap Frame.bytes).length) : Uncut (frames ++ [f]) cut := by
  intro front f' rest hsplit hcut
  rcases List.eq_nil_or_concat rest with rfl | ⟨rest, f'', rfl⟩
  · rw [List.append_inj_left' hsplit rfl] at hle
    rw [cqlHeaderSize] at hcut
    omega
  · rw [List.concat_eq_append, ← List.cons_append, ← List.append_assoc] at hsplit
    exact h front f' rest (List.append_inj_left' hsplit rfl) hcut

/-- Between two buffers, the message under way has no byte of its body. -/
theorem Aligned.lt_header {n : ℕ} (ha : s.Aligned n) (hnil : s.loop.left = [])
    (huncut : Uncut (s.written.map Prod.snd) s.delivered) : n < cqlHeaderSize := by
  have hlen := congrArg List.length ha.bytes
  rw [hnil, List.append_nil, List.length_take, List.length_append, List.length_take,
    Nat.min_eq_left ha.within, Nat.min_eq_left ha.underWay.le] at hlen
  rcases hpending : s.pending with _ | ⟨f, rest⟩
  · rw [ha.underWay.eq_zero hpending]
    decide
  · have hlt := ha.underWay.lt f rest hpending
    have hsplit : s.written.map Prod.snd = s.arrived ++ f :: rest := by
      rw [← hpending, arrived, pending, ← List.map_append, List.take_append_drop]
    by_contra hge
    have := huncut s.arrived f rest hsplit (by omega)
    omega

/-- The messages dispatched have the bodies written, and the header of the one under
    way is incomplete. -/
structure Faithful (s : Socket) : Prop where
  decoded : List.Forall₂ Decoded s.arrived s.loop.dispatched
  uncut : Uncut (s.written.map Prod.snd) s.delivered
  header : ∃ n, s.Aligned n ∧ n < cqlHeaderSize

/-- **Every body arrives as it was written** in a run whose buffers end inside none. -/
theorem faithful_of_reachable (h : ((system bound).restrict Whole).Reachable s) :
    Faithful s := by
  refine h.invariant (I := Faithful) ?_ ?_
  · intro s hinit
    have hreach : (system bound).Reachable s := .init hinit
    have ha := (inv_of_reachable hreach).aligned
    obtain ⟨⟨heap, heap', nullString, ssl, prepareCallback, hloop⟩, hwritten, hdelivered⟩ := hinit
    have huncut : Uncut (s.written.map Prod.snd) s.delivered := by
      intro front f rest hsplit
      rw [hwritten] at hsplit
      simp at hsplit
    have hnil : s.loop.left = [] := by simp [hloop, ReadLoop.left]
    obtain ⟨n, ha⟩ := ha
    refine ⟨?_, huncut, n, ha, ha.lt_header hnil huncut⟩
    rw [arrived, hwritten, hloop]
    exact .nil
  · rintro s a s' hs hf ⟨hwhole, hstep⟩
    have hinv := inv_of_reachable hs.of_restrict
    cases a with
    | act a =>
      obtain ⟨hne, c, hperform, rfl⟩ := hstep
      obtain ⟨n, ha, hn⟩ := hf.header
      exact ⟨hf.decoded, hf.uncut, n, ⟨ha.carries, ha.underWay, ha.bytes, ha.within⟩, hn⟩
    | answer k f =>
      obtain ⟨⟨g, hk, hstream⟩, hsize, rfl⟩ := hstep
      obtain ⟨n, ha, hn⟩ := hf.header
      have ha' := ha.answer k f
      refine ⟨?_, ?_, n, ha', hn⟩
      · have harrived : arrived { s with written := s.written ++ [(k, f)] } = s.arrived := by
          simp only [arrived, List.take_append_of_le_length ha.length_le]
        rw [harrived]
        exact hf.decoded
      · rw [List.map_append, List.map_singleton]
        exact hf.uncut.concat f ha.within
    | read n =>
      obtain ⟨hzero, hn, hle, rfl⟩ := hstep
      obtain ⟨m, ha, hm⟩ := hf.header
      exact ⟨hf.decoded, hwhole, m, ha.read hinv hzero hn hle, hm⟩
    | round =>
      obtain ⟨hne, loop, hit, rfl⟩ := hstep
      obtain ⟨n, ha, hn⟩ := hf.header
      obtain ⟨-, -, hcase⟩ := ha.round hinv hne hit
      rcases hcase with ⟨hdisp, -, hnil, ha'⟩ | ⟨k, f, m, hat, hdisp, -, -, hdec, ha'⟩
      · refine ⟨?_, hf.uncut, _, ha', ha'.lt_header hnil hf.uncut⟩
        simp only [arrived, hdisp]
        exact hf.decoded
      · refine ⟨?_, hf.uncut, 0, ha', by decide⟩
        have harrived : arrived { s with loop } = s.arrived ++ [f] := by
          simp only [arrived, hdisp, List.length_append, List.length_singleton,
            List.take_add_one, hat, Option.toList_some, List.map_append, List.map_singleton]
        rw [harrived, hdisp]
        exact List.rel_append hf.decoded (.cons (hdec hn) .nil)

/-! ## Answers -/

/-- The frames written are those of the answers. -/
def Speaks (s : Socket) (answers : List Answer) : Prop :=
  List.Forall₂ (fun x a => a.Fits ∧ x.2.opcode = a.opcode ∧ x.2.body = a.encode) s.written answers

theorem forall₂_getElem? {α β : Type} {R : α → β → Prop} {as : List α} {bs : List β}
    (h : List.Forall₂ R as bs) {j : ℕ} {a : α} {b : β} (ha : as[j]? = some a)
    (hb : bs[j]? = some b) : R a b := by
  induction h generalizing j with
  | nil => simp at ha
  | cons hab _ ih =>
    cases j with
    | zero =>
      cases ha
      cases hb
      exact hab
    | succ j => exact ih ha hb

/-- A decoded message says the answer whose frame it is. -/
theorem decoded_tells {f : Frame} {m : Message} {a : Answer} (h : Decoded f m) (ha : a.Fits)
    (hopcode : f.opcode = a.opcode) (hbody : f.body = a.encode) :
    ∃ b, m.body = some b ∧ a.ToldBy (m.bodyBuffer.take m.length.toNat) b := by
  obtain ⟨fresh, b, hallocate, hconsume, htells⟩ := Answer.consume_encode ha
  obtain ⟨fresh', b', ok, hallocate', hconsume', hm⟩ := h.body
  rw [hopcode, hallocate] at hallocate'
  obtain rfl := Option.some.inj (Except.ok.inj hallocate')
  rw [hbody, hconsume] at hconsume'
  obtain ⟨rfl, -⟩ := Prod.mk.inj (Except.ok.inj hconsume')
  refine ⟨b, hm, ?_⟩
  rw [h.buffer, hbody]
  exact htells.toldBy

/-- A message that says an answer is given to a request just if the answer is of a kind
    that is. -/
theorem releases_iff {m : Message} {a : Answer} {b : Body} {mem : List UInt8}
    (hopcode : m.opcode = a.opcode) (hm : m.body = some b) (htells : a.ToldBy mem b) :
    Releases m ↔ a.completesRequest = true := by
  have hbehind := htells.behind
  unfold Releases
  rw [hopcode, hm]
  cases a with
  | ready | error | supported =>
    simp [Answer.opcode, Answer.completesRequest, cqlOpcodeReady, cqlOpcodeError,
      cqlOpcodeSupported, cqlOpcodeResult]
  | void | rows | setKeyspace | prepared | schemaChange =>
    cases b with
    | result result =>
      simp only [Answer.Tells] at hbehind
      simp [Answer.opcode, Answer.completesRequest, hbehind, cqlResultKindVoid, cqlResultKindRows,
        cqlResultKindSetKeyspace, cqlResultKindPrepared, cqlResultKindSchemaChange]
    | _ => cases hbehind

/-- What was dispatched says what the server said, but for blank column entries; a request
    has its result just if it was answered by a kind that gives one; and when all bytes are
    read, everything written was dispatched. -/
structure Told (s : Socket) (answers : List Answer) : Prop where
  tells : ∀ (j : ℕ) (a : Answer) (m : Message), answers[j]? = some a →
    s.loop.conn.responses[j]? = some m →
    ∃ b, m.body = some b ∧ a.ToldBy (m.bodyBuffer.take m.length.toNat) b
  result : ∀ i j, s.loop.conn.ResultAt i j ↔ j < s.loop.conn.responses.length ∧
    ∃ k g a, s.answered[j]? = some k ∧ s.loop.conn.Frame k g ∧ g.request = .request i ∧
      answers[j]? = some a ∧ a.completesRequest = true
  all : s.loop.remaining = 0 → s.delivered = s.stream.length →
    s.loop.conn.responses.length = answers.length

/-- All of the frames have arrived when all of the bytes have. -/
theorem Aligned.pending_nil {n : ℕ} (ha : s.Aligned n) (hnil : s.loop.left = [])
    (hall : s.delivered = s.stream.length) : s.pending = [] := by
  have hlen := congrArg List.length ha.bytes
  rw [hnil, List.append_nil, hall, List.take_length, stream_split, List.length_append,
    List.length_append, List.length_take, Nat.min_eq_left ha.underWay.le] at hlen
  rcases hpending : s.pending with _ | ⟨f, rest⟩
  · rfl
  · have hlt := ha.underWay.lt f rest hpending
    rw [hpending, List.flatMap_cons, List.length_append, f.length_bytes] at hlen
    omega

section
variable (h : ((system bound).restrict Whole).Reachable s) {answers : List Answer}
  (hspeaks : s.Speaks answers)
include h hspeaks

/-- The message of an answer. -/
theorem message_tells {j : ℕ} {a : Answer} {m : Message} (hja : answers[j]? = some a)
    (hm : s.loop.conn.responses[j]? = some m) : m.opcode = a.opcode ∧
      ∃ b, m.body = some b ∧ a.ToldBy (m.bodyBuffer.take m.length.toNat) b := by
  have hinv := inv_of_reachable h.of_restrict
  obtain ⟨n, ha⟩ := hinv.aligned
  rw [hinv.responses] at hm
  have hj := (List.getElem?_eq_some_iff.1 hm).1
  have hjw : j < s.written.length := hj.trans_le ha.length_le
  have hat : s.written[j]? = some s.written[j] := List.getElem?_eq_getElem hjw
  have hsaid := forall₂_getElem? hspeaks hat hja
  have harr : s.arrived[j]? = some s.written[j].2 := by
    rw [arrived, List.getElem?_map, List.getElem?_take_of_lt hj, hat, Option.map_some]
  have hdec := forall₂_getElem? (faithful_of_reachable h).decoded harr hm
  have hcar := forall₂_getElem? ha.carries harr hm
  exact ⟨hcar.opcode.trans hsaid.2.1, decoded_tells hdec hsaid.1 hsaid.2.1 hsaid.2.2⟩

/-- The result of a request. -/
theorem result_iff (i j : ℕ) : s.loop.conn.ResultAt i j ↔ j < s.loop.conn.responses.length ∧
    ∃ k g a, s.answered[j]? = some k ∧ s.loop.conn.Frame k g ∧ g.request = .request i ∧
      answers[j]? = some a ∧ a.completesRequest = true := by
  have hinv := inv_of_reachable h.of_restrict
  have hexact : s.loop.conn.Exact (s.answered.take s.loop.dispatched.length) :=
    Peers.exact_of_reachable ((refines_peers bound).reachable h.of_restrict)
  obtain ⟨n, ha⟩ := hinv.aligned
  rw [hexact i j]
  constructor
  · rintro ⟨k, g, m, hk, hg, hreq, hm, hrel⟩
    have hj := (List.getElem?_eq_some_iff.1 hm).1
    have hjd : j < s.loop.dispatched.length := by rwa [← hinv.responses]
    rw [List.getElem?_take_of_lt hjd] at hk
    have hja : j < answers.length := by
      rw [← hspeaks.length_eq]
      exact hjd.trans_le ha.length_le
    have hat : answers[j]? = some answers[j] := List.getElem?_eq_getElem hja
    obtain ⟨hopcode, b, hb, htells⟩ := message_tells h hspeaks hat hm
    exact ⟨hj, k, g, _, hk, hg, hreq, hat, (releases_iff hopcode hb htells).1 hrel⟩
  · rintro ⟨hj, k, g, a, hk, hg, hreq, hja, hcompletes⟩
    have hm : s.loop.conn.responses[j]? = some s.loop.conn.responses[j] :=
      List.getElem?_eq_getElem hj
    have hjd : j < s.loop.dispatched.length := by rwa [← hinv.responses]
    obtain ⟨hopcode, b, hb, htells⟩ := message_tells h hspeaks hja hm
    refine ⟨k, g, _, ?_, hg, hreq, hm, (releases_iff hopcode hb htells).2 hcompletes⟩
    rw [List.getElem?_take_of_lt hjd]
    exact hk

/-- Everything written is dispatched when all of the bytes are read. -/
theorem length_responses (hzero : s.loop.remaining = 0) (hall : s.delivered = s.stream.length) :
    s.loop.conn.responses.length = answers.length := by
  have hinv := inv_of_reachable h.of_restrict
  obtain ⟨n, ha⟩ := hinv.aligned
  have hpending := ha.pending_nil (left_eq_nil hinv.loop hzero) hall
  rw [pending, List.map_eq_nil_iff, List.drop_eq_nil_iff] at hpending
  rw [hinv.responses, ← hspeaks.length_eq]
  exact Nat.le_antisymm ha.length_le hpending

/-- **From end to end**: in a run whose buffers end inside no body, what the server
    says is what the requests are told. -/
theorem told_of_reachable : s.Told answers where
  tells _ _ _ hja hm := (message_tells h hspeaks hja hm).2
  result := result_iff h hspeaks
  all := length_responses h hspeaks

end

/-! ## A query and its answer -/

/-- With a library that lets `exec` return: the query is sent, and nothing else has
    happened. -/
def asked : Socket where
  loop := {
    incomming := Message.new fun _ => 0
    conn := (Connection.perform (.exec queryMessage false) Connection.lenient).1 }
  written := []
  delivered := 0

/-- A RESULT of kind void on stream 1. -/
def voidFrame : Frame := Answer.void.frame 0x82 0 1 (by decide)

/-- The server has answered the query, and the loop has the whole answer. -/
def toldVoid : Socket := { asked with
  loop := asked.loop.start voidFrame.bytes
  written := [(0, voidFrame)]
  delivered := 12 }

theorem reachable_toldVoid : ((system 12).restrict Whole).Reachable toldVoid := by
  have h₀ : ((system 12).restrict Whole).Reachable
      { asked with loop := { asked.loop with conn := Connection.lenient } } :=
    .init ⟨⟨_, _, _, _, _, rfl⟩, rfl, rfl⟩
  have h₁ : ((system 12).restrict Whole).Reachable asked := by
    refine h₀.step (a := .act (.exec queryMessage false)) ⟨trivial, ?_, _, Prod.ext rfl rfl, rfl⟩
    intro message hm
    cases hm
  have h₂ : ((system 12).restrict Whole).Reachable { asked with written := [(0, voidFrame)] } :=
    h₁.step (a := .answer 0 voidFrame)
      ⟨trivial, ⟨_, ⟨rfl, by simp [answered, asked]⟩, by decide⟩, by decide, rfl⟩
  refine h₂.step (a := .read 12) ⟨?_, rfl, le_rfl, by decide, rfl⟩
  intro front f rest hsplit hcut
  rcases front with _ | ⟨f', front⟩
  · cases hsplit
    decide
  · simp at hsplit

/-- After one round the request is told that the query was done. -/
theorem told_void : ∃ s, ((system 12).restrict Whole).Reachable s ∧ s.Told [.void] ∧
    s.loop.conn.ResultAt 0 0 := by
  have hit : (toldVoid.loop.iterate Body.consume Connection.handlers).2 = none := by
    decide +kernel
  have hreach : ((system 12).restrict Whole).Reachable { toldVoid with
      loop := (toldVoid.loop.iterate Body.consume Connection.handlers).1 } :=
    reachable_toldVoid.step (a := .round)
      ⟨trivial, by decide, _, Prod.ext rfl hit, rfl⟩
  have hspeaks : Speaks { toldVoid with
      loop := (toldVoid.loop.iterate Body.consume Connection.handlers).1 } [.void] :=
    .cons ⟨trivial, rfl, rfl⟩ .nil
  have htold := told_of_reachable hreach hspeaks
  refine ⟨_, hreach, htold, (htold.result 0 0).2 ⟨?_, 0, _, .void, rfl, rfl, rfl, rfl, rfl⟩⟩
  decide +kernel

end Socket

end CqlClient
