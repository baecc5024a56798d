/-
  CqlClient formalization — frame synchronisation.

  The network delivers a sequence of frames in buffers of any sizes.
  `completed` is the splitter to compare the read loop with: the frames whose
  last byte is among the first `n` bytes.  After every buffer, the messages
  dispatched are those of the completed frames, and the message under way holds
  the bytes behind them (`dispatches_frames`).
-/
import CqlClient.LoopSafety

namespace CqlClient

open Word

/-! ## The splitter -/

/-- The frames whose last byte is among the first `n` bytes. -/
def completed : List Frame → ℕ → List Frame
  | [], _ => []
  | f :: frames, n => if f.size ≤ n then f :: completed frames (n - f.size) else []

/-- Up to all of its bytes, the splitter returns the frames. -/
theorem completed_append {front rest : List Frame} {n : ℕ}
    (hn : ∀ f frames, rest = f :: frames → n < f.size) (hnil : rest = [] → n = 0) :
    completed (front ++ rest) ((front.flatMap Frame.bytes).length + n) = front := by
  induction front with
  | nil =>
    cases rest with
    | nil => rfl
    | cons f rest =>
      have := hn f rest rfl
      simp only [List.nil_append, List.flatMap_nil, List.length_nil, Nat.zero_add, completed]
      rw [if_neg (by omega)]
  | cons f front ih =>
    simp only [List.cons_append, List.flatMap_cons, List.length_append, Frame.length_bytes,
      completed]
    rw [if_pos (by omega), show f.size + (front.flatMap Frame.bytes).length + n - f.size =
      (front.flatMap Frame.bytes).length + n by omega, ih]

/-- The message `m` is the frame `f`: it has the fields of its header, and its
    bytes are those of the frame. -/
structure Carries (f : Frame) (m : Message) : Prop where
  version : m.version = f.version
  flags : m.flags = toInt8 f.flags.toNat
  stream : m.stream = toInt8 f.stream.toNat
  opcode : m.opcode = f.opcode
  length : m.length = f.body.length
  copied : m.copied = f.bytes

/-- The bytes of the messages are those of the frames. -/
theorem flatMap_copied {frames : List Frame} {ms : List Message}
    (hc : List.Forall₂ Carries frames ms) :
    ms.flatMap Message.copied = frames.flatMap Frame.bytes := by
  induction hc with
  | nil => rfl
  | cons hm _ ih => rw [List.flatMap_cons, List.flatMap_cons, ih, hm.copied]

theorem prefix_drop_of_take_append {bs input : List UInt8} {n : ℕ}
    (hin : bs.take n ++ input <+: bs) : input <+: bs.drop n := by
  obtain ⟨t, ht⟩ := hin
  have h : bs.take n ++ (input ++ t) = bs.take n ++ bs.drop n := by
    rw [← List.append_assoc, ht, List.take_append_drop]
  exact ⟨t, List.append_cancel_left h⟩

/-- A message that took some bytes of the frame `f` is waiting. -/
theorem Message.Partial.waiting {f : Frame} {n : ℕ} {m : Message} (hm : m.Partial f n) :
    m.Waiting := by
  have hfits := f.fits
  have hlt := hm.lt
  have hsize : f.size = f.body.length + cqlHeaderSize := rfl
  refine ⟨hm.ready, by rw [hm.received]; omega, fun hrcv => ?_, fun hrcv => ?_⟩
  · rcases Nat.lt_or_ge n cqlHeaderSize with hn | hn
    · obtain ⟨-, hpos, -⟩ := hm.header hn
      rw [hm.received, hpos]
      exact ⟨by omega, .inl rfl⟩
    · rw [(hm.body hn).1.received] at hrcv
      cases hrcv
  · rcases Nat.lt_or_ge n cqlHeaderSize with hn | hn
    · rw [(hm.header hn).1] at hrcv
      cases hrcv
    · obtain ⟨hhdr, -⟩ := hm.body hn
      rw [Message.toInt32_received hm.received (by omega), hhdr.length, hhdr.opcode]
      exact ⟨by omega, by omega, by omega, hhdr.body⟩

namespace ReadLoop

section
variable (bodyConsume : List UInt8 → Body → Except Crash (Body × Bool)) (h : Handlers S)

/-- The buffers given to `consume` in order, up to a crash. -/
def consumeAll (st : ReadLoop S) : List (List UInt8) → ReadLoop S × Option Crash
  | [] => (st, none)
  | input :: inputs =>
    match st.consume bodyConsume h input with
    | (st, some e) => (st, some e)
    | (st, none) => consumeAll st inputs

/-- The stream of the frame is not negative, and its opcode has a case in the switch;
    `body->consume` returns on a buffer of its length, whatever is in it, and the handler
    returns. -/
structure Served (f : Frame) : Prop where
  stream : 0 ≤ toInt8 f.stream.toNat
  opcode : hasCase f.opcode = true
  body : ∀ buffer b, buffer.length = f.body.length → allocateBody f.opcode = .ok (some b) →
    ∃ r, bodyConsume buffer b = .ok r
  handler : ∀ message s, message.opcode = f.opcode → h.Returns message s

/-- The message under way in front of the frames `rest`, of which it took `n`
    bytes. -/
inductive Pending : List Frame → ℕ → Message → Prop where
  | idle (heap : Memory) : Pending [] 0 (Message.new heap)
  | frame {f : Frame} {rest : List Frame} {n : ℕ} {m : Message} (hm : m.Partial f n) :
    Pending (f :: rest) n m

theorem Pending.new (rest : List Frame) (heap : Memory) : Pending rest 0 (Message.new heap) := by
  cases rest with
  | nil => exact .idle heap
  | cons f rest => exact .frame (Message.partial_new f heap)

theorem Pending.waiting {rest : List Frame} {n : ℕ} {m : Message} (hm : Pending rest n m) :
    m.Waiting := by
  cases hm with
  | idle heap => exact Message.waiting_new heap
  | frame hm => exact hm.waiting

theorem Pending.partial_cons {f : Frame} {rest : List Frame} {n : ℕ} {m : Message}
    (hm : Pending (f :: rest) n m) : m.Partial f n := by
  cases hm
  assumption

theorem Pending.lt {rest : List Frame} {n : ℕ} {m : Message} (hm : Pending rest n m) (f : Frame)
    (frames : List Frame) (hrest : rest = f :: frames) : n < f.size := by
  subst hrest
  exact hm.partial_cons.lt

theorem Pending.eq_zero {rest : List Frame} {n : ℕ} {m : Message} (hm : Pending rest n m)
    (hrest : rest = []) : n = 0 := by
  subst hrest
  cases hm
  rfl

theorem Pending.le {rest : List Frame} {n : ℕ} {m : Message} (hm : Pending rest n m) :
    n ≤ (rest.flatMap Frame.bytes).length := by
  cases hm with
  | idle heap => exact le_rfl
  | frame hm =>
    have := hm.lt
    simp only [List.flatMap_cons, List.length_append, Frame.length_bytes]
    omega

/-- The bytes the message under way has copied. -/
theorem Pending.copied {rest : List Frame} {n : ℕ} {m : Message} (hm : Pending rest n m) :
    m.copied = (rest.flatMap Frame.bytes).take n := by
  cases hm with
  | idle heap => rfl
  | frame hm =>
    rw [hm.copied, List.flatMap_cons, List.take_append_of_le_length]
    rw [Frame.length_bytes]
    exact hm.lt.le

/-- `taken` bytes of the frames were taken: the frames in front are dispatched,
    and the handlers ran on their messages in order. -/
structure InSync (frames : List Frame) (conn : S) (taken : List UInt8) (st : ReadLoop S) :
    Prop where
  split : ∃ front rest n, frames = front ++ rest ∧ List.Forall₂ Carries front st.dispatched ∧
    Pending rest n st.incomming ∧
    taken = front.flatMap Frame.bytes ++ (rest.flatMap Frame.bytes).take n
  conn : st.conn = st.dispatched.foldl (fun s m => (h.dispatch m s).1) conn

variable {bodyConsume h} {st : ReadLoop S} {frames : List Frame} {conn : S}

/-- The dispatch of a served frame returns. -/
theorem dispatch_returns {f : Frame} {m : Message} (hserved : Served bodyConsume h f)
    (hm : Carries f m) (s : S) : ∃ s', h.dispatch m s = (s', none) := by
  have hd : (h.dispatch m s).2 = none := by
    unfold Handlers.dispatch
    rw [hm.opcode, if_neg (by rw [opcodeHasName_of_supported f.supported]; simp),
      if_neg (by rw [hm.stream]; exact Int.not_lt.2 hserved.stream)]
    exact Handlers.handle_returns (hm.opcode ▸ hserved.opcode) (hserved.handler m s hm.opcode)
  exact ⟨(h.dispatch m s).1, Prod.ext rfl hd⟩

/-- A round whose input ends the frame dispatches a message that carries it. -/
theorem iterate_dispatch {f : Frame} {n : ℕ} (hst : Inv st) (hm : st.incomming.Partial f n)
    (hserved : Served bodyConsume h f) (hin : f.bytes.drop n <+: st.left)
    (hov : n + st.left.length < 2 ^ 31) :
    ∃ m, Carries f m ∧ st.iterate bodyConsume h =
      ((st.delivered m (h.dispatch m st.conn).1).advance (f.size - n : ℕ), none) := by
  obtain ⟨m, hc, hhdr, -, hcop, -⟩ := Message.consume_complete bodyConsume hm hin hov
  obtain ⟨b, hb⟩ := allocateBody_ok f.supported
  have hmb : m.body = some b := by
    have halloc := hhdr.body
    rw [hb] at halloc
    exact (Except.ok.inj halloc).symm
  obtain ⟨⟨b', ok⟩, hbc⟩ := hserved.body (m.bodyBuffer.take m.length.toNat) b
    (by simp [hhdr.length]) hb
  rw [Message.decodeBody_ok _ hmb hbc] at hc
  have hcarries : Carries f (m.setBody b' ok) :=
    ⟨hhdr.version, hhdr.flags, hhdr.stream, hhdr.opcode, hhdr.length, hcop⟩
  refine ⟨m.setBody b' ok, hcarries, ?_⟩
  obtain ⟨s', hd⟩ := dispatch_returns hserved hcarries st.conn
  rw [iterate_ready hst.window hc rfl, hd]

/-- **One round in front of a served frame**: it takes all of the input, or the
    rest of the frame. -/
theorem iterate_frames {front rest : List Frame} {f : Frame} {n : ℕ} (hst : Inv st)
    (hdone : List.Forall₂ Carries front st.dispatched) (hm : st.incomming.Partial f n)
    (hconn : st.conn = st.dispatched.foldl (fun s m => (h.dispatch m s).1) conn)
    (hserved : Served bodyConsume h f) (hov : n + st.left.length < 2 ^ 31)
    (hleft : st.left <+: ((f :: rest).flatMap Frame.bytes).drop n) :
    ∃ (st' : ReadLoop S) (c : ℕ), st.iterate bodyConsume h = (st', none) ∧
      st'.input = st.input ∧ st'.buffer = st.buffer + c ∧ c ≤ st.left.length ∧
      InSync h (front ++ f :: rest) conn
        (front.flatMap Frame.bytes ++ ((f :: rest).flatMap Frame.bytes).take (n + c)) st' := by
  have hlt := hm.lt
  have hdrop : ((f :: rest).flatMap Frame.bytes).drop n =
      f.bytes.drop n ++ rest.flatMap Frame.bytes := by
    rw [List.flatMap_cons, List.drop_append_of_le_length (by rw [Frame.length_bytes]; exact hlt.le)]
  rw [hdrop] at hleft
  rcases Nat.lt_or_ge (n + st.left.length) f.size with h' | h'
  · -- all of the input belongs to the frame
    have hin : st.left <+: f.bytes.drop n :=
      List.prefix_of_prefix_length_le hleft (List.prefix_append _ _) (by simp; omega)
    obtain ⟨m, hc, hp⟩ := Message.consume_partial bodyConsume hm hin h'
    refine ⟨_, st.left.length, iterate_waiting hst.window hc hp.ready, rfl, rfl, le_rfl,
      ⟨front, f :: rest, n + st.left.length, rfl, hdone, .frame hp, rfl⟩, hconn⟩
  · -- the frame ends in the input
    have hin : f.bytes.drop n <+: st.left :=
      List.prefix_of_prefix_length_le (List.prefix_append _ _) hleft (by simp; omega)
    obtain ⟨m, hcar, hit⟩ := iterate_dispatch hst hm hserved hin hov
    refine ⟨_, f.size - n, hit, rfl, rfl, by omega,
      ⟨front ++ [f], rest, 0, by simp, ?_, Pending.new rest _, ?_⟩, ?_⟩
    · exact List.rel_append hdone (.cons hcar .nil)
    · rw [Nat.add_sub_cancel' hlt.le, List.flatMap_cons, List.take_left' f.length_bytes]
      simp
    · change (h.dispatch m st.conn).1 = (st.dispatched ++ [m]).foldl _ conn
      rw [List.foldl_append, ← hconn]
      rfl

/-- The frames are served, and the sizes of a frame and a buffer add up to less
    than `2 ^ 31`. -/
structure Network (bodyConsume : List UInt8 → Body → Except Crash (Body × Bool))
    (h : Handlers S) (frames : List Frame) (buffers : List (List UInt8)) : Prop where
  served : ∀ f ∈ frames, Served bodyConsume h f
  sums : ∀ f ∈ frames, ∀ b ∈ buffers, f.size + b.length < 2 ^ 31

/-- The loop between two rounds on the buffer `bytes`. -/
structure Synced (h : Handlers S) (frames : List Frame) (conn : S) (before bytes : List UInt8)
    (st : ReadLoop S) : Prop where
  inv : Inv st
  input : st.input = bytes
  sync : InSync h frames conn (before ++ bytes.take st.buffer.toNat) st

/-- **A round keeps the loop in step with the frames.** -/
theorem Synced.iterate {before bytes : List UInt8} {buffers : List (List UInt8)}
    (hst : Synced h frames conn before bytes st) (hnet : Network bodyConsume h frames buffers)
    (hmem : bytes ∈ buffers) (hpre : before ++ bytes <+: frames.flatMap Frame.bytes)
    (hne : st.remaining ≠ 0) :
    ∃ st', st.iterate bodyConsume h = (st', none) ∧ Synced h frames conn before bytes st' := by
  obtain ⟨hinv, hinput, ⟨front, rest, n, rfl, hdone, hpend, htaken⟩, hconn⟩ := hst
  have hlen := hinv.length_left
  have hbuf := hinv.buffer
  have hsum := hinv.sum
  have hleft : st.left = bytes.drop st.buffer.toNat := by
    rw [left, hinput, List.take_of_length_le]
    rw [List.length_drop, ← hinput]
    omega
  have htail : st.left <+: (rest.flatMap Frame.bytes).drop n := by
    rw [← List.take_append_drop st.buffer.toNat bytes, ← List.append_assoc, htaken,
      List.flatMap_append, ← hleft, List.append_assoc, List.prefix_append_right_inj] at hpre
    exact prefix_drop_of_take_append hpre
  rcases rest with _ | ⟨f, rest⟩
  · rw [List.flatMap_nil, List.drop_nil, List.prefix_nil] at htail
    rw [htail, List.length_nil] at hlen
    exact absurd hlen.symm hne
  · have hm := hpend.partial_cons
    have hsums := hnet.sums f (by simp) bytes hmem
    have hlt := hm.lt
    obtain ⟨st', c, hit, hinput', hbuf', hc, hsync⟩ := iterate_frames hinv hdone hm hconn
      (hnet.served f (by simp)) (by rw [hleft, List.length_drop]; omega) htail
    refine ⟨st', hit, ?_, hinput'.trans hinput, ?_⟩
    · rcases round_result bodyConsume h hinv hne with
        ⟨s, e, hit'⟩ | ⟨s, m', c', -, hit', hinv', -⟩
      · rw [hit] at hit'; cases hit'
      · rw [hit] at hit'; cases hit'
        exact hinv'
    · rw [List.take_add, ← take_eq_of_isPrefix htail hc, ← List.append_assoc, ← htaken, hleft,
        List.append_assoc, ← List.take_add] at hsync
      rw [show st'.buffer.toNat = st.buffer.toNat + c by omega]
      exact hsync

/-- **One buffer.** -/
theorem consume_inSync {before bytes : List UInt8} {buffers : List (List UInt8)}
    (hinv : Inv st) (hsync : InSync h frames conn before st)
    (hnet : Network bodyConsume h frames buffers) (hmem : bytes ∈ buffers)
    (hpre : before ++ bytes <+: frames.flatMap Frame.bytes) :
    ∃ st', st.consume bodyConsume h bytes = (st', none) ∧ Inv st' ∧
      InSync h frames conn (before ++ bytes) st' := by
  have hsize : bytes.length < 2 ^ 31 := by
    rcases frames with _ | ⟨f, frames⟩
    · have := hpre.length_le
      simp only [List.flatMap_nil, List.length_nil, List.length_append] at this
      omega
    · have := hnet.sums f (by simp) bytes hmem
      omega
  have hstart : Synced h frames conn before bytes (st.start bytes) :=
    ⟨hinv.start hsize, rfl, by simpa [start] using ⟨hsync.split, hsync.conn⟩⟩
  have hrounds : ∀ s, Rounds bodyConsume h (st.start bytes) s →
      Synced h frames conn before bytes s := by
    intro s hs
    induction hs with
    | refl => exact hstart
    | tail _ hstep ih =>
      obtain ⟨s', hit, hs'⟩ := ih.iterate hnet hmem hpre hstep.1
      rw [hstep.2] at hit
      cases hit
      exact hs'
  have hrem : (st.start bytes).remaining ≤ bytes.length := by
    have := hstart.inv.sum
    have := hstart.inv.buffer
    rw [hstart.input] at *
    omega
  rcases run_total bodyConsume h hstart.inv hrem with
    ⟨s, hrun, hs, hinv', hzero⟩ | ⟨s, s', e, -, hs, hne, hit⟩
  · refine ⟨s, by rw [consume, hrun]; rfl, hinv', ?_⟩
    have hsync' := (hrounds s hs).sync
    rwa [List.take_of_length_le] at hsync'
    have := hinv'.sum
    rw [(hrounds s hs).input] at this
    omega
  · obtain ⟨s'', hit', -⟩ := (hrounds s hs).iterate hnet hmem hpre hne
    rw [hit] at hit'
    cases hit'

/-- **Buffer after buffer.** -/
theorem consumeAll_inSync {before : List UInt8} {buffers inputs : List (List UInt8)}
    (hinv : Inv st) (hsync : InSync h frames conn before st)
    (hnet : Network bodyConsume h frames buffers) (hmem : ∀ b ∈ inputs, b ∈ buffers)
    (hpre : before ++ inputs.flatten <+: frames.flatMap Frame.bytes) :
    ∃ st', st.consumeAll bodyConsume h inputs = (st', none) ∧
      InSync h frames conn (before ++ inputs.flatten) st' := by
  induction inputs generalizing st before with
  | nil => exact ⟨st, rfl, by simpa using hsync⟩
  | cons bytes inputs ih =>
    rw [List.flatten_cons, ← List.append_assoc] at hpre ⊢
    obtain ⟨st₁, h₁, hinv₁, hsync₁⟩ := consume_inSync hinv hsync hnet (hmem bytes (by simp))
      ((List.prefix_append _ _).trans hpre)
    obtain ⟨st₂, h₂, hsync₂⟩ := ih hinv₁ hsync₁ (fun b hb => hmem b (by simp [hb])) hpre
    refine ⟨st₂, ?_, hsync₂⟩
    rw [consumeAll, h₁]
    exact h₂

/-- **Frame synchronisation.**  After the first `k` buffers, exactly the frames
    completed by them are dispatched, one message each and in order; the
    handlers ran on these messages in order; and the bytes taken are those of
    the messages dispatched and of the message under way. -/
theorem dispatches_frames (bodyConsume : List UInt8 → Body → Except Crash (Body × Bool))
    (h : Handlers S) (heap : Memory) (conn : S) (frames : List Frame)
    (buffers : List (List UInt8)) (hcat : buffers.flatten = frames.flatMap Frame.bytes)
    (hnet : Network bodyConsume h frames buffers) (k : ℕ) :
    ∃ st, ({ incomming := Message.new heap, conn } : ReadLoop S).consumeAll bodyConsume h
        (buffers.take k) = (st, none) ∧
      List.Forall₂ Carries (completed frames (buffers.take k).flatten.length) st.dispatched ∧
      st.conn = st.dispatched.foldl (fun s m => (h.dispatch m s).1) conn ∧
      st.dispatched.flatMap Message.copied ++ st.incomming.copied = (buffers.take k).flatten := by
  have hpre : [] ++ (buffers.take k).flatten <+: frames.flatMap Frame.bytes := by
    rw [List.nil_append, ← hcat]
    conv_rhs => rw [← List.take_append_drop k buffers, List.flatten_append]
    exact List.prefix_append _ _
  have hinv : Inv ({ incomming := Message.new heap, conn } : ReadLoop S) :=
    ⟨Message.waiting_new heap, le_rfl, le_rfl, rfl, by simp⟩
  have hstart : InSync h frames conn [] { incomming := Message.new heap, conn } :=
    ⟨⟨[], frames, 0, rfl, .nil, Pending.new frames heap, rfl⟩, rfl⟩
  obtain ⟨st, hrun, hsync⟩ := consumeAll_inSync hinv hstart hnet
    (fun b hb => List.mem_of_mem_take hb) hpre
  obtain ⟨⟨front, rest, n, rfl, hdone, hpend, htaken⟩, hconn⟩ := hsync
  rw [List.nil_append] at htaken
  refine ⟨st, hrun, ?_, hconn, ?_⟩
  · rw [htaken, List.length_append, List.length_take, Nat.min_eq_left hpend.le,
      completed_append hpend.lt hpend.eq_zero]
    exact hdone
  · rw [htaken, hpend.copied, flatMap_copied hdone]

end

/-- A READY frame on stream 1, with a body that the program does not look at. -/
def readyFrame (body : List UInt8) (fits : body.length + cqlHeaderSize < 2 ^ 31) : Frame where
  version := 0x82
  flags := 0
  stream := 1
  opcode := cqlOpcodeReady
  body := body
  supported := rfl
  fits := fits

theorem served_readyFrame (body : List UInt8) (fits : body.length + cqlHeaderSize < 2 ^ 31) :
    Served Body.consume idle (readyFrame body fits) where
  stream := show 0 ≤ toInt8 (1 : UInt8).toNat by decide
  body buffer b _ hb := by
    cases hb
    exact ⟨_, rfl⟩
  opcode := rfl
  handler _ _ _ := ⟨fun _ => rfl, fun _ => rfl, fun _ => rfl, fun _ => rfl⟩

/-- Two READY frames of 8 and 10 bytes, in buffers of 3, 0, 12 and 3 bytes: the
    third buffer ends the first frame. -/
theorem dispatches_frames_ready :
    ∃ st, ({ incomming := Message.new fun _ => 0, conn := () } : ReadLoop Unit).consumeAll
        Body.consume idle ([[0x82, 0, 1], [], [2, 0, 0, 0, 0, 0x82, 0, 1, 2, 0, 0, 0],
          [2, 7, 9]].take 3) = (st, none) ∧
      List.Forall₂ Carries [readyFrame [] (by decide)] st.dispatched ∧
      st.conn = st.dispatched.foldl (fun s m => (idle.dispatch m s).1) () ∧
      st.dispatched.flatMap Message.copied ++ st.incomming.copied =
        [0x82, 0, 1, 2, 0, 0, 0, 0, 0x82, 0, 1, 2, 0, 0, 0] :=
  dispatches_frames Body.consume idle (fun _ => 0) ()
    [readyFrame [] (by decide), readyFrame [7, 9] (by decide)]
    [[0x82, 0, 1], [], [2, 0, 0, 0, 0, 0x82, 0, 1, 2, 0, 0, 0], [2, 7, 9]] (by decide)
    { served := by
        simp only [List.mem_cons, List.not_mem_nil, or_false, forall_eq_or_imp, forall_eq]
        exact ⟨served_readyFrame _ _, served_readyFrame _ _⟩
      sums := by decide } 3

end ReadLoop

end CqlClient
