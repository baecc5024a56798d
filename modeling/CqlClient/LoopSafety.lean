/-
  CqlClient formalization — the read loop on arbitrary bytes.

  `Waiting` is the invariant of the message under way on any input; `received`
  is an `int32_t`, and the invariant allows for it to have wrapped.  One call of
  the parser on a waiting message does one of three things: the header it
  completes ends the process (`consume_malformed`), it takes the whole input
  (`consume_more`), or it takes the input up to the end of the frame and decodes
  the body (`consume_frame`).  The loop follows round by round.
-/
import CqlClient.ReadLoop

namespace CqlClient

open Word Wire

namespace Message

/-! ## What a call is about to read -/

section
variable (m : Message) (input : List UInt8)

/-- Byte `i` of the header, with the input behind what was received of it. -/
def headerByte (i : ℕ) : UInt8 := m.headerBuffer.store m.headerBufferPos input i

/-- The header is incomplete, and the input completes it. -/
def CompletesHeader : Prop :=
  m.headerReceived = false ∧ cqlHeaderSize ≤ toInt32 (m.received + input.length)

/-- The opcode of the frame, with the input. -/
def nextOpcode : UInt8 := if m.headerReceived then m.opcode else m.headerByte input 3

/-- The stream of the frame, with the input. -/
def nextStream : ℤ := if m.headerReceived then m.stream else toInt8 (m.headerByte input 2).toNat

/-- The length of the frame's body, with the input. -/
def nextLength : ℤ :=
  if m.headerReceived then m.length
  else toInt32 (ofBigEndian
    [m.headerByte input 4, m.headerByte input 5, m.headerByte input 6, m.headerByte input 7])

/-- The frame is incomplete, and the input completes it. -/
def CompletesFrame : Prop :=
  (m.headerReceived = true ∨ m.CompletesHeader input) ∧
    m.nextLength input ≤ toInt32 (toInt32 (m.received + input.length) - cqlHeaderSize)

/-- The bytes in the body buffer when the input completes the frame. -/
def nextBody : List UInt8 :=
  if m.headerReceived then
    (m.bodyBuffer.store m.bodyBufferPos
      (input.take (m.length - toInt32 (m.received - cqlHeaderSize)).toNat)).take m.length.toNat
  else (input.drop (cqlHeaderSize - m.received).toNat).take (m.nextLength input).toNat

/-- A header that the input completes has a supported opcode and a length that
    is not negative. -/
def HeaderFits : Prop :=
  m.CompletesHeader input →
    supportedOpcode (m.nextOpcode input) = true ∧ 0 ≤ m.nextLength input

end

/-! ## The message under way -/

/-- A message under way, on any input. -/
structure Waiting (m : Message) : Prop where
  ready : m.bodyReady = false
  range : -2 ^ 31 ≤ m.received ∧ m.received < 2 ^ 31
  header : m.headerReceived = false → m.received < cqlHeaderSize ∧
    (m.received = m.headerBufferPos ∨ cqlHeaderSize ≤ m.headerBufferPos)
  body : m.headerReceived = true → 0 ≤ m.length ∧ m.length < 2 ^ 31 ∧
    toInt32 (m.received - cqlHeaderSize) < m.length ∧ allocateBody m.opcode = .ok m.body

theorem waiting_new (heap : Memory) : Waiting (new heap) where
  ready := rfl
  range := by simp [new]
  header := fun _ => ⟨by simp [new, cqlHeaderSize], .inl rfl⟩
  body := fun h => absurd h (by simp [new])

section
variable (bodyConsume : List UInt8 → Body → Except Crash (Body × Bool))
variable {m : Message} {input : List UInt8}

/-- Bytes of the header that the missing ones complete. -/
theorem headerByte_eq (hm : Waiting m) (hrcv : m.headerReceived = false) {i : ℕ}
    (hi : i < cqlHeaderSize) (hlen : (cqlHeaderSize - m.received).toNat ≤ input.length) :
    m.headerBuffer.store m.headerBufferPos (input.take (cqlHeaderSize - m.received).toNat) i =
      m.headerByte input i := by
  obtain ⟨hlt, hpos⟩ := hm.header hrcv
  simp only [headerByte, Memory.store, List.length_take, Nat.min_eq_left hlen]
  rcases hpos with hpos | hpos
  · rcases Nat.lt_or_ge i m.headerBufferPos with h | h
    · rw [if_neg (by omega), if_neg (by omega)]
    · rw [if_pos (by omega), if_pos (by omega), List.getD_eq_getElem?_getD,
        List.getD_eq_getElem?_getD, List.getElem?_take_of_lt (by omega)]
  · rw [if_neg (by omega), if_neg (by omega)]

/-- The message when the input has completed its header. -/
def withHeader (m : Message) (input : List UInt8) : Message :=
  ((m.receive input.length).copyHeader
    (input.take (cqlHeaderSize - m.received).toNat)).parseHeader.startBody

/-- The fields read back from a header that the input completes. -/
theorem withHeader_spec (hm : Waiting m) (hrcv : m.headerReceived = false)
    (hlen : (cqlHeaderSize - m.received).toNat ≤ input.length) :
    (m.withHeader input).opcode = m.nextOpcode input ∧
      (m.withHeader input).stream = m.nextStream input ∧
      (m.withHeader input).length = m.nextLength input := by
  have hb : ∀ i < cqlHeaderSize, (m.receive input.length).headerBuffer.store
      (m.receive input.length).headerBufferPos
      (input.take (cqlHeaderSize - m.received).toNat) i = m.headerByte input i :=
    fun i hi => headerByte_eq hm hrcv hi hlen
  refine ⟨?_, ?_, ?_⟩
  · simp only [withHeader, startBody, parseHeader, copyHeader, nextOpcode, hrcv,
      Bool.false_eq_true, if_false]
    exact hb 3 (by decide)
  · simp only [withHeader, startBody, parseHeader, copyHeader, nextStream, hrcv,
      Bool.false_eq_true, if_false]
    rw [hb 2 (by decide)]
  · simp only [withHeader, startBody, parseHeader, copyHeader, nextLength, hrcv,
      Bool.false_eq_true, if_false]
    rw [hb 4 (by decide), hb 5 (by decide), hb 6 (by decide), hb 7 (by decide)]

/-- `received` does not wrap in a call that completes the header. -/
theorem received_of_completesHeader (hm : Waiting m) (hin : input.length < 2 ^ 31)
    (hc : m.CompletesHeader input) :
    toInt32 (m.received + input.length) = m.received + input.length ∧
      (cqlHeaderSize - m.received).toNat ≤ input.length := by
  obtain ⟨hrcv, hge⟩ := hc
  obtain ⟨hlt, -⟩ := hm.header hrcv
  obtain ⟨k, hk⟩ := toInt32_cong (m.received + input.length)
  have hrange := toInt32_range (m.received + input.length)
  have hmr := hm.range
  have hval : toInt32 (m.received + input.length) = m.received + input.length := by
    simp only [cqlHeaderSize] at *; omega
  exact ⟨hval, by omega⟩

/-- A call that completes the header: `readHeader` gets the missing bytes. -/
theorem consume_completesHeader (hm : Waiting m) (hin : input.length < 2 ^ 31)
    (hc : m.CompletesHeader input) {m' : Message} {r : Except Crash Bool}
    (hread : (m.receive input.length).readHeader input (cqlHeaderSize - m.received).toNat =
      (m', r)) :
    m.consume bodyConsume input =
      match r with
      | .error e => (m', .error e)
      | .ok false => (m', .ok (-1))
      | .ok true => m'.consumeBody bodyConsume input (cqlHeaderSize - m.received).toNat := by
  obtain ⟨hval, hlen⟩ := received_of_completesHeader hm hin hc
  obtain ⟨hrcv, hge⟩ := hc
  obtain ⟨hlt, -⟩ := hm.header hrcv
  have hneed : toSizeT ((input.length : ℤ) -
      toSizeT ((m.receive input.length).received - cqlHeaderSize)) =
        (cqlHeaderSize - m.received).toNat := by
    simp only [receive, hval]
    rw [show m.received + (input.length : ℤ) - cqlHeaderSize =
        ((m.received + input.length - cqlHeaderSize).toNat : ℕ) by omega,
      toSizeT_natCast (by omega),
      show (input.length : ℤ) - (m.received + input.length - cqlHeaderSize).toNat =
        ((cqlHeaderSize - m.received).toNat : ℕ) by omega]
    exact toSizeT_natCast (by omega)
  conv_lhs => unfold consume
  rw [if_neg (show ¬ (m.receive input.length).headerReceived = true by simp [receive, hrcv]),
    if_pos (show cqlHeaderSize ≤ (m.receive input.length).received from hge)]
  simp only [hneed, hread]
  rcases r with e | _ | _ <;> rfl

/-- **A malformed header ends the process.** -/
theorem consume_malformed (hm : Waiting m) (hin : input.length < 2 ^ 31)
    (hbad : ¬ m.HeaderFits input) : ∃ m' e, m.consume bodyConsume input = (m', .error e) := by
  simp only [HeaderFits, not_forall] at hbad
  obtain ⟨hc, hbad⟩ := hbad
  obtain ⟨-, hlen⟩ := received_of_completesHeader hm hin hc
  obtain ⟨hop, -, hl⟩ := withHeader_spec hm hc.1 hlen
  suffices h : ∃ m' e, (m.receive input.length).readHeader input
      (cqlHeaderSize - m.received).toNat = (m', .error e) by
    obtain ⟨m', e, h⟩ := h
    exact ⟨m', e, consume_completesHeader bodyConsume hm hin hc h⟩
  unfold readHeader
  rw [if_pos hlen]
  change ∃ m' e, (if (m.withHeader input).length < 0 then _ else _) = (m', Except.error e)
  by_cases hneg : (m.withHeader input).length < 0
  · rw [if_pos hneg]
    exact ⟨_, _, rfl⟩
  · rw [if_neg hneg]
    have huns : supportedOpcode (m.withHeader input).opcode = false := by
      rw [hop]
      by_contra hsup
      exact hbad ⟨by simpa using hsup, by rw [← hl]; omega⟩
    rw [show ((m.receive input.length).copyHeader (input.take (cqlHeaderSize -
      m.received).toNat)).parseHeader.startBody = m.withHeader input from rfl,
      allocateBody_error huns]
    exact ⟨_, _, rfl⟩

/-- The message `m₁` is at the body of the frame in the input, from `pos` on. -/
structure AtBody (m : Message) (input : List UInt8) (m₁ : Message) (pos : ℕ) : Prop where
  pos_le : pos ≤ input.length
  received : m₁.received = toInt32 (m.received + input.length)
  headerReceived : m₁.headerReceived = true
  opcode : m₁.opcode = m.nextOpcode input
  stream : m₁.stream = m.nextStream input
  length : m₁.length = m.nextLength input
  length_range : 0 ≤ m₁.length ∧ m₁.length < 2 ^ 31
  body : allocateBody m₁.opcode = .ok m₁.body
  ready : m₁.bodyReady = false
  copied : m₁.copied = m.copied ++ input.take pos
  /-- if the frame is complete: the bytes missing, and the body they make -/
  complete : m₁.length ≤ toInt32 (m₁.received - cqlHeaderSize) → ∃ needed : ℕ,
    toInt32 (m₁.received - cqlHeaderSize) + pos + needed = m₁.length + input.length ∧
    1 ≤ pos + needed ∧ pos + needed ≤ input.length ∧
    (m₁.bodyBuffer.store m₁.bodyBufferPos ((input.drop pos).take needed)).take m₁.length.toNat =
      m.nextBody input

/-- The header was complete before the call. -/
theorem atBody_receive (hm : Waiting m) (hin : input.length < 2 ^ 31)
    (hrcv : m.headerReceived = true) : AtBody m input (m.receive input.length) 0 := by
  obtain ⟨h₀, h₁, hlt, hbody⟩ := hm.body hrcv
  refine ⟨Nat.zero_le _, rfl, hrcv, ?_, ?_, ?_, ⟨h₀, h₁⟩, hbody, hm.ready, ?_, ?_⟩
  · simp [nextOpcode, hrcv, receive]
  · simp [nextStream, hrcv, receive]
  · simp [nextLength, hrcv, receive]
  · simp [copied, receive]
  · intro hle
    obtain ⟨k, hk⟩ := toInt32_cong (m.received - cqlHeaderSize)
    obtain ⟨k₁, hk₁⟩ := toInt32_cong (m.received + input.length)
    obtain ⟨k₂, hk₂⟩ := toInt32_cong ((m.receive input.length).received - cqlHeaderSize)
    have hr := toInt32_range (m.received - cqlHeaderSize)
    have hr₂ := toInt32_range ((m.receive input.length).received - cqlHeaderSize)
    have hrec : (m.receive input.length).received = toInt32 (m.received + input.length) := rfl
    have hlen : (m.receive input.length).length = m.length := rfl
    -- the sum of the bytes before and in the input has not wrapped: it would be negative
    have hsum : toInt32 ((m.receive input.length).received - cqlHeaderSize) =
        toInt32 (m.received - cqlHeaderSize) + input.length := by omega
    refine ⟨(m.length - toInt32 (m.received - cqlHeaderSize)).toNat, by omega, by omega,
      by omega, ?_⟩
    simp only [nextBody, hrcv, if_true, List.drop_zero]
    rfl

/-- What the completed header leaves as it was, and what it sets up. -/
theorem withHeader_frame (m : Message) (input : List UInt8) :
    (m.withHeader input).received = toInt32 (m.received + input.length) ∧
    (m.withHeader input).headerReceived = true ∧ (m.withHeader input).bodyBuffer = m.heap ∧
    (m.withHeader input).bodyBufferPos = 0 ∧ (m.withHeader input).bodyReady = m.bodyReady ∧
    (m.withHeader input).length < 2 ^ 31 ∧ (m.withHeader input).heap = m.heap ∧
    (m.withHeader input).copied = m.copied ++ input.take (cqlHeaderSize - m.received).toNat := by
  refine ⟨rfl, rfl, rfl, rfl, rfl, ?_, rfl, ?_⟩
  · simp only [withHeader, startBody, parseHeader]
    exact (toInt32_range _).2
  · simp only [copied, withHeader, startBody, parseHeader, copyHeader, receive,
      List.flatMap_append, List.flatMap_singleton]

/-- The header is completed in the call. -/
theorem atBody_readHeader (hm : Waiting m) (hin : input.length < 2 ^ 31)
    (hc : m.CompletesHeader input) (hfit : m.HeaderFits input) :
    ∃ m₁, m.consume bodyConsume input =
        m₁.consumeBody bodyConsume input (cqlHeaderSize - m.received).toNat ∧
      m₁.heap = m.heap ∧ AtBody m input m₁ (cqlHeaderSize - m.received).toNat := by
  obtain ⟨hval, hlen⟩ := received_of_completesHeader hm hin hc
  obtain ⟨hop, hst, hl⟩ := withHeader_spec hm hc.1 hlen
  obtain ⟨hsup, hnn⟩ := hfit hc
  obtain ⟨hlt, -⟩ := hm.header hc.1
  obtain ⟨b, hb⟩ := allocateBody_ok hsup
  obtain ⟨hrec, hhr, hbuf, hbpos, hready, hmax, hheap, hcop⟩ :=
    withHeader_frame m input
  have hread := readHeader_ok (m := m.receive input.length) hlen
    (show 0 ≤ (m.withHeader input).length by rw [hl]; exact hnn)
    (show allocateBody (m.withHeader input).opcode = _ by rw [hop]; exact hb)
  refine ⟨_, consume_completesHeader bodyConsume hm hin hc hread, ?_⟩
  rw [show ((m.receive input.length).copyHeader (input.take (cqlHeaderSize -
    m.received).toNat)).parseHeader.startBody = m.withHeader input from rfl]
  generalize m.withHeader input = m₁ at *
  refine ⟨hheap, hlen, hrec, hhr, hop, hst, hl, ⟨hl ▸ hnn, hmax⟩, hop ▸ hb,
    hready.trans hm.ready, hcop, ?_⟩
  simp only [hrec, hbuf, hbpos, hval]
  rw [toInt32_eq (x := m.received + input.length - cqlHeaderSize)
    (by have := hc.2; omega) (by have := toInt32_range (m.received + input.length); omega)]
  intro hle
  refine ⟨(m.nextLength input).toNat, by omega, by omega, by omega, ?_⟩
  have hstore := m.heap.take_store 0
    ((input.drop (cqlHeaderSize - m.received).toNat).take (m.nextLength input).toNat)
  rw [List.length_take, List.length_drop, Nat.min_eq_left (by omega), Nat.zero_add,
    Memory.take_zero, List.nil_append] at hstore
  rw [hl, hstore]
  simp only [nextBody, hc.1, Bool.false_eq_true, if_false]

/-- A call that gets to the body: behind the header it completes, or behind the
    one received before. -/
theorem consume_atBody (hm : Waiting m) (hin : input.length < 2 ^ 31)
    (hfit : m.HeaderFits input) (h : m.headerReceived = true ∨ m.CompletesHeader input) :
    ∃ m₁ pos, m.consume bodyConsume input = m₁.consumeBody bodyConsume input pos ∧
      m₁.heap = m.heap ∧ AtBody m input m₁ pos := by
  rcases h with hrcv | hc
  · refine ⟨m.receive input.length, 0, ?_, rfl, atBody_receive hm hin hrcv⟩
    conv_lhs => unfold consume
    rw [if_pos (show (m.receive input.length).headerReceived = true from hrcv)]
  · obtain ⟨m₁, h₁, hheap, hat⟩ := atBody_readHeader bodyConsume hm hin hc hfit
    exact ⟨m₁, _, h₁, hheap, hat⟩

/-- **The frame does not end in the input**: the whole input is taken. -/
theorem consume_more (hm : Waiting m) (hin : input.length < 2 ^ 31)
    (hfit : m.HeaderFits input) (hf : ¬ m.CompletesFrame input) :
    ∃ m', m.consume bodyConsume input = (m', .ok input.length) ∧ Waiting m' ∧
      m'.heap = m.heap ∧ m'.copied = m.copied ++ input := by
  by_cases h : m.headerReceived = true ∨ m.CompletesHeader input
  · -- the body is incomplete
    obtain ⟨m₁, pos, hc, hheap, hat⟩ := consume_atBody bodyConsume hm hin hfit h
    have hlt : toInt32 (m₁.received - cqlHeaderSize) < m₁.length := by
      rw [hat.length, hat.received]
      exact Int.not_le.1 fun hle => hf ⟨h, hle⟩
    refine ⟨m₁.copyBody (input.drop pos) input.length, ?_, ⟨hat.ready, ?_, ?_, ?_⟩, hheap, ?_⟩
    · rw [hc, consumeBody_short bodyConsume hlt hin]
    · simp only [copyBody, hat.received]
      exact toInt32_range _
    · intro hn
      rw [show (m₁.copyBody (input.drop pos) input.length).headerReceived = m₁.headerReceived from
        rfl, hat.headerReceived] at hn
      cases hn
    · exact fun _ => ⟨hat.length_range.1, hat.length_range.2, hlt, hat.body⟩
    · rw [copied_copyBody, hat.copied, List.append_assoc, List.take_append_drop]
  · -- the header is incomplete
    rw [not_or] at h
    obtain ⟨hrcv, hc⟩ := h
    rw [Bool.not_eq_true] at hrcv
    obtain ⟨hlt, hpos⟩ := hm.header hrcv
    have hlt' : toInt32 (m.received + input.length) < cqlHeaderSize :=
      Int.not_le.1 fun hle => hc ⟨hrcv, hle⟩
    refine ⟨(m.receive input.length).copyHeader input, ?_, ⟨hm.ready, toInt32_range _, ?_, ?_⟩,
      rfl, ?_⟩
    · conv_lhs => unfold consume
      rw [if_neg (show ¬ (m.receive input.length).headerReceived = true by simp [receive, hrcv]),
        if_neg (show ¬ (cqlHeaderSize : ℤ) ≤ (m.receive input.length).received from
          Int.not_le.2 hlt'), toInt32_eq (x := input.length) (by omega) (by omega)]
    · intro _
      obtain ⟨k, hk⟩ := toInt32_cong (m.received + input.length)
      have hr := toInt32_range (m.received + input.length)
      refine ⟨hlt', ?_⟩
      simp only [copyHeader, receive]
      simp only [cqlHeaderSize] at *
      omega
    · intro hn
      rw [show ((m.receive input.length).copyHeader input).headerReceived = m.headerReceived from
        rfl, hrcv] at hn
      cases hn
    · rw [copied_copyHeader]; rfl

/-- **The frame ends in the input**: what belongs to it is taken, and the body
    is decoded. -/
theorem consume_frame (hm : Waiting m) (hin : input.length < 2 ^ 31)
    (hfit : m.HeaderFits input) (hf : m.CompletesFrame input) :
    ∃ (m' : Message) (c : ℕ), m.consume bodyConsume input = m'.decodeBody bodyConsume c ∧ 1 ≤ c ∧
      c ≤ input.length ∧ m'.copied = m.copied ++ input.take c ∧
      m'.opcode = m.nextOpcode input ∧ m'.stream = m.nextStream input ∧
      allocateBody (m.nextOpcode input) = .ok m'.body ∧ m'.heap = m.heap ∧
      m'.bodyBuffer.take m'.length.toNat = m.nextBody input := by
  obtain ⟨m₁, pos, hc, hheap, hat⟩ := consume_atBody bodyConsume hm hin hfit hf.1
  obtain ⟨needed, hneed, hone, hle, hbody⟩ := hat.complete (by
    rw [hat.length, hat.received]
    exact hf.2)
  refine ⟨m₁.copyBody ((input.drop pos).take needed) needed, pos + needed, ?_, hone, hle, ?_,
    hat.opcode, hat.stream, hat.opcode ▸ hat.body, hheap, hbody⟩
  · rw [hc, consumeBody_complete bodyConsume needed hat.length_range.1 hneed hle hin]
  · rw [copied_copyBody, hat.copied, List.append_assoc, ← List.take_add]

/-- `body->consume` returns on the body that the input completes. -/
def BodyReturns (m : Message) (input : List UInt8) : Prop :=
  ∀ b, allocateBody (m.nextOpcode input) = .ok (some b) →
    ∃ r, bodyConsume (m.nextBody input) b = .ok r

/-- **Exactly when a call of the parser returns.** -/
theorem consume_returns_iff (hm : Waiting m) (hin : input.length < 2 ^ 31) :
    (∃ m' c, m.consume bodyConsume input = (m', .ok c)) ↔
      m.HeaderFits input ∧ (m.CompletesFrame input → BodyReturns bodyConsume m input) := by
  by_cases hfit : m.HeaderFits input
  swap
  · obtain ⟨m', e, h⟩ := consume_malformed bodyConsume hm hin hfit
    simp [h, hfit]
  by_cases hf : m.CompletesFrame input
  swap
  · obtain ⟨m', h, -⟩ := consume_more bodyConsume hm hin hfit hf
    simp [h, hfit, hf]
  obtain ⟨m', c, h, -, -, -, -, -, halloc, -, hbuf⟩ := consume_frame bodyConsume hm hin hfit hf
  obtain ⟨b, hb⟩ := allocateBody_ok (supported_of_allocateBody halloc)
  have hmb : m'.body = some b := by
    rw [hb] at halloc
    exact (Except.ok.inj halloc).symm
  simp only [hfit, hf, true_and, forall_true_left, BodyReturns, hb, Except.ok.injEq,
    Option.some.injEq, forall_eq', h]
  rcases hbc : bodyConsume (m.nextBody input) b with e | ⟨b', ok⟩
  · rw [decodeBody_error c hmb (hbuf ▸ hbc)]
    simp
  · rw [decodeBody_ok c hmb (hbuf ▸ hbc)]
    simp

end

end Message

/-! ## The loop -/

namespace ReadLoop

section
variable (bodyConsume : List UInt8 → Body → Except Crash (Body × Bool)) (h : Handlers S)

/-- What the loop does between its rounds: nothing, or what `system` allows. -/
inductive Event (S : Type) where
  /-- a buffer from the network -/
  | buffer (input : List UInt8)
  /-- anything else that happens to the connection -/
  | other (conn : S)
  /-- a round of the loop -/
  | round

/-- The runs of the read loop on buffers below `2 ^ 31` bytes. -/
def system : System (ReadLoop S) (Event S) where
  init st := ∃ heap conn, st = { incomming := Message.new heap, conn }
  step st e st' :=
    match e with
    | .buffer input => st.remaining = 0 ∧ input.length < 2 ^ 31 ∧ st' = st.start input
    | .other conn => st.remaining = 0 ∧ st' = { st with conn }
    | .round => st.remaining ≠ 0 ∧ st.iterate bodyConsume h = (st', none)

/-- The rounds from a state on. -/
def Rounds : ReadLoop S → ReadLoop S → Prop :=
  Relation.ReflTransGen fun st st' => st.remaining ≠ 0 ∧ st.iterate bodyConsume h = (st', none)

/-- The round is safe: the call returns a count in range, having copied that
    many bytes of the input, or an error; and the loop goes on, with the cursor
    not moved back and `remaining` not increased. -/
def RoundSafe (st : ReadLoop S) : Prop :=
  ∃ m c, st.incomming.consume bodyConsume st.left = (m, .ok c) ∧
    (c < 0 ∨ 1 ≤ c ∧ c ≤ st.remaining ∧
      m.copied = st.incomming.copied ++ st.left.take c.toNat) ∧
    ∃ st', st.iterate bodyConsume h = (st', none) ∧ st.buffer ≤ st'.buffer ∧
      st'.remaining ≤ st.remaining

/-- Every round is safe, and the loop ends. -/
structure LoopSafe (st : ReadLoop S) : Prop where
  rounds : ∀ st', Rounds bodyConsume h st st' → st'.remaining ≠ 0 → RoundSafe bodyConsume h st'
  ends : ∃ fuel st', st.run bodyConsume h fuel = some (st', none)

/-- What a round needs: a header that it completes has a supported opcode and a
    length that is not negative; for a frame that it completes, the stream is not
    negative, the opcode has a case in the switch, and `body->consume` and the
    handler return. -/
structure Fits (st : ReadLoop S) : Prop where
  header : st.incomming.HeaderFits st.left
  frame : st.incomming.CompletesFrame st.left →
    0 ≤ st.incomming.nextStream st.left ∧ hasCase (st.incomming.nextOpcode st.left) = true ∧
    ∃ b b' ok, allocateBody (st.incomming.nextOpcode st.left) = .ok (some b) ∧
      bodyConsume (st.incomming.nextBody st.left) b = .ok (b', ok) ∧
      ∀ message : Message, message.opcode = st.incomming.nextOpcode st.left →
        message.stream = st.incomming.nextStream st.left → message.body = some b' →
        h.Returns message st.conn

/-- The invariant of the loop. -/
structure Inv (st : ReadLoop S) : Prop where
  waiting : st.incomming.Waiting
  buffer : 0 ≤ st.buffer
  remaining : 0 ≤ st.remaining
  sum : st.buffer + st.remaining = st.input.length
  size : st.input.length < 2 ^ 31

variable {bodyConsume h} {st : ReadLoop S}

theorem Inv.window (hst : Inv st) : st.window = some st.left :=
  if_pos ⟨hst.buffer, hst.remaining, hst.sum.le⟩

theorem Inv.length_left (hst : Inv st) : (st.left.length : ℤ) = st.remaining := by
  obtain ⟨-, hb, hr, hs, -⟩ := hst
  simp only [left, List.length_take, List.length_drop]
  omega

theorem Inv.start (hst : Inv st) {input : List UInt8} (hin : input.length < 2 ^ 31) :
    Inv (st.start input) := by
  have hr : toInt32 (input.length : ℤ) = input.length := toInt32_eq (by omega) (by omega)
  refine ⟨hst.waiting, le_rfl, ?_, ?_, hin⟩ <;> simp only [ReadLoop.start, hr] <;> omega

/-- The loop with another message under way, moved on by `c`. -/
theorem Inv.advance (hst : Inv st) (st' : ReadLoop S) (c : ℤ) (hw : st'.incomming.Waiting)
    (hi : st'.input = st.input) (hb : st'.buffer = st.buffer) (hr : st'.remaining = st.remaining)
    (h₀ : 1 ≤ c) (h₁ : c ≤ st.remaining) :
    Inv (st'.advance c) ∧ (st'.advance c).remaining = st.remaining - c ∧
      (st'.advance c).buffer = st.buffer + c := by
  obtain ⟨-, hb₀, hr₀, hs, hsize⟩ := hst
  have hrem : (st'.advance c).remaining = st.remaining - c := by
    simp only [ReadLoop.advance, hr]
    exact toInt32_eq (by omega) (by omega)
  have hbuf : (st'.advance c).buffer = st.buffer + c := by simp only [ReadLoop.advance, hb]
  have hinp : (st'.advance c).input = st.input := hi
  exact ⟨⟨hw, by omega, by omega, by rw [hrem, hbuf, hinp]; omega, by rwa [hinp]⟩, hrem, hbuf⟩

/-- What a round can do: end the process, or take `c` bytes, at least one. -/
inductive RoundResult (bodyConsume : List UInt8 → Body → Except Crash (Body × Bool))
    (h : Handlers S) (st : ReadLoop S) : Prop where
  | crash (st' : ReadLoop S) (e : Crash) (hit : st.iterate bodyConsume h = (st', some e))
  | took (st' : ReadLoop S) (m : Message) (c : ℤ)
    (hc : st.incomming.consume bodyConsume st.left = (m, .ok c))
    (hit : st.iterate bodyConsume h = (st', none)) (hinv : Inv st') (h₀ : 1 ≤ c)
    (h₁ : c ≤ st.remaining)
    (hcop : m.copied = st.incomming.copied ++ st.left.take c.toNat)
    (hrem : st'.remaining = st.remaining - c) (hbuf : st'.buffer = st.buffer + c)

/-- A round whose input does not end the frame. -/
theorem iterate_more (hst : Inv st) (hfit : st.incomming.HeaderFits st.left)
    (hf : ¬ st.incomming.CompletesFrame st.left) :
    ∃ m, st.incomming.consume bodyConsume st.left = (m, .ok st.remaining) ∧ m.Waiting ∧
      m.copied = st.incomming.copied ++ st.left ∧
      st.iterate bodyConsume h =
        (({ st with incomming := m } : ReadLoop S).advance st.remaining, none) := by
  have hlen := hst.length_left
  have hsize := hst.size
  have hsum := hst.sum
  have hbuf := hst.buffer
  obtain ⟨m, hc, hw, -, hcop⟩ :=
    Message.consume_more bodyConsume hst.waiting (by omega) hfit hf
  rw [hlen] at hc
  exact ⟨m, hc, hw, hcop, iterate_waiting hst.window hc hw.ready⟩

/-- A round whose input ends the frame, when `body->consume` returns. -/
theorem iterate_frame (hst : Inv st) (hfit : st.incomming.HeaderFits st.left)
    (hf : st.incomming.CompletesFrame st.left) {b b' : Body} {ok : Bool}
    (hb : allocateBody (st.incomming.nextOpcode st.left) = .ok (some b))
    (hbc : bodyConsume (st.incomming.nextBody st.left) b = .ok (b', ok)) :
    ∃ (m : Message) (c : ℕ), st.incomming.consume bodyConsume st.left = (m, .ok c) ∧ 1 ≤ c ∧
      (c : ℤ) ≤ st.remaining ∧ m.copied = st.incomming.copied ++ st.left.take c ∧
      m.opcode = st.incomming.nextOpcode st.left ∧
      m.stream = st.incomming.nextStream st.left ∧ m.body = some b' ∧
      st.iterate bodyConsume h =
        match h.dispatch m st.conn with
        | (conn, some e) => (st.delivered m conn, some e)
        | (conn, none) => ((st.delivered m conn).advance c, none) := by
  have hlen := hst.length_left
  have hsize := hst.size
  have hsum := hst.sum
  have hbuf := hst.buffer
  obtain ⟨m, c, hc, h₀, h₁, hcop, hop, hstr, halloc, -, hbody⟩ :=
    Message.consume_frame bodyConsume hst.waiting (by omega) hfit hf
  have hmb : m.body = some b := by
    rw [hb] at halloc
    exact (Except.ok.inj halloc).symm
  rw [Message.decodeBody_ok c hmb (hbody ▸ hbc)] at hc
  exact ⟨m.setBody b' ok, c, hc, h₀, by omega, hcop, hop, hstr, rfl,
    iterate_ready hst.window hc rfl⟩

/-- **A round** ends the process or takes at least one byte. -/
theorem round_result (bodyConsume : List UInt8 → Body → Except Crash (Body × Bool))
    (h : Handlers S) (hst : Inv st) (hne : st.remaining ≠ 0) :
    RoundResult bodyConsume h st := by
  have hlen := hst.length_left
  have hr₀ := hst.remaining
  by_cases hret : ∃ m c, st.incomming.consume bodyConsume st.left = (m, .ok c)
  swap
  · rcases hc : st.incomming.consume bodyConsume st.left with ⟨m, e | c⟩
    · refine .crash { st with incomming := m } e ?_
      simp only [iterate, hst.window, hc]
    · exact absurd ⟨m, c, hc⟩ hret
  have hin : st.left.length < 2 ^ 31 := by
    have := hst.size; have := hst.sum; have := hst.buffer; omega
  obtain ⟨hfit, hbody⟩ :=
    (Message.consume_returns_iff bodyConsume hst.waiting hin).1 hret
  by_cases hf : st.incomming.CompletesFrame st.left
  · obtain ⟨m₀, -, -, -, -, -, -, -, halloc, -⟩ :=
      Message.consume_frame bodyConsume hst.waiting hin hfit hf
    obtain ⟨b, hb⟩ := allocateBody_ok (supported_of_allocateBody halloc)
    obtain ⟨⟨b', ok⟩, hbc⟩ := hbody hf b hb
    obtain ⟨m, c, hc, h₀, h₁, hcop, -, -, -, hit⟩ := iterate_frame (h := h) hst hfit hf hb hbc
    rcases hd : h.dispatch m st.conn with ⟨conn, _ | e⟩
    · rw [hd] at hit
      obtain ⟨hinv, hrem, hbuf⟩ := hst.advance (st.delivered m conn) c
        (Message.waiting_new _) rfl rfl rfl (by omega) h₁
      exact .took _ m c hc hit hinv (by omega) h₁ (by simpa using hcop) hrem hbuf
    · rw [hd] at hit
      exact .crash _ e hit
  · obtain ⟨m, hc, hw, hcop, hit⟩ := iterate_more (h := h) hst hfit hf
    obtain ⟨hinv, hrem, hbuf⟩ :=
      hst.advance { st with incomming := m } st.remaining hw rfl rfl rfl (by omega) le_rfl
    refine .took _ m st.remaining hc hit hinv (by omega) le_rfl ?_ hrem hbuf
    rw [hcop, List.take_of_length_le (by omega)]

/-- A round that fits does not end the process. -/
theorem not_crash_of_fits (hst : Inv st) (hfits : Fits bodyConsume h st) :
    (st.iterate bodyConsume h).2 = none := by
  by_cases hf : st.incomming.CompletesFrame st.left
  · obtain ⟨hstream, hcase, b, b', ok, hb, hbc, hret⟩ := hfits.frame hf
    obtain ⟨m, c, -, -, -, -, hop, hstr, hmb, hit⟩ :=
      iterate_frame (h := h) hst hfits.header hf hb hbc
    have hname : opcodeHasName m.opcode = true :=
      opcodeHasName_of_supported (hop ▸ supported_of_allocateBody hb)
    have hd : (h.dispatch m st.conn).2 = none := by
      unfold Handlers.dispatch
      rw [if_neg (by rw [hname]; simp), if_neg (by rw [hstr]; omega)]
      exact Handlers.handle_returns (hop ▸ hcase) (hret m hop hstr hmb)
    rcases hdis : h.dispatch m st.conn with ⟨conn, _ | e⟩
    · rw [hit, hdis]
    · rw [hdis] at hd; cases hd
  · obtain ⟨m, -, -, -, hit⟩ := iterate_more (h := h) hst hfits.header hf
    rw [hit]

theorem run_done {fuel : ℕ} (hr : st.remaining = 0) :
    st.run bodyConsume h fuel = some (st, none) := by
  cases fuel <;> rw [run, if_pos hr]

theorem run_crash {fuel : ℕ} {st' : ReadLoop S} {e : Crash} (hr : st.remaining ≠ 0)
    (hit : st.iterate bodyConsume h = (st', some e)) :
    st.run bodyConsume h (fuel + 1) = some (st', some e) := by
  rw [run, if_neg hr]
  simp only [hit]

theorem run_round {fuel : ℕ} {st' : ReadLoop S} (hr : st.remaining ≠ 0)
    (hit : st.iterate bodyConsume h = (st', none)) :
    st.run bodyConsume h (fuel + 1) = st'.run bodyConsume h fuel := by
  rw [run, if_neg hr]
  simp only [hit]

/-- **The loop ends**, with nothing remaining or in a round that ends the process:
    one round a byte suffices. -/
theorem run_total (bodyConsume : List UInt8 → Body → Except Crash (Body × Bool))
    (h : Handlers S) (hst : Inv st) {fuel : ℕ} (hfuel : st.remaining ≤ fuel) :
    (∃ st', st.run bodyConsume h fuel = some (st', none) ∧ Rounds bodyConsume h st st' ∧
      Inv st' ∧ st'.remaining = 0) ∨
    ∃ s st' e, st.run bodyConsume h fuel = some (st', some e) ∧ Rounds bodyConsume h st s ∧
      s.remaining ≠ 0 ∧ s.iterate bodyConsume h = (st', some e) := by
  induction fuel generalizing st with
  | zero =>
    have hr : st.remaining = 0 := by have := hst.remaining; omega
    exact .inl ⟨st, run_done hr, .refl, hst, hr⟩
  | succ fuel ih =>
    by_cases hr : st.remaining = 0
    · exact .inl ⟨st, run_done hr, .refl, hst, hr⟩
    · rcases round_result bodyConsume h hst hr with
        ⟨st', e, hit⟩ | ⟨st', m, c, -, hit, hinv, h₀, h₁, -, hrem, -⟩
      · exact .inr ⟨st, st', e, run_crash hr hit, .refl, hr, hit⟩
      · have hstep : st.remaining ≠ 0 ∧ st.iterate bodyConsume h = (st', none) := ⟨hr, hit⟩
        rw [run_round hr hit]
        rcases ih hinv (by omega) with ⟨s, hrun, hs, hend⟩ | ⟨s, s', e, hrun, hs, hend⟩
        · exact .inl ⟨s, hrun, .head hstep hs, hend⟩
        · exact .inr ⟨s, s', e, hrun, .head hstep hs, hend⟩

/-- The invariant holds between the rounds and the buffers of every run. -/
theorem inv_of_reachable (hst : (system bodyConsume h).Reachable st) : Inv st := by
  refine hst.invariant ?_ ?_
  · rintro s ⟨heap, conn, rfl⟩
    exact ⟨Message.waiting_new heap, le_rfl, le_rfl, rfl, by simp⟩
  · rintro s e s' - hs hstep
    cases e with
    | buffer input =>
      obtain ⟨-, hin, rfl⟩ := hstep
      exact hs.start hin
    | other conn =>
      obtain ⟨-, rfl⟩ := hstep
      exact ⟨hs.waiting, hs.buffer, hs.remaining, hs.sum, hs.size⟩
    | round =>
      obtain ⟨hr, hit⟩ := hstep
      rcases round_result bodyConsume h hs hr with
        ⟨s'', e, hit'⟩ | ⟨s'', m, c, -, hit', hinv, -⟩
      · rw [hit] at hit'; cases hit'
      · rw [hit] at hit'; cases hit'
        exact hinv

/-- The rounds of the loop are steps of the run. -/
theorem reachable_of_rounds {st' : ReadLoop S} (hst : (system bodyConsume h).Reachable st)
    (hr : Rounds bodyConsume h st st') : (system bodyConsume h).Reachable st' := by
  induction hr with
  | refl => exact hst
  | tail _ hs ih => exact .step (a := .round) ih hs

/-- A round that fits is safe. -/
theorem roundSafe_of_fits (hst : Inv st) (hne : st.remaining ≠ 0)
    (hfits : Fits bodyConsume h st) : RoundSafe bodyConsume h st := by
  have hnone := not_crash_of_fits hst hfits
  rcases round_result bodyConsume h hst hne with
    ⟨st', e, hit⟩ | ⟨st', m, c, hc, hit, -, h₀, h₁, hcop, hrem, hbuf⟩
  · rw [hit] at hnone; cases hnone
  · exact ⟨m, c, hc, .inr ⟨h₀, h₁, hcop⟩, st', hit, by omega, by omega⟩

/-- **The loop is safe in every run whose rounds fit.** -/
theorem loopSafe_of_fits (hst : (system bodyConsume h).Reachable st)
    (hfits : ∀ st', Rounds bodyConsume h st st' → st'.remaining ≠ 0 → Fits bodyConsume h st') :
    LoopSafe bodyConsume h st := by
  have hsafe : ∀ st', Rounds bodyConsume h st st' → st'.remaining ≠ 0 →
      RoundSafe bodyConsume h st' := fun st' hr hne =>
    roundSafe_of_fits (inv_of_reachable (reachable_of_rounds hst hr)) hne (hfits st' hr hne)
  refine ⟨hsafe, ?_⟩
  have hinv := inv_of_reachable hst
  rcases run_total bodyConsume h hinv
    (show st.remaining ≤ (st.remaining.toNat : ℕ) by omega) with
    ⟨st', hrun, -⟩ | ⟨s, st', e, -, hs, hr, hit⟩
  · exact ⟨_, st', hrun⟩
  · obtain ⟨-, -, -, -, s', hit', -⟩ := hsafe s hs hr
    rw [hit] at hit'
    cases hit'

end

section
/-- A connection without any state, whose handlers return. -/
def idle : Handlers Unit where
  onSupported _ s := (s, none)
  onError _ s := (s, none)
  onReady _ s := (s, none)
  onResult _ s := (s, none)

/-- A fresh connection about to read `input`. -/
def fresh (input : List UInt8) : ReadLoop Unit :=
  ({ incomming := Message.new fun _ => 0, conn := () } : ReadLoop Unit).start input

theorem fresh_reachable {input : List UInt8} (hin : input.length < 2 ^ 31) :
    (system Body.consume idle).Reachable (fresh input) :=
  .step (a := .buffer input) (.init ⟨_, (), rfl⟩) ⟨rfl, hin, rfl⟩

/-- A READY frame. -/
theorem loopSafe_ready : LoopSafe Body.consume idle (fresh [0x82, 0, 0, 2, 0, 0, 0, 0]) := by
  refine loopSafe_of_fits (fresh_reachable (by decide)) fun st' hr hne => ?_
  rcases hr.cases_head with rfl | ⟨s, ⟨-, hit⟩, hr⟩
  · refine ⟨fun _ => by decide, fun _ => ⟨by decide, by decide, .ready, .ready, true, rfl, rfl, ?_⟩⟩
    exact fun _ _ _ _ => ⟨fun _ => rfl, fun _ => rfl, fun _ => rfl, fun _ => rfl⟩
  · -- the round takes the whole frame
    have hs : s.remaining = 0 := by
      rw [← (show _ = s from congrArg Prod.fst hit)]
      rfl
    rcases hr.cases_head with rfl | ⟨s', ⟨hne', -⟩, -⟩
    · exact absurd hs hne
    · exact absurd hs hne'

/-- Opcode 3, and a READY frame of length -1: the call does not return. -/
theorem not_loopSafe_header :
    ¬ LoopSafe Body.consume idle (fresh [0x82, 0, 0, 3, 0, 0, 0, 0]) ∧
      ¬ LoopSafe Body.consume idle (fresh [0x82, 0, 0, 2, 0xff, 0xff, 0xff, 0xff]) := by
  constructor
  · intro hsafe
    obtain ⟨m, c, hc, -⟩ := hsafe.rounds _ .refl (by decide)
    have h : (Message.consume Body.consume (Message.new fun _ => 0)
      [0x82, 0, 0, 3, 0, 0, 0, 0]).2 = .ok c := congrArg Prod.snd hc
    cases h
  · intro hsafe
    obtain ⟨m, c, hc, -⟩ := hsafe.rounds _ .refl (by decide)
    have h : (Message.consume Body.consume (Message.new fun _ => 0)
      [0x82, 0, 0, 2, 0xff, 0xff, 0xff, 0xff]).2 = .ok c := congrArg Prod.snd hc
    cases h

end

end ReadLoop

end CqlClient
