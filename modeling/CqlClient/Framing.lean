/-
  CqlClient formalization — how `Message.consume` takes a frame apart.

  `Partial f n m` says that the message `m` has taken the first `n` bytes of the
  frame `f`, in whatever pieces.  Two lemmas give every call of the parser on
  such a message: the input ends before the frame does (`consume_partial`), or
  it reaches the frame's last byte (`consume_complete`).

  The body cursor is part of the invariant.  When the input that completes the
  header does not complete the frame, the cursor moves by the whole input, the
  header bytes in it included; from then on it is that many bytes ahead of the
  body bytes copied.
-/
import CqlClient.Message

namespace CqlClient

open Word Wire

/-! ## Memory -/

namespace Memory
variable (mem : Memory)

@[simp] theorem length_take (n : ℕ) : (mem.take n).length = n := by simp [Memory.take]

theorem take_zero : mem.take 0 = [] := rfl

theorem take_get {n i : ℕ} (h : i < n) : (mem.take n)[i]? = some (mem i) := by
  simp [Memory.take, h]

/-- Writing behind the first `pos` bytes appends to them. -/
theorem take_store (pos : ℕ) (bs : List UInt8) :
    (mem.store pos bs).take (pos + bs.length) = mem.take pos ++ bs := by
  apply List.ext_getElem?
  intro i
  rcases Nat.lt_or_ge i pos with h | h
  · rw [take_get _ (by omega), List.getElem?_append_left (by simpa using h), take_get _ h]
    simp only [store, if_neg (show ¬ (pos ≤ i ∧ i < pos + bs.length) by omega)]
  · rw [List.getElem?_append_right (by simpa using h), length_take]
    rcases Nat.lt_or_ge i (pos + bs.length) with h' | h'
    · rw [take_get _ h']
      simp only [store, if_pos (And.intro h h')]
      rw [List.getD_eq_getElem?_getD, List.getElem?_eq_getElem (by omega)]; rfl
    · rw [List.getElem?_eq_none (by simpa using h'), List.getElem?_eq_none (by omega)]

end Memory

/-! ## Frames -/

/-- A well-formed frame: its opcode is one `allocate_body` supports, and its
    size fits an `int32_t`. -/
structure Frame where
  version : UInt8
  flags : UInt8
  stream : UInt8
  opcode : UInt8
  body : List UInt8
  supported : supportedOpcode opcode = true
  fits : body.length + cqlHeaderSize < 2 ^ 31

namespace Frame
variable (f : Frame)

/-- The frame on the wire. -/
def bytes : List UInt8 :=
  [f.version, f.flags, f.stream, f.opcode] ++ bigEndian 4 f.body.length ++ f.body

/-- Header and body. -/
def size : ℕ := f.body.length + cqlHeaderSize

@[simp] theorem length_bytes : f.bytes.length = f.size := by
  simp [bytes, size, cqlHeaderSize]; omega

theorem take_header : f.bytes.take cqlHeaderSize =
    [f.version, f.flags, f.stream, f.opcode] ++ bigEndian 4 f.body.length := by
  simp [bytes, cqlHeaderSize, bigEndian]

theorem drop_header : f.bytes.drop cqlHeaderSize = f.body := by
  simp [bytes, cqlHeaderSize, bigEndian]

end Frame

theorem take_split {bs : List UInt8} {n k : ℕ} (h : n ≤ k) :
    bs.take k = bs.take n ++ (bs.drop n).take (k - n) := by
  rw [← List.take_add, Nat.add_sub_cancel' h]

theorem take_add_of_isPrefix {bs input : List UInt8} {n : ℕ} (h : input <+: bs.drop n) :
    bs.take (n + input.length) = bs.take n ++ input := by
  rw [List.take_add, ← List.prefix_iff_eq_take.1 h]

theorem take_eq_of_isPrefix {bs input : List UInt8} {k : ℕ} (h : input <+: bs)
    (hk : k ≤ input.length) : input.take k = bs.take k := by
  obtain ⟨t, rfl⟩ := h
  rw [List.take_append_of_le_length hk]

/-- `allocate_body` has a case for the supported opcodes, and returns a body. -/
theorem allocateBody_ok {opcode : UInt8} (h : supportedOpcode opcode = true) :
    ∃ b, allocateBody opcode = .ok (some b) := by
  simp only [supportedOpcode, Bool.or_eq_true, decide_eq_true_eq] at h
  rcases h with ((((((h | h) | h) | h) | h) | h) | h) | h <;> subst h <;> exact ⟨_, rfl⟩

theorem allocateBody_error {opcode : UInt8} (h : supportedOpcode opcode = false) :
    allocateBody opcode = .error .assertFailed := by
  simp only [supportedOpcode, Bool.or_eq_false_iff, decide_eq_false_iff_not] at h
  simp [allocateBody, h]

/-- Only the opcodes `allocate_body` has a case for get a body. -/
theorem supported_of_allocateBody {opcode : UInt8} {body : Option Body}
    (h : allocateBody opcode = .ok body) : supportedOpcode opcode = true := by
  by_contra hn
  rw [allocateBody_error (Bool.not_eq_true _ ▸ hn)] at h
  cases h

/-- `opcode_to_string` has a name for the opcodes of `allocate_body`. -/
theorem opcodeHasName_of_supported {opcode : UInt8} (h : supportedOpcode opcode = true) :
    opcodeHasName opcode = true := by
  simp only [supportedOpcode, Bool.or_eq_true, decide_eq_true_eq] at h
  rcases h with ((((((h | h) | h) | h) | h) | h) | h) | h <;> subst h <;> rfl

namespace Message

/-! ## Messages under way -/

/-- The bytes a message has copied, in order. -/
def copied (m : Message) : List UInt8 := m.copies.flatMap Copy.bytes

/-- The header fields of `m` are those of the frame `f`, and its body is the one
    `allocate_body` returned for them. -/
structure HasHeader (f : Frame) (m : Message) : Prop where
  version : m.version = f.version
  flags : m.flags = toInt8 f.flags.toNat
  stream : m.stream = toInt8 f.stream.toNat
  opcode : m.opcode = f.opcode
  length : m.length = f.body.length
  received : m.headerReceived = true
  body : allocateBody f.opcode = .ok m.body

/-- The message `m` has taken the first `n` bytes of the frame `f`. -/
structure Partial (f : Frame) (n : ℕ) (m : Message) : Prop where
  lt : n < f.size
  received : m.received = n
  ready : m.bodyReady = false
  copied : m.copied = f.bytes.take n
  header : n < cqlHeaderSize → m.headerReceived = false ∧ m.headerBufferPos = n ∧
    m.headerBuffer.take n = f.bytes.take n ∧ ∀ c ∈ m.copies, c.target = .header
  /-- the body cursor is ahead of the body bytes copied -/
  body : cqlHeaderSize ≤ n → HasHeader f m ∧
    ∃ ahead, 1 ≤ ahead ∧ m.bodyBufferPos = n - cqlHeaderSize + ahead

theorem HasHeader.receive {f : Frame} {m : Message} (h : HasHeader f m) (size : ℕ) :
    HasHeader f (m.receive size) :=
  ⟨h.version, h.flags, h.stream, h.opcode, h.length, h.received, h.body⟩

theorem HasHeader.copyBody {f : Frame} {m : Message} (h : HasHeader f m) (bs : List UInt8)
    (advance : ℕ) : HasHeader f (m.copyBody bs advance) :=
  ⟨h.version, h.flags, h.stream, h.opcode, h.length, h.received, h.body⟩

/-- Decoding the body, when `body->consume` returns. -/
theorem decodeBody_ok {bodyConsume : List UInt8 → Body → Except Crash (Body × Bool)}
    {m : Message} {b b' : Body} {ok : Bool} (taken : ℤ) (hb : m.body = some b)
    (hc : bodyConsume (m.bodyBuffer.take m.length.toNat) b = .ok (b', ok)) :
    m.decodeBody bodyConsume taken = (m.setBody b' ok, .ok taken) := by
  simp only [decodeBody, hb, hc]

/-- Decoding the body, when `body->consume` does not return. -/
theorem decodeBody_error {bodyConsume : List UInt8 → Body → Except Crash (Body × Bool)}
    {m : Message} {b : Body} {e : Crash} (taken : ℤ) (hb : m.body = some b)
    (hc : bodyConsume (m.bodyBuffer.take m.length.toNat) b = .error e) :
    m.decodeBody bodyConsume taken = (m, .error e) := by
  simp only [decodeBody, hb, hc]

theorem copied_copyHeader (m : Message) (bs : List UInt8) :
    (m.copyHeader bs).copied = m.copied ++ bs := by
  simp [copied, copyHeader]

theorem copied_copyBody (m : Message) (bs : List UInt8) (advance : ℕ) :
    (m.copyBody bs advance).copied = m.copied ++ bs := by
  simp [copied, copyBody]

theorem partial_new (f : Frame) (heap : Memory) : Partial f 0 (new heap) where
  lt := by simp [Frame.size, cqlHeaderSize]
  received := rfl
  ready := rfl
  copied := rfl
  header := fun _ => ⟨rfl, rfl, rfl, by simp [new]⟩
  body := fun h => absurd h (by decide)

/-- The header buffer holds the header of `f`: the fields read back from it. -/
theorem parseHeader_spec {f : Frame} {m : Message}
    (h : m.headerBuffer.take cqlHeaderSize = f.bytes.take cqlHeaderSize) :
    m.parseHeader = { m with
      version := f.version, flags := toInt8 f.flags.toNat, stream := toInt8 f.stream.toNat
      opcode := f.opcode, length := f.body.length } := by
  have hb : m.headerBuffer.take cqlHeaderSize =
      [m.headerBuffer 0, m.headerBuffer 1, m.headerBuffer 2, m.headerBuffer 3,
       m.headerBuffer 4, m.headerBuffer 5, m.headerBuffer 6, m.headerBuffer 7] := rfl
  rw [hb, f.take_header] at h
  simp only [List.cons_append, List.nil_append, List.cons.injEq] at h
  obtain ⟨h0, h1, h2, h3, hl⟩ := h
  have hfits := f.fits
  have hlen : toInt32 (ofBigEndian (bigEndian 4 f.body.length)) = f.body.length := by
    rw [ofBigEndian_bigEndian (by simp only [cqlHeaderSize] at hfits; omega)]
    exact toInt32_eq (by omega) (by omega)
  simp only [parseHeader, h0, h1, h2, h3, hl, hlen]

/-- `readHeader` on a length that is not negative and a supported opcode. -/
theorem readHeader_ok {m : Message} {input : List UInt8} {needed : ℕ} {b : Body}
    (hlen : needed ≤ input.length)
    (hL : 0 ≤ ((m.copyHeader (input.take needed)).parseHeader.startBody).length)
    (hb : allocateBody ((m.copyHeader (input.take needed)).parseHeader.startBody).opcode =
      .ok (some b)) :
    m.readHeader input needed =
      ({ (m.copyHeader (input.take needed)).parseHeader.startBody with body := some b },
        .ok true) := by
  unfold readHeader
  rw [if_pos hlen]
  generalize (m.copyHeader (input.take needed)).parseHeader.startBody = m₁ at *
  simp only [if_neg (Int.not_lt.2 hL), hb, Option.isSome_some]

/-- **Reading the header.**  The missing header bytes give the message the
    fields of the frame and a fresh body buffer. -/
theorem readHeader_spec {f : Frame} {n : ℕ} {m : Message} {input : List UInt8}
    (hn : n < cqlHeaderSize) (hpos : m.headerBufferPos = n)
    (hbuf : m.headerBuffer.take n = f.bytes.take n)
    (hin : input.take (cqlHeaderSize - n) = (f.bytes.drop n).take (cqlHeaderSize - n))
    (hlen : cqlHeaderSize - n ≤ input.length) :
    ∃ m', m.readHeader input (cqlHeaderSize - n) = (m', .ok true) ∧ HasHeader f m' ∧
      m'.bodyBuffer = m.heap ∧ m'.bodyBufferPos = 0 ∧ m'.received = m.received ∧
      m'.bodyReady = m.bodyReady ∧
      m'.copies = m.copies ++ [⟨.header, n, input.take (cqlHeaderSize - n)⟩] := by
  obtain ⟨b, hb⟩ := allocateBody_ok f.supported
  have hwhole : (m.headerBuffer.store n (input.take (cqlHeaderSize - n))).take cqlHeaderSize =
      f.bytes.take cqlHeaderSize := by
    have h := m.headerBuffer.take_store n (input.take (cqlHeaderSize - n))
    rw [List.length_take, Nat.min_eq_left hlen, Nat.add_sub_cancel' hn.le] at h
    rw [h, hbuf, hin, ← take_split hn.le]
  have hp := parseHeader_spec (f := f) (m := m.copyHeader (input.take (cqlHeaderSize - n)))
    (by simpa only [copyHeader, hpos] using hwhole)
  have hread := readHeader_ok (m := m) (b := b) hlen (by rw [hp]; exact Int.natCast_nonneg _)
    (by rw [hp]; exact hb)
  rw [hread, hp]
  refine ⟨_, rfl, ⟨?_, ?_, ?_, ?_, ?_, ?_, hb⟩, rfl, rfl, rfl, rfl, ?_⟩ <;>
    simp only [startBody, copyHeader, hpos]

/-! ## One call of the parser -/

section
variable (bodyConsume : List UInt8 → Body → Except Crash (Body × Bool))
variable {f : Frame} {n : ℕ} {m : Message} {input : List UInt8}

theorem toInt32_received (hr : m.received = n) (hn : n < 2 ^ 31) :
    toInt32 (m.received - cqlHeaderSize) = n - cqlHeaderSize := by
  rw [hr]
  exact toInt32_eq (by simp only [cqlHeaderSize]; omega) (by simp only [cqlHeaderSize]; omega)

/-- The body is not complete: everything behind the header is copied, and the
    cursor moves by the whole input. -/
theorem consumeBody_short {inputPos : ℕ} (hlt : toInt32 (m.received - cqlHeaderSize) < m.length)
    (hin : input.length < 2 ^ 31) :
    m.consumeBody bodyConsume input inputPos =
      (m.copyBody (input.drop inputPos) input.length, .ok input.length) := by
  unfold consumeBody
  rw [if_neg (Int.not_le.2 hlt), toInt32_eq (x := input.length) (by omega) (by omega)]

/-- The body is complete: the `needed` bytes missing are copied and the body is
    decoded; the rest of the input is behind the frame. -/
theorem consumeBody_complete {inputPos : ℕ} (needed : ℕ) (hL : 0 ≤ m.length)
    (hpos : toInt32 (m.received - cqlHeaderSize) + inputPos + needed = m.length + input.length)
    (hle : inputPos + needed ≤ input.length) (hin : input.length < 2 ^ 31) :
    m.consumeBody bodyConsume input inputPos =
      (m.copyBody ((input.drop inputPos).take needed) needed).decodeBody bodyConsume
        (inputPos + needed : ℕ) := by
  have hr := toInt32_range (m.received - cqlHeaderSize)
  obtain ⟨k, hk⟩ := toInt32_cong (m.received - cqlHeaderSize)
  obtain ⟨k', hk'⟩ := toInt32_cong (m.received - m.length)
  have hover : toInt32 (toInt32 (m.received - m.length) - cqlHeaderSize) =
      ((input.length - (inputPos + needed) : ℕ) : ℤ) :=
    toInt32_unique (k := k' - k) (by omega) (by omega) (by omega)
  have hneed : toSizeT ((input.length : ℤ) - inputPos - (input.length - (inputPos + needed) : ℕ)) =
      needed := by
    rw [show (input.length : ℤ) - inputPos - (input.length - (inputPos + needed) : ℕ) =
      (needed : ℕ) by omega]
    exact toSizeT_natCast (by omega)
  unfold consumeBody
  rw [if_pos (show m.length ≤ toInt32 (m.received - cqlHeaderSize) by omega)]
  simp only [hover, toSizeT_natCast (show input.length - (inputPos + needed) < 2 ^ 64 by omega),
    hneed]
  rw [if_pos hle, toInt32_eq (x := (inputPos + needed : ℕ)) (by omega) (by omega)]

theorem received_receive (input : List UInt8) (hm : m.received = n)
    (hov : n + input.length < 2 ^ 31) :
    (m.receive input.length).received = (n + input.length : ℕ) := by
  simp only [receive, hm, ← Nat.cast_add]
  exact toInt32_eq (by omega) (by omega)

/-- **The header ends in the input**: what is left is the body. -/
theorem consume_header (hm : Partial f n m) (hn : n < cqlHeaderSize)
    (hin : input.take (cqlHeaderSize - n) = (f.bytes.drop n).take (cqlHeaderSize - n))
    (hlen : cqlHeaderSize ≤ n + input.length) (hov : n + input.length < 2 ^ 31) :
    ∃ m', m.consume bodyConsume input = m'.consumeBody bodyConsume input (cqlHeaderSize - n) ∧
      HasHeader f m' ∧ m'.bodyBufferPos = 0 ∧ m'.received = (n + input.length : ℕ) ∧
      m'.bodyReady = false ∧ m'.copied = f.bytes.take cqlHeaderSize ∧
      ∀ c ∈ m'.copies, c.target = .header := by
  obtain ⟨hrcv, hpos, hbuf, htgt⟩ := hm.header hn
  have hr := received_receive input hm.received hov
  have hneed : toSizeT ((input.length : ℤ) -
      toSizeT ((m.receive input.length).received - cqlHeaderSize)) = cqlHeaderSize - n := by
    rw [hr, show ((n + input.length : ℕ) : ℤ) - cqlHeaderSize =
        (n + input.length - cqlHeaderSize : ℕ) by omega, toSizeT_natCast (by omega),
      show (input.length : ℤ) - (n + input.length - cqlHeaderSize : ℕ) =
        (cqlHeaderSize - n : ℕ) by omega]
    exact toSizeT_natCast (by simp only [cqlHeaderSize]; omega)
  obtain ⟨m', hread, hhdr, -, hbpos, hrm, hready, hcopies⟩ :=
    readHeader_spec (m := m.receive input.length) hn hpos hbuf hin (by omega)
  refine ⟨m', ?_, hhdr, hbpos, hrm.trans hr, hready.trans hm.ready, ?_, ?_⟩
  · unfold consume
    rw [if_neg (show ¬ (m.receive input.length).headerReceived = true by simp [receive, hrcv]),
      if_pos (by rw [hr]; omega)]
    simp only [hneed, hread]
  · have h := hm.copied
    simp only [copied, hcopies, List.flatMap_append, List.flatMap_singleton, hin] at h ⊢
    rw [show (m.receive input.length).copies = m.copies from rfl, h, ← take_split hn.le]
  · intro c hc
    rw [hcopies, List.mem_append, List.mem_singleton] at hc
    rcases hc with hc | rfl
    · exact htgt c hc
    · rfl

/-- **The frame does not end in the input**: the whole input is taken. -/
theorem consume_partial (hm : Partial f n m) (hin : input <+: f.bytes.drop n)
    (hlt : n + input.length < f.size) :
    ∃ m', m.consume bodyConsume input = (m', .ok input.length) ∧
      Partial f (n + input.length) m' := by
  have hfits := f.fits
  have hsize : f.size = f.body.length + cqlHeaderSize := rfl
  have hr := received_receive input hm.received (by omega)
  have hret : toInt32 (input.length : ℤ) = input.length := toInt32_eq (by omega) (by omega)
  have htake := take_add_of_isPrefix hin
  rcases Nat.lt_or_ge n cqlHeaderSize with hn | hn
  · rcases Nat.lt_or_ge (n + input.length) cqlHeaderSize with h | h
    · -- the header is still incomplete
      obtain ⟨hrcv, hpos, hbuf, htgt⟩ := hm.header hn
      unfold consume
      rw [if_neg (show ¬ (m.receive input.length).headerReceived = true by simp [receive, hrcv]),
        if_neg (by rw [hr]; omega), hret]
      refine ⟨_, rfl, hlt, hr, hm.ready, ?_, fun _ => ⟨hrcv, ?_, ?_, ?_⟩, fun h' => by omega⟩
      · rw [copied_copyHeader, htake, ← hm.copied]; rfl
      · simp only [copyHeader, receive, hpos]
      · simp only [copyHeader, receive, hpos]
        rw [Memory.take_store, hbuf, htake]
      · intro c hc
        simp only [copyHeader, receive, List.mem_append, List.mem_singleton] at hc
        rcases hc with hc | rfl
        · exact htgt c hc
        · rfl
    · -- the header ends in the input, the body does not
      obtain ⟨m', hc, hhdr, hbpos, hrm, hready, hcop, -⟩ :=
        consume_header bodyConsume hm hn (take_eq_of_isPrefix hin (by omega)) h (by omega)
      rw [hc, consumeBody_short bodyConsume
        (by rw [toInt32_received hrm (by omega), hhdr.length]; omega) (by omega)]
      refine ⟨_, rfl, hlt, hrm, hready, ?_, fun h' => by omega,
        fun _ => ⟨hhdr.copyBody _ _, cqlHeaderSize - n, by omega, ?_⟩⟩
      · rw [copied_copyBody, hcop, htake, take_split hn.le, List.append_assoc,
          ← take_eq_of_isPrefix hin (by omega), List.take_append_drop]
      · simp only [copyBody, hbpos]; omega
  · -- the header was complete
    obtain ⟨hhdr, ahead, ha, hpos⟩ := hm.body hn
    unfold consume
    rw [if_pos (show (m.receive input.length).headerReceived = true from hhdr.received),
      consumeBody_short bodyConsume
        (by rw [toInt32_received hr (by omega), (hhdr.receive _).length]; omega) (by omega)]
    refine ⟨_, rfl, hlt, hr, hm.ready, ?_, fun h' => by omega,
      fun _ => ⟨(hhdr.receive _).copyBody _ _, ahead, ha, ?_⟩⟩
    · rw [copied_copyBody, List.drop_zero, htake, ← hm.copied]; rfl
    · simp only [copyBody, receive, hpos]; omega

/-- **The input reaches the frame's last byte**: the missing bytes are taken
    and the body is decoded.  What was copied is the frame; the body is in place
    if the header was still incomplete, and otherwise the last copy ends behind
    the body buffer. -/
theorem consume_complete (hm : Partial f n m) (hin : f.bytes.drop n <+: input)
    (hov : n + input.length < 2 ^ 31) :
    ∃ m', m.consume bodyConsume input = m'.decodeBody bodyConsume (f.size - n : ℕ) ∧
      HasHeader f m' ∧ m'.bodyReady = false ∧ m'.copied = f.bytes ∧
      (n < cqlHeaderSize → m'.bodyBuffer.take f.body.length = f.body ∧
        ∀ c ∈ m'.copies, c.target = .body → c.pos + c.bytes.length ≤ f.body.length) ∧
      (cqlHeaderSize ≤ n → ∃ c ∈ m'.copies, c.target = .body ∧ c.bytes ≠ [] ∧
        f.body.length < c.pos + c.bytes.length) := by
  have hfits := f.fits
  have hsize : f.size = f.body.length + cqlHeaderSize := rfl
  have hlt := hm.lt
  have hr := received_receive input hm.received (by omega)
  have hlen : f.size - n ≤ input.length := by
    have := hin.length_le; simp only [List.length_drop, Frame.length_bytes] at this; exact this
  have htake : input.take (f.size - n) = f.bytes.drop n := by
    rw [← take_eq_of_isPrefix hin (by simp), List.take_of_length_le (by simp)]
  rcases Nat.lt_or_ge n cqlHeaderSize with hn | hn
  · -- the header ends in the input, and so does the body
    obtain ⟨m', hc, hhdr, hbpos, hrm, hready, hcop, htgt⟩ :=
      consume_header bodyConsume hm hn (take_eq_of_isPrefix hin (by simp; omega)).symm
        (by omega) (by omega)
    have hdrop : f.bytes.drop n = (f.bytes.drop n).take (cqlHeaderSize - n) ++ f.body := by
      conv_lhs => rw [← List.take_append_drop (cqlHeaderSize - n) (f.bytes.drop n)]
      rw [List.drop_drop, Nat.add_sub_cancel' hn.le, f.drop_header]
    have hbody : (input.drop (cqlHeaderSize - n)).take f.body.length = f.body := by
      obtain ⟨t, rfl⟩ := hin
      rw [hdrop, List.append_assoc, List.drop_left' (by simp; omega), List.take_left' rfl]
    rw [hc, consumeBody_complete bodyConsume f.body.length
      (by rw [hhdr.length]; omega)
      (by rw [toInt32_received hrm (by omega), hhdr.length]; omega) (by omega) (by omega), hbody]
    refine ⟨m'.copyBody f.body f.body.length, ?_, hhdr.copyBody _ _, hready, ?_,
      fun _ => ⟨?_, ?_⟩, fun h => by omega⟩
    · rw [show f.size - n = cqlHeaderSize - n + f.body.length by omega]
    · rw [copied_copyBody, hcop, ← f.drop_header, List.take_append_drop]
    · simp only [copyBody, hbpos]
      simpa [Memory.take_zero] using m'.bodyBuffer.take_store 0 f.body
    · intro c hc htgt'
      simp only [copyBody, List.mem_append, List.mem_singleton] at hc
      rcases hc with hc | rfl
      · rw [htgt c hc] at htgt'; cases htgt'
      · simp [hbpos]
  · -- the header was complete
    obtain ⟨hhdr, ahead, ha, hpos⟩ := hm.body hn
    have hc : m.consume bodyConsume input =
        (m.receive input.length).consumeBody bodyConsume input 0 := by
      unfold consume
      rw [if_pos (show (m.receive input.length).headerReceived = true from hhdr.received)]
    rw [hc, consumeBody_complete bodyConsume (f.size - n)
      (by rw [(hhdr.receive _).length]; omega)
      (by rw [toInt32_received hr (by omega), (hhdr.receive _).length]; omega) (by omega)
      (by omega), List.drop_zero, htake]
    refine ⟨(m.receive input.length).copyBody (f.bytes.drop n) (f.size - n), ?_,
      (hhdr.receive _).copyBody _ _, hm.ready, ?_, fun h => by omega, fun _ =>
        ⟨⟨.body, m.bodyBufferPos, f.bytes.drop n⟩, ?_, rfl, ?_, ?_⟩⟩
    · rw [Nat.zero_add]
    · rw [copied_copyBody, show (m.receive input.length).copied = m.copied from rfl, hm.copied,
        List.take_append_drop]
    · simp [copyBody, receive]
    · intro h
      have := congrArg List.length h
      simp at this; omega
    · simp only [hpos, List.length_drop, Frame.length_bytes]; omega

end

end Message

end CqlClient
