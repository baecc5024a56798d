/-
  CqlClient formalization — messages (`cql_message.hpp`).

  `Message.prepare` writes a frame: the header in front of what the body's
  `prepare` wrote.  `Message.consume` is the incremental parser: each call gets
  the next bytes from the network, copies what belongs to this message into the
  header buffer or the body buffer, and returns how many bytes it took.  It
  keeps its place in `received` and in the write cursors `headerBufferPos` and
  `bodyBufferPos`.

  The two buffers are memory from their start on; a copy past the end of a
  buffer changes memory there.  `copies` records every `memcpy` of the parser.
  The call of the virtual `body->consume` is a parameter of `Message.consume`;
  the program's is `Body.consume`.
-/
import CqlClient.BodyResult

namespace CqlClient

open Word Wire

/-! ## Bodies -/

/-- The classes derived from `Body`. -/
inductive Body where
  | result (b : BodyResult)
  | prepare (b : BodyPrepare)
  | error (b : BodyError)
  | options
  | startup (b : BodyStartup)
  | supported (b : BodySupported)
  | query (b : BodyQuery)
  | ready
  deriving DecidableEq, Repr

/-- The opcodes for which `allocate_body` has a case. -/
def supportedOpcode (opcode : UInt8) : Bool :=
  opcode = cqlOpcodeResult || opcode = cqlOpcodePrepare || opcode = cqlOpcodeError ||
  opcode = cqlOpcodeOptions || opcode = cqlOpcodeStartup || opcode = cqlOpcodeSupported ||
  opcode = cqlOpcodeQuery || opcode = cqlOpcodeReady

/-- `allocate_body`; the default case asserts.  No case returns `NULL`. -/
def allocateBody (opcode : UInt8) : Except Crash (Option Body) :=
  if opcode = cqlOpcodeResult then .ok (some (.result {}))
  else if opcode = cqlOpcodePrepare then .ok (some (.prepare {}))
  else if opcode = cqlOpcodeError then .ok (some (.error {}))
  else if opcode = cqlOpcodeOptions then .ok (some .options)
  else if opcode = cqlOpcodeStartup then .ok (some (.startup {}))
  else if opcode = cqlOpcodeSupported then .ok (some (.supported {}))
  else if opcode = cqlOpcodeQuery then .ok (some (.query {}))
  else if opcode = cqlOpcodeReady then .ok (some .ready)
  else .error .assertFailed

/-- The virtual `body->consume`. -/
def Body.consume (buffer : List UInt8) : Body → Except Crash (Body × Bool)
  | .result b => (b.consume buffer).map fun r => (.result r.1, r.2)
  | .error b => (b.consume buffer).map fun r => (.error r.1, r.2)
  | .startup b => (b.consume buffer).map fun r => (.startup r.1, r.2)
  | .supported b => (b.consume buffer).map fun r => (.supported r.1, r.2)
  | .prepare b => .ok (.prepare b, true)
  | .options => .ok (.options, true)
  | .query b => .ok (.query b, true)
  | .ready => .ok (.ready, true)

/-- The virtual `body->prepare`. -/
def Body.encode (mem : List UInt8) (reserved size : ℕ) : Body → Prepared
  | .result _ | .supported _ => noPrepare size
  | .options | .ready => emptyPrepare reserved size
  | .prepare b => b.prepare reserved
  | .error b => b.prepare mem reserved
  | .startup b => b.prepare reserved
  | .query b => b.prepare reserved

/-! ## Messages -/

def cqlHeaderSize : ℕ := 8

/-- Conversion to `int8_t`. -/
def toInt8 (x : ℤ) : ℤ := x.bmod (2 ^ 8)

/-- The byte of an `int8_t`. -/
def byteOf (x : ℤ) : UInt8 := UInt8.ofNat (x % 2 ^ 8).toNat

/-- Memory from the start of a buffer on. -/
abbrev Memory := ℕ → UInt8

/-- The memory after writing `bytes` at `pos`. -/
def Memory.store (mem : Memory) (pos : ℕ) (bytes : List UInt8) : Memory := fun i =>
  if pos ≤ i ∧ i < pos + bytes.length then bytes.getD (i - pos) 0 else mem i

/-- The first `n` bytes. -/
def Memory.take (mem : Memory) (n : ℕ) : List UInt8 := (List.range n).map mem

/-- The two buffers of a message. -/
inductive Target where
  | header
  | body
  deriving DecidableEq, Repr

/-- A `memcpy` of the parser: the bytes it copied, and where to. -/
structure Copy where
  target : Target
  pos : ℕ
  bytes : List UInt8
  deriving DecidableEq, Repr

structure Message where
  version : UInt8 := 0x02
  flags : ℤ := 0
  stream : ℤ := 0
  opcode : UInt8 := 0
  length : ℤ := 0
  received : ℤ := 0
  headerReceived : Bool := false
  headerBuffer : Memory
  headerBufferPos : ℕ := 0
  body : Option Body := none
  bodyBuffer : Memory
  bodyBufferPos : ℕ := 0
  bodyReady : Bool := false
  bodyError : Bool := false
  /-- what fresh memory happens to hold -/
  heap : Memory
  copies : List Copy := []

namespace Message

/-- `Message()`. -/
def new (heap : Memory) : Message where
  headerBuffer := heap
  bodyBuffer := heap
  heap := heap

/-- `Message(opcode)`. -/
def ofOpcode (heap : Memory) (opcode : UInt8) : Except Crash Message := do
  let body ← allocateBody opcode
  return { new heap with opcode, body }

/-- A frame in memory: the length of its buffer, the header at the start, the
    bytes of the body behind it, and the size. -/
structure Encoded where
  allocated : ℕ
  header : List UInt8
  body : List UInt8
  size : ℕ
  deriving DecidableEq, Repr

/-- The eight header bytes. -/
def encodeHeader (m : Message) : List UInt8 :=
  [m.version, byteOf m.flags, byteOf m.stream, m.opcode] ++ encodeInt m.length

/-- `prepare`; without a body it returns false and sets nothing but the size. -/
def prepare (m : Message) : Message × Option Encoded :=
  match m.body with
  | none => (m, none)
  | some b =>
    let p := b.encode (m.bodyBuffer.take m.length.toNat) cqlHeaderSize 0
    let (allocated, bytes) := p.output.getD (0, [])
    if p.size = 0 then
      (m, some ⟨cqlHeaderSize, m.encodeHeader, [], cqlHeaderSize⟩)
    else
      let m := { m with length := toInt32 (p.size - cqlHeaderSize) }
      (m, some ⟨allocated, m.encodeHeader, bytes, p.size⟩)

/-! ## The incremental parser -/

/-- `received += size`. -/
def receive (m : Message) (size : ℕ) : Message :=
  { m with received := toInt32 (m.received + size) }

/-- `memcpy(header_buffer_pos, ..)` and `header_buffer_pos += ..`. -/
def copyHeader (m : Message) (bytes : List UInt8) : Message :=
  { m with
    headerBuffer := m.headerBuffer.store m.headerBufferPos bytes
    headerBufferPos := m.headerBufferPos + bytes.length
    copies := m.copies ++ [⟨.header, m.headerBufferPos, bytes⟩] }

/-- `memcpy(body_buffer_pos, ..)` and `body_buffer_pos += advance`. -/
def copyBody (m : Message) (bytes : List UInt8) (advance : ℕ) : Message :=
  { m with
    bodyBuffer := m.bodyBuffer.store m.bodyBufferPos bytes
    bodyBufferPos := m.bodyBufferPos + advance
    copies := m.copies ++ [⟨.body, m.bodyBufferPos, bytes⟩] }

/-- The fields read back from the header buffer. -/
def parseHeader (m : Message) : Message :=
  { m with
    version := m.headerBuffer 0
    flags := toInt8 (m.headerBuffer 1).toNat
    stream := toInt8 (m.headerBuffer 2).toNat
    opcode := m.headerBuffer 3
    length := toInt32 (ofBigEndian
      [m.headerBuffer 4, m.headerBuffer 5, m.headerBuffer 6, m.headerBuffer 7]) }

/-- The header is complete, and the body buffer is `new char[length]`. -/
def startBody (m : Message) : Message :=
  { m with
    headerBufferPos := cqlHeaderSize
    headerReceived := true
    bodyBuffer := m.heap
    bodyBufferPos := 0 }

/-- The branch that completes the header with the first `needed` bytes of the
    input: copy them, read the fields and allocate the body.  Returns whether
    there is a body. -/
def readHeader (m : Message) (input : List UInt8) (needed : ℕ) : Message × Except Crash Bool :=
  if needed ≤ input.length then
    let m := (m.copyHeader (input.take needed)).parseHeader.startBody
    if m.length < 0 then (m, .error .badLength)
    else
      match allocateBody m.opcode with
      | .error e => (m, .error e)
      | .ok body => ({ m with body }, .ok body.isSome)
  else (m, .error .outOfBounds)

variable (bodyConsume : List UInt8 → Body → Except Crash (Body × Bool))

/-- `body_error` and `body_ready` once `body->consume` returned `ok`. -/
def setBody (m : Message) (b : Body) (ok : Bool) : Message :=
  { m with body := some b, bodyError := m.bodyError || !ok, bodyReady := true }

/-- The call of `body->consume` on the complete body. -/
def decodeBody (m : Message) (taken : ℤ) : Message × Except Crash ℤ :=
  match m.body with
  | none => (m, .error .nullDeref)
  | some b =>
    match bodyConsume (m.bodyBuffer.take m.length.toNat) b with
    | .error e => (m, .error e)
    | .ok (b, ok) => (m.setBody b ok, .ok taken)

/-- The part of `consume` behind the header, with the input from `inputPos` on. -/
def consumeBody (m : Message) (input : List UInt8) (inputPos : ℕ) : Message × Except Crash ℤ :=
  let size := input.length
  if m.length ≤ toInt32 (m.received - cqlHeaderSize) then
    -- we've received more data than we need, just copy what we need
    let overage := toSizeT (toInt32 (toInt32 (m.received - m.length) - cqlHeaderSize))
    let needed := toSizeT ((size : ℤ) - inputPos - overage)
    if inputPos + needed ≤ size then
      (m.copyBody ((input.drop inputPos).take needed) needed).decodeBody bodyConsume
        (toInt32 (inputPos + needed : ℕ))
    else (m, .error .outOfBounds)
  else
    -- we haven't received all the data yet
    (m.copyBody (input.drop inputPos) size, .ok (toInt32 size))

/-- `consume(input, size)` with all bytes of `input`: the bytes taken, or `-1`. -/
def consume (m : Message) (input : List UInt8) : Message × Except Crash ℤ :=
  let size := input.length
  let m := m.receive size
  if m.headerReceived then m.consumeBody bodyConsume input 0
  else if cqlHeaderSize ≤ m.received then
    let overage := toSizeT (m.received - cqlHeaderSize)
    let needed := toSizeT ((size : ℤ) - overage)
    match m.readHeader input needed with
    | (m, .error e) => (m, .error e)
    | (m, .ok false) => (m, .ok (-1))
    | (m, .ok true) => m.consumeBody bodyConsume input needed
  else (m.copyHeader input, .ok (toInt32 size))

end Message

end CqlClient
