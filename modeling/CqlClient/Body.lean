/-
  CqlClient formalization — the bodies other than RESULT (`cql_body_*.hpp`).

  `consume` decodes a received body, given as the byte string `buffer` (the
  bytes at the pointer it is passed, and no others); all bodies ignore the size
  argument.  `prepare reserved size` allocates the output buffer, writes the
  body behind the `reserved` bytes of the header, and sets the size.
-/
import CqlClient.Serialization

namespace CqlClient

open Word Wire

/-- What a body's `prepare` did: its return value, the buffer it allocated for
    `*output` (its length, and the bytes written from `*output + reserved` on),
    and the value left in `size`. -/
structure Prepared where
  ok : Bool
  output : Option (ℕ × List UInt8)
  size : ℕ
  deriving DecidableEq, Repr

/-- A `char*` that is `NULL`, the start of a buffer of its own, or a position in
    the message's body buffer. -/
inductive CharPtr where
  | null
  | own (bytes : List UInt8)
  | inBody (pos : ℤ)
  deriving DecidableEq, Repr

/-- The `size` bytes at the pointer. -/
def CharPtr.bytes (mem : List UInt8) (size : ℕ) : CharPtr → List UInt8
  | null => []
  | own bs => bs.take size
  | inBody pos => (mem.drop pos.toNat).take size

/-! ## ERROR -/

structure BodyError where
  code : ℤ := toInt32 0xFFFFFFFF
  message : CharPtr := .null
  messageSize : ℕ := 0
  deriving DecidableEq, Repr

/-- `BodyError(code, input, input_size)`. -/
def BodyError.ofText (code : ℤ) (input : List UInt8) : BodyError where
  code := code
  message := .own input
  messageSize := input.length

def BodyError.consume (b : BodyError) (buffer : List UInt8) : Except Crash (BodyError × Bool) := do
  let (code, pos) ← decodeInt buffer 0
  let (message, messageSize, _) ← decodeString buffer pos b.messageSize
  return (⟨code, .inBody message, messageSize⟩, true)

/-- `prepare`, where `mem` is the message's own body buffer. -/
def BodyError.prepare (b : BodyError) (mem : List UInt8) (reserved : ℕ) : Prepared :=
  let size := reserved + 4 + 2 + b.messageSize
  ⟨true, some (size, encodeInt b.code ++ encodeString (b.message.bytes mem b.messageSize)), size⟩

/-! ## OPTIONS and READY -/

/-- `BodyOptions::prepare` and `BodyReady::prepare`: the buffer is allocated
    before the size is computed. -/
def emptyPrepare (reserved size : ℕ) : Prepared := ⟨true, some (size, []), reserved⟩

/-! ## STARTUP -/

structure BodyStartup where
  cqlVersion : List UInt8 := ascii "3.0.0"
  compression : List UInt8 := []
  deriving DecidableEq, Repr

def keyCompression : List UInt8 := ascii "COMPRESSION"

def keyCqlVersion : List UInt8 := ascii "CQL_VERSION"

def BodyStartup.consume (b : BodyStartup) (buffer : List UInt8) :
    Except Crash (BodyStartup × Bool) := do
  let (options, _) ← decodeStringMap buffer 0
  return (⟨(options.find keyCqlVersion).getD b.cqlVersion,
    (options.find keyCompression).getD b.compression⟩, true)

def BodyStartup.prepare (b : BodyStartup) (reserved : ℕ) : Prepared :=
  let size := reserved + 2
  let (size, options) : ℕ × StringMap (List UInt8) :=
    if b.compression.isEmpty then (size, [])
    else (size + (2 + keyCompression.length) + (2 + b.compression.length),
      StringMap.assign keyCompression b.compression [])
  let (size, options) :=
    if b.cqlVersion.isEmpty then (size, options)
    else (size + (2 + keyCqlVersion.length) + (2 + b.cqlVersion.length),
      StringMap.assign keyCqlVersion b.cqlVersion options)
  ⟨true, some (size, encodeStringMap options), size⟩

/-! ## SUPPORTED -/

structure BodySupported where
  compression : List (List UInt8) := []
  cqlVersions : List (List UInt8) := []
  deriving DecidableEq, Repr

def BodySupported.consume (b : BodySupported) (buffer : List UInt8) :
    Except Crash (BodySupported × Bool) := do
  let (supported, _) ← decodeStringMultimap buffer 0
  return (⟨(supported.find keyCompression).getD b.compression,
    (supported.find keyCqlVersion).getD b.cqlVersions⟩, true)

/-! ## PREPARE -/

structure BodyPrepare where
  prepareString : List UInt8 := []
  deriving DecidableEq, Repr

def BodyPrepare.prepare (b : BodyPrepare) (reserved : ℕ) : Prepared :=
  let size := reserved + 4 + b.prepareString.length
  ⟨true, some (size, encodeLongString b.prepareString), size⟩

/-! ## QUERY -/

def cqlQueryFlagValues : ℕ := 0x01
def cqlQueryFlagPageSize : ℕ := 0x04
def cqlQueryFlagPagingState : ℕ := 0x08
def cqlQueryFlagSerialConsistency : ℕ := 0x10

structure BodyQuery where
  query : List UInt8 := []
  consistency : ℤ := cqlConsistencyAny
  pageSize : ℕ := 0
  pageSizeSet : Bool := false
  pagingState : List UInt8 := []
  serialConsistent : Bool := false
  serialConsistency : ℤ := cqlConsistencySerial
  values : List (List UInt8) := []
  deriving DecidableEq, Repr

/-- The size and the flags `prepare` computes in its first pass, section by
    section; the serial consistency is counted twice. -/
def BodyQuery.sizeAndFlags (b : BodyQuery) (reserved : ℕ) : ℕ × ℕ :=
  let size := reserved + 4 + b.query.length + 2 + 1
  let (size, flags) := if b.serialConsistent then (size + 2, cqlQueryFlagSerialConsistency)
    else (size, 0)
  let (size, flags) := if b.pagingState.isEmpty then (size, flags)
    else (size + (2 + b.pagingState.length), flags ||| cqlQueryFlagPagingState)
  let (size, flags) := if b.values.isEmpty then (size, flags)
    else (size + 2 + (b.values.map fun v => 4 + v.length).sum, flags ||| cqlQueryFlagValues)
  let (size, flags) := if b.pageSizeSet then (size + 4, flags ||| cqlQueryFlagPageSize)
    else (size, flags)
  if b.serialConsistent then (size + 2, flags ||| cqlQueryFlagSerialConsistency) else (size, flags)

/-- The bytes `prepare` writes in its second pass. -/
def BodyQuery.encode (b : BodyQuery) (flags : ℕ) : List UInt8 :=
  encodeLongString b.query ++ encodeShort b.consistency ++ encodeByte (UInt8.ofNat flags) ++
  (if b.values.isEmpty then []
    else encodeShort (toInt16 b.values.length) ++ b.values.flatMap encodeLongString) ++
  (if b.pageSizeSet then encodeInt (toInt32 b.pageSize) else []) ++
  (if b.pagingState.isEmpty then [] else encodeString b.pagingState) ++
  (if b.serialConsistent then encodeShort b.serialConsistency else [])

def BodyQuery.prepare (b : BodyQuery) (reserved : ℕ) : Prepared :=
  let (size, flags) := b.sizeAndFlags reserved
  ⟨true, some (size, b.encode flags), size⟩

/-- `SUPPORTED` and `RESULT` bodies are not sent: `prepare` fails and sets nothing. -/
def noPrepare (size : ℕ) : Prepared := ⟨false, none, size⟩

end CqlClient
