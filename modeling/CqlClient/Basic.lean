/-
  CqlClient formalization — the constants of `cql.h`, and how the process can
  die.

  The program is compiled with assertions on, and nothing in it catches an
  exception, so a failed `assert`, an exception in a callback of libuv and a read
  through a bad pointer all end the run.  A function that can end so returns the
  reason (`Crash`) instead of its result.
-/
import CqlClient.Lib.Wire

namespace CqlClient

/-- Why the process died. -/
inductive Crash where
  /-- a failed `assert` -/
  | assertFailed
  /-- an allocation of negative size: `std::bad_array_new_length`, `std::length_error` -/
  | badLength
  /-- a read outside the buffer a pointer points into -/
  | outOfBounds
  /-- a read through `NULL` -/
  | nullDeref
  /-- a read through a pointer that was never assigned -/
  | indeterminate
  /-- an object used as another class than it was created as -/
  | badCast
  /-- the fuel of a loop ran out (an artefact of the model) -/
  | outOfFuel
  deriving DecidableEq, Repr

/-- `cql::Error`, without the place it was raised at. -/
structure Error where
  source : ℕ
  code : ℤ
  message : List UInt8
  deriving DecidableEq, Repr

/-- The bytes of a literal. -/
def ascii (s : String) : List UInt8 := s.toList.map fun c => UInt8.ofNat c.toNat

/-! ## Error sources and codes -/

def cqlErrorSourceSsl : ℕ := 3
def cqlErrorSourceServer : ℕ := 5
def cqlErrorSourceLibrary : ℕ := 6

def cqlErrorLibNoStreams : ℤ := 1000008

/-! ## Opcodes -/

def cqlOpcodeError : UInt8 := 0x00
def cqlOpcodeStartup : UInt8 := 0x01
def cqlOpcodeReady : UInt8 := 0x02
def cqlOpcodeOptions : UInt8 := 0x05
def cqlOpcodeSupported : UInt8 := 0x06
def cqlOpcodeQuery : UInt8 := 0x07
def cqlOpcodeResult : UInt8 := 0x08
def cqlOpcodePrepare : UInt8 := 0x09
def cqlOpcodeEvent : UInt8 := 0x0C

/-- `opcode_to_string` has a name for the opcode; it asserts otherwise. -/
def opcodeHasName (opcode : UInt8) : Bool := opcode ≤ cqlOpcodeEvent

/-! ## Consistencies and column types -/

def cqlConsistencyAny : ℤ := 0x0000
def cqlConsistencySerial : ℤ := 0x0008

def cqlColumnTypeUnknown : ℤ := 0xFFFF
def cqlColumnTypeCustom : ℤ := 0x0000
def cqlColumnTypeList : ℤ := 0x0020
def cqlColumnTypeMap : ℤ := 0x0021
def cqlColumnTypeSet : ℤ := 0x0022

end CqlClient
