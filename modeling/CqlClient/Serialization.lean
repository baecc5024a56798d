/-
  CqlClient formalization — `cql_serialization.hpp`.

  An encoder writes consecutive bytes from `output` on and returns the position
  after them; it is modelled by the bytes it writes.

  A decoder follows a pointer into a buffer.  The buffer is the byte string
  `mem`, a pointer the offset from its start, and a read that leaves the buffer
  is `Crash.outOfBounds`.  The decoders know no bound: the only check is the
  one of the model's memory (`read`).
-/
import CqlClient.Basic

namespace CqlClient

open Word Wire

/-! ## Encoders -/

/-- `encode_byte`. -/
def encodeByte (value : UInt8) : List UInt8 := [value]

/-- `encode_short`: `htons` and `memcpy`. -/
def encodeShort (value : ℤ) : List UInt8 := bigEndian 2 (value % 2 ^ 16).toNat

/-- `encode_int`: `htonl` and `memcpy`. -/
def encodeInt (value : ℤ) : List UInt8 := bigEndian 4 (value % 2 ^ 32).toNat

/-- `encode_string`: the length is converted to `int16_t`. -/
def encodeString (input : List UInt8) : List UInt8 :=
  encodeShort (toInt16 input.length) ++ input

/-- `encode_long_string`: the length is converted to `int32_t`. -/
def encodeLongString (input : List UInt8) : List UInt8 :=
  encodeInt (toInt32 input.length) ++ input

/-! ## Maps -/

/-- `std::map<std::string, β>`: its entries in key order. -/
abbrev StringMap (β : Type) := List (List UInt8 × β)

/-- `map.insert`: an existing entry stays. -/
def StringMap.insertNew {β : Type} (k : List UInt8) (v : β) : StringMap β → StringMap β
  | [] => [(k, v)]
  | (k', v') :: m =>
    if k = k' then (k', v') :: m
    else if k < k' then (k, v) :: (k', v') :: m
    else (k', v') :: StringMap.insertNew k v m

/-- `map[k] = v`: an existing entry is overwritten. -/
def StringMap.assign {β : Type} (k : List UInt8) (v : β) : StringMap β → StringMap β
  | [] => [(k, v)]
  | (k', v') :: m =>
    if k = k' then (k, v) :: m
    else if k < k' then (k, v) :: (k', v') :: m
    else (k', v') :: StringMap.assign k v m

/-- `map.find`. -/
def StringMap.find {β : Type} (k : List UInt8) (m : StringMap β) : Option β := m.lookup k

/-- `encode_string_map`. -/
def encodeStringMap (map : StringMap (List UInt8)) : List UInt8 :=
  encodeShort (toInt16 map.length) ++
    map.flatMap fun it => encodeString it.1 ++ encodeString it.2

/-! ## Decoders -/

section
variable (mem : List UInt8)

/-- The `n` bytes at the pointer `input`. -/
def read (input : ℤ) (n : ℕ) : Except Crash (List UInt8) :=
  if 0 ≤ input ∧ input + n ≤ mem.length then .ok ((mem.drop input.toNat).take n)
  else .error .outOfBounds

/-- `decode_short`: the value, and the position after it. -/
def decodeShort (input : ℤ) : Except Crash (ℤ × ℤ) := do
  let bytes ← read mem input 2
  return (toInt16 (ofBigEndian bytes), input + 2)

/-- `decode_int`. -/
def decodeInt (input : ℤ) : Except Crash (ℤ × ℤ) := do
  let bytes ← read mem input 4
  return (toInt32 (ofBigEndian bytes), input + 4)

/-- `decode_string`: the string's position, its size and the position after it.
    The length is stored through an `int16_t&` to the `size_t`, so it replaces
    the low two bytes of the size that was there (on a little-endian host). -/
def decodeString (input : ℤ) (size : ℕ) : Except Crash (ℤ × ℕ × ℤ) := do
  let (len, output) ← decodeShort mem input
  let size := size - size % 2 ^ 16 + (len % 2 ^ 16).toNat
  return (output, size, output + size)

/-- `decode_long_string`: the length replaces the low four bytes of the size. -/
def decodeLongString (input : ℤ) (size : ℕ) : Except Crash (ℤ × ℕ × ℤ) := do
  let (len, output) ← decodeInt mem input
  let size := size - size % 2 ^ 32 + (len % 2 ^ 32).toNat
  return (output, size, output + size)

/-- The loop of `decode_string_map`, for `n` more entries. -/
def decodeStringMapLoop : ℕ → ℤ → StringMap (List UInt8) →
    Except Crash (StringMap (List UInt8) × ℤ)
  | 0, buffer, map => return (map, buffer)
  | n + 1, buffer, map => do
    let (key, keySize, buffer) ← decodeString mem buffer 0
    let (value, valueSize, buffer) ← decodeString mem buffer 0
    let k ← read mem key keySize
    let v ← read mem value valueSize
    decodeStringMapLoop n buffer (map.insertNew k v)

/-- `decode_string_map`: the count is an `int16_t`, and the loop runs while
    `i < len`. -/
def decodeStringMap (input : ℤ) : Except Crash (StringMap (List UInt8) × ℤ) := do
  let (len, buffer) ← decodeShort mem input
  decodeStringMapLoop mem len.toNat buffer []

/-- The loop of `decode_stringlist`. -/
def decodeStringlistLoop : ℕ → ℤ → List (List UInt8) → Except Crash (List (List UInt8) × ℤ)
  | 0, buffer, output => return (output, buffer)
  | n + 1, buffer, output => do
    let (s, sSize, buffer) ← decodeString mem buffer 0
    let string ← read mem s sSize
    decodeStringlistLoop n buffer (output ++ [string])

/-- `decode_stringlist`. -/
def decodeStringlist (input : ℤ) : Except Crash (List (List UInt8) × ℤ) := do
  let (len, buffer) ← decodeShort mem input
  decodeStringlistLoop mem len.toNat buffer []

/-- The loop of `decode_string_multimap`. -/
def decodeStringMultimapLoop : ℕ → ℤ → StringMap (List (List UInt8)) →
    Except Crash (StringMap (List (List UInt8)) × ℤ)
  | 0, buffer, output => return (output, buffer)
  | n + 1, buffer, output => do
    let (key, keySize, buffer) ← decodeString mem buffer 0
    let (value, buffer) ← decodeStringlist mem buffer
    let k ← read mem key keySize
    decodeStringMultimapLoop n buffer (output.insertNew k value)

/-- `decode_string_multimap`. -/
def decodeStringMultimap (input : ℤ) : Except Crash (StringMap (List (List UInt8)) × ℤ) := do
  let (len, buffer) ← decodeShort mem input
  decodeStringMultimapLoop mem len.toNat buffer []

/-- `decode_option`: the type, the class name (only a `CUSTOM` type has one) and
    the position after them. -/
def decodeOption (input : ℤ) (className : Option ℤ) (classNameSize : ℕ) :
    Except Crash (ℤ × Option ℤ × ℕ × ℤ) := do
  let (type, buffer) ← decodeShort mem input
  if type = cqlColumnTypeCustom then
    let (name, size, buffer) ← decodeString mem buffer classNameSize
    return (type, some name, size, buffer)
  else
    return (type, className, classNameSize, buffer)

end

end CqlClient
