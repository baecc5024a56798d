/-
  CqlClient formalization — decoding what was encoded.

  A buffer `Contains` bytes at a position, and the decoders find there what the
  encoders wrote, whatever is before and behind it.
-/
import CqlClient.Body

namespace CqlClient

open Word Wire

/-! ## The lengths of the encoders -/

@[simp] theorem length_encodeShort (v : ℤ) : (encodeShort v).length = 2 := length_bigEndian _ _

@[simp] theorem length_encodeInt (v : ℤ) : (encodeInt v).length = 4 := length_bigEndian _ _

@[simp] theorem length_encodeString (bs : List UInt8) :
    (encodeString bs).length = 2 + bs.length := by
  rw [encodeString, List.length_append, length_encodeShort]

@[simp] theorem length_encodeLongString (bs : List UInt8) :
    (encodeLongString bs).length = 4 + bs.length := by
  rw [encodeLongString, List.length_append, length_encodeInt]

/-! ## Bytes in a buffer -/

/-- The bytes are in the buffer from this position on. -/
def Contains (mem : List UInt8) (pos : ℤ) (bytes : List UInt8) : Prop :=
  ∃ pre post, mem = pre ++ bytes ++ post ∧ pos = pre.length

variable {mem bytes bytes' : List UInt8} {pos : ℤ}

theorem contains_self (bytes : List UInt8) : Contains bytes 0 bytes := ⟨[], [], by simp, rfl⟩

theorem contains_prefix (bytes trailing : List UInt8) : Contains (bytes ++ trailing) 0 bytes :=
  ⟨[], trailing, by simp, rfl⟩

theorem Contains.left (h : Contains mem pos (bytes ++ bytes')) : Contains mem pos bytes := by
  obtain ⟨pre, post, rfl, rfl⟩ := h
  exact ⟨pre, bytes' ++ post, by simp only [List.append_assoc], rfl⟩

theorem Contains.right (h : Contains mem pos (bytes ++ bytes')) :
    Contains mem (pos + bytes.length) bytes' := by
  obtain ⟨pre, post, rfl, rfl⟩ := h
  exact ⟨pre ++ bytes, post, by simp only [List.append_assoc], by simp⟩

theorem Contains.read (h : Contains mem pos bytes) :
    read mem pos bytes.length = .ok bytes := by
  obtain ⟨pre, post, rfl, rfl⟩ := h
  rw [CqlClient.read, if_pos (by simp), Int.toNat_natCast, List.append_assoc, List.drop_left,
    List.take_left]

/-- The bytes that a pointer into the buffer denotes. -/
theorem Contains.text (h : Contains mem pos bytes) :
    (CharPtr.inBody pos).bytes mem bytes.length = bytes := by
  obtain ⟨pre, post, rfl, rfl⟩ := h
  rw [CharPtr.bytes, Int.toNat_natCast, List.append_assoc, List.drop_left, List.take_left]

/-! ## Decoding the grammar -/

/-- A string: its length in two bytes, and its bytes. -/
def wireString (bytes : List UInt8) : List UInt8 := bigEndian 2 bytes.length ++ bytes

/-- A long string: its length in four bytes, and its bytes. -/
def wireLongString (bytes : List UInt8) : List UInt8 := bigEndian 4 bytes.length ++ bytes

@[simp] theorem length_wireString (bytes : List UInt8) :
    (wireString bytes).length = 2 + bytes.length := by
  rw [wireString, List.length_append, length_bigEndian]

@[simp] theorem length_wireLongString (bytes : List UInt8) :
    (wireLongString bytes).length = 4 + bytes.length := by
  rw [wireLongString, List.length_append, length_bigEndian]

theorem Contains.nil (h : Contains mem pos bytes) : Contains mem pos [] := by
  obtain ⟨pre, post, rfl, rfl⟩ := h
  exact ⟨pre, bytes ++ post, by simp, rfl⟩

theorem ok_bind {α β : Type} (a : α) (f : α → Except Crash β) :
    (Except.ok a >>= f) = f a := rfl

theorem bind_eq_ok {α β : Type} {x : Except Crash α} {f : α → Except Crash β} {r : β}
    (h : (x >>= f) = .ok r) : ∃ a, x = .ok a ∧ f a = .ok r := by
  cases x with
  | error e => nomatch h
  | ok a => exact ⟨a, rfl, h⟩

theorem decodeShort_wire {n : ℕ} (h : Contains mem pos (bigEndian 2 n)) (hn : n < 2 ^ 16) :
    decodeShort mem pos = .ok (toInt16 n, pos + 2) := by
  have hread := h.read
  rw [length_bigEndian] at hread
  rw [decodeShort, hread, ok_bind, ofBigEndian_bigEndian hn]
  rfl

theorem decodeInt_wire {n : ℕ} (h : Contains mem pos (bigEndian 4 n)) (hn : n < 2 ^ 32) :
    decodeInt mem pos = .ok (toInt32 n, pos + 4) := by
  have hread := h.read
  rw [length_bigEndian] at hread
  rw [decodeInt, hread, ok_bind, ofBigEndian_bigEndian hn]
  rfl

theorem decodeInt_nat {n : ℕ} (h : Contains mem pos (bigEndian 4 n)) (hn : n < 2 ^ 31) :
    decodeInt mem pos = .ok ((n : ℤ), pos + 4) := by
  rw [decodeInt_wire h (hn.trans (by norm_num)), toInt32_eq (by omega) (by omega)]

/-- The length of a string replaces the low two bytes of a size that is zero. -/
theorem decodeString_wire (h : Contains mem pos (wireString bytes)) (hlen : bytes.length ≤ 65535) :
    decodeString mem pos 0 = .ok (pos + 2, bytes.length, pos + (wireString bytes).length) ∧
      Contains mem (pos + 2) bytes := by
  have hsize : 0 - 0 % 2 ^ 16 + (toInt16 (bytes.length : ℤ) % 2 ^ 16).toNat = bytes.length := by
    rw [toInt16_emod]
    omega
  constructor
  · rw [decodeString, decodeShort_wire h.left (by omega), ok_bind]
    simp only [hsize, length_wireString, Nat.cast_add, Nat.cast_ofNat, Int.add_assoc]
    rfl
  · have hright := h.right
    rwa [length_bigEndian] at hright

/-- The length of a long string replaces the low four bytes of a size that is zero. -/
theorem decodeLongString_wire (h : Contains mem pos (wireLongString bytes))
    (hlen : bytes.length < 2 ^ 32) :
    decodeLongString mem pos 0 =
        .ok (pos + 4, bytes.length, pos + (wireLongString bytes).length) ∧
      Contains mem (pos + 4) bytes := by
  have hsize : 0 - 0 % 2 ^ 32 + (toInt32 (bytes.length : ℤ) % 2 ^ 32).toNat = bytes.length := by
    rw [toInt32_emod]
    omega
  constructor
  · rw [decodeLongString, decodeInt_wire h.left hlen, ok_bind]
    simp only [hsize, length_wireLongString, Nat.cast_add, Nat.cast_ofNat, Int.add_assoc]
    rfl
  · have hright := h.right
    rwa [length_bigEndian] at hright

/-! ## Decoding what was encoded -/

theorem decodeInt_contains {v : ℤ} (h : Contains mem pos (encodeInt v))
    (hv : -2 ^ 31 ≤ v ∧ v < 2 ^ 31) : decodeInt mem pos = .ok (v, pos + 4) := by
  have hcast : (((v % 2 ^ 32).toNat : ℕ) : ℤ) = v % 2 ^ 32 := Int.toNat_of_nonneg (by omega)
  rw [decodeInt_wire h (by omega), hcast, toInt32_of_emod hv.1 hv.2]

theorem decodeShort_contains {v : ℤ} (h : Contains mem pos (encodeShort v))
    (hv : -2 ^ 15 ≤ v ∧ v < 2 ^ 15) : decodeShort mem pos = .ok (v, pos + 2) := by
  have hcast : (((v % 2 ^ 16).toNat : ℕ) : ℤ) = v % 2 ^ 16 := Int.toNat_of_nonneg (by omega)
  rw [decodeShort_wire h (by omega), hcast, toInt16_of_emod hv.1 hv.2]

/-- From `2 ^ 15` bytes on the length is written as a negative `int16_t`. -/
theorem encodeString_eq (hlen : bytes.length ≤ 65535) : encodeString bytes = wireString bytes := by
  have hsize : (toInt16 bytes.length % 2 ^ 16).toNat = bytes.length := by
    rw [toInt16_emod]
    omega
  rw [encodeString, encodeShort, hsize, wireString]

/-- A string of at most 65535 bytes. -/
theorem decodeString_contains (h : Contains mem pos (encodeString bytes))
    (hlen : bytes.length ≤ 65535) :
    decodeString mem pos 0 = .ok (pos + 2, bytes.length, pos + (encodeString bytes).length) ∧
      Contains mem (pos + 2) bytes := by
  rw [encodeString_eq hlen] at h ⊢
  exact decodeString_wire h hlen

/-- The loop of `decode_string_map` inserts the entries that `encode_string_map` wrote. -/
theorem decodeStringMapLoop_contains (entries : StringMap (List UInt8))
    {m : StringMap (List UInt8)} (h : Contains mem pos (entries.flatMap fun it =>
      encodeString it.1 ++ encodeString it.2))
    (hlen : ∀ it ∈ entries, it.1.length ≤ 65535 ∧ it.2.length ≤ 65535) :
    decodeStringMapLoop mem entries.length pos m =
      .ok (entries.foldl (fun m it => m.insertNew it.1 it.2) m,
        pos + (entries.flatMap fun it => encodeString it.1 ++ encodeString it.2).length) := by
  induction entries generalizing pos m with
  | nil => simp [decodeStringMapLoop, pure, Except.pure]
  | cons it entries ih =>
    obtain ⟨hkey, hvalue⟩ := hlen it List.mem_cons_self
    rw [List.flatMap_cons] at h
    obtain ⟨hkdec, hk⟩ := decodeString_contains h.left.left hkey
    obtain ⟨hvdec, hv⟩ := decodeString_contains h.left.right hvalue
    have hnext := h.right
    rw [List.length_append, Nat.cast_add, ← Int.add_assoc] at hnext
    have hloop := ih hnext (m := m.insertNew it.1 it.2)
      fun it' hit' => hlen it' (List.mem_cons_of_mem _ hit')
    rw [List.length_cons, decodeStringMapLoop, hkdec, ok_bind]
    simp only
    rw [hvdec, ok_bind]
    simp only
    rw [hk.read, ok_bind, hv.read, ok_bind, hloop, List.foldl_cons, List.flatMap_cons]
    simp only [List.length_append, Nat.cast_add, Int.add_assoc]

/-- The position after the map is the end of its encoding. -/
theorem decodeStringMap_contains {entries : StringMap (List UInt8)}
    (h : Contains mem 0 (encodeStringMap entries)) (hcount : entries.length < 2 ^ 15)
    (hlen : ∀ it ∈ entries, it.1.length ≤ 65535 ∧ it.2.length ≤ 65535) :
    decodeStringMap mem 0 = .ok (entries.foldl (fun m it => m.insertNew it.1 it.2) [],
      (encodeStringMap entries).length) := by
  have hcast : toInt16 entries.length = entries.length := toInt16_eq (by omega) (by omega)
  unfold encodeStringMap at h ⊢
  rw [hcast] at h ⊢
  have hentries := h.right
  rw [length_encodeShort] at hentries
  have hloop := decodeStringMapLoop_contains entries hentries (m := []) hlen
  unfold decodeStringMap
  rw [decodeShort_contains h.left (by omega), List.length_append, length_encodeShort,
    Nat.cast_add, ← Int.zero_add ((2 : ℕ) : ℤ)]
  exact hloop

end CqlClient
