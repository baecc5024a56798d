/-
  CqlClient formalization — the domain of `encode_string_map` and
  `decode_string_map`.

  The number of entries is decoded as an `int16_t`, the bound of a signed loop,
  and the length of a string through an `int16_t&` to a `size_t`, so that the
  largest number of entries is 32767 and the largest length 65535.
  `decodeStringMapLoop_bound` says what the decoder can return at all; what the
  encoder wrote within these bounds is `decodeStringMap_contains`.
-/
import CqlClient.Decoding
import CqlClient.StringMap

namespace CqlClient

open Word Wire

variable {mem : List UInt8} {pos next : ℤ}

/-! ## What the decoders can return -/

theorem read_length {n : ℕ} {bytes : List UInt8} (h : read mem pos n = .ok bytes) :
    bytes.length = n := by
  rw [read] at h
  split at h
  · rename_i hin
    cases h
    rw [List.length_take, List.length_drop]
    omega
  · cases h

theorem decodeShort_le {v : ℤ} (h : decodeShort mem pos = .ok (v, next)) : v ≤ 32767 := by
  obtain ⟨bytes, _, h⟩ := bind_eq_ok h
  obtain ⟨rfl, _⟩ := Prod.mk.inj (Except.ok.inj h)
  have hrange := (toInt16_range (ofBigEndian bytes)).2
  omega

/-- A string whose size was zero before. -/
theorem decodeString_le {output : ℤ} {size : ℕ}
    (h : decodeString mem pos 0 = .ok (output, size, next)) : size ≤ 65535 := by
  obtain ⟨⟨len, output'⟩, _, h⟩ := bind_eq_ok h
  have hsize := (Prod.mk.inj (Prod.mk.inj (Except.ok.inj h)).2).1
  omega

/-- The entries of the result are old ones or as long as two bytes can say, and there
    are at most as many new ones as the loop has turns. -/
theorem decodeStringMapLoop_bound {n : ℕ} {m m' : StringMap (List UInt8)}
    (h : decodeStringMapLoop mem n pos m = .ok (m', next)) :
    m'.length ≤ m.length + n ∧
      ∀ it ∈ m', it ∈ m ∨ it.1.length ≤ 65535 ∧ it.2.length ≤ 65535 := by
  induction n generalizing pos m with
  | zero =>
    cases h
    exact ⟨le_rfl, fun it hit => Or.inl hit⟩
  | succ n ih =>
    obtain ⟨⟨key, keySize, pos₁⟩, hkey, h⟩ := bind_eq_ok h
    obtain ⟨⟨value, valueSize, pos₂⟩, hvalue, h⟩ := bind_eq_ok h
    obtain ⟨k, hk, h⟩ := bind_eq_ok h
    obtain ⟨v, hv, h⟩ := bind_eq_ok h
    obtain ⟨hlen, hmem⟩ := ih h
    have hinsert := m.length_insertNew_le k v
    refine ⟨by omega, ?_⟩
    intro it hit
    rcases hmem it hit with hit | hit
    · rcases StringMap.mem_of_mem_insertNew hit with rfl | hit
      · have hkeySize := decodeString_le hkey
        have hvalueSize := decodeString_le hvalue
        exact Or.inr ⟨(read_length hk).trans_le hkeySize, (read_length hv).trans_le hvalueSize⟩
      · exact Or.inl hit
    · exact Or.inr hit

/-- No byte string decodes to more. -/
theorem decodeStringMap_bound {m : StringMap (List UInt8)}
    (h : decodeStringMap mem pos = .ok (m, next)) :
    m.length ≤ 32767 ∧ ∀ it ∈ m, it.1.length ≤ 65535 ∧ it.2.length ≤ 65535 := by
  obtain ⟨⟨len, buffer⟩, hlen, h⟩ := bind_eq_ok h
  obtain ⟨hcount, hmem⟩ := decodeStringMapLoop_bound h
  have hle := decodeShort_le hlen
  rw [List.length_nil] at hcount
  refine ⟨by omega, ?_⟩
  intro it hit
  rcases hmem it hit with hit | hit
  · exact absurd hit List.not_mem_nil
  · exact hit

/-! ## The domain -/

/-- Inserted one by one, the entries of a map are the map. -/
theorem StringMap.Sorted.foldl_eq {β : Type} {m : StringMap β} (h : m.Sorted) :
    m.foldl (fun (m : StringMap β) it => m.insertNew it.1 it.2) [] = m := by
  have hempty : Sorted ([] : StringMap β) := List.Pairwise.nil
  refine (hempty.foldl_insertNew m).eq_of_mem_iff h ?_
  intro it
  rw [mem_foldl_insertNew h.distinct (by simp)]
  simp

/-- **A map survives the string-map codec exactly when it has at most 32767 entries and
    no string of more than 65535 bytes.** -/
theorem stringMap_codec_iff {m : StringMap (List UInt8)} (hm : m.Sorted)
    (trailing : List UInt8) :
    decodeStringMap (encodeStringMap m ++ trailing) 0 = .ok (m, (encodeStringMap m).length) ↔
      m.length ≤ 32767 ∧ ∀ it ∈ m, it.1.length ≤ 65535 ∧ it.2.length ≤ 65535 := by
  constructor
  · intro h
    exact decodeStringMap_bound h
  · rintro ⟨hcount, hlen⟩
    have hcontains := contains_prefix (encodeStringMap m) trailing
    have hdec := decodeStringMap_contains hcontains (by omega) hlen
    rwa [hm.foldl_eq] at hdec

/-- The version of a STARTUP, with a byte behind it. -/
theorem stringMap_codec_startup :
    decodeStringMap (encodeStringMap [(keyCqlVersion, ascii "3.0.0")] ++ [7]) 0 =
      .ok ([(keyCqlVersion, ascii "3.0.0")],
        (encodeStringMap [(keyCqlVersion, ascii "3.0.0")]).length) :=
  (stringMap_codec_iff (List.pairwise_singleton _ _) [7]).2
    ⟨by decide, by simp [keyCqlVersion, ascii]⟩

end CqlClient
