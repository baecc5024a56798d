/-
  CqlClient formalization — the multimap of a SUPPORTED message.

  A multimap and each of its lists start with their length in two bytes.  The
  decoders read these lengths as `int16_t`, so that 32768 elements and more are
  none.  `decodeStringMultimap_wire` decodes a multimap of smaller counts, and
  `decodeStringMultimap_bound` says that nothing larger is ever decoded.
-/
import CqlClient.StringMapCodec

namespace CqlClient

open Word Wire

variable {mem : List UInt8} {pos next : ℤ}

/-! ## The grammar -/

/-- A string list: its length in two bytes, and its strings. -/
def wireStringList (l : List (List UInt8)) : List UInt8 :=
  bigEndian 2 l.length ++ l.flatMap wireString

/-- A string multimap: the number of its pairs in two bytes, and the pairs. -/
def wireStringMultimap (pairs : List (List UInt8 × List (List UInt8))) : List UInt8 :=
  bigEndian 2 pairs.length ++ pairs.flatMap fun it => wireString it.1 ++ wireStringList it.2

/-- The keys are distinct, and every length fits its two bytes. -/
structure FitsWire (pairs : List (List UInt8 × List (List UInt8))) : Prop where
  distinct : StringMap.Distinct pairs
  count : pairs.length ≤ 65535
  counts : ∀ it ∈ pairs, it.2.length ≤ 65535
  keys : ∀ it ∈ pairs, it.1.length ≤ 65535
  strings : ∀ it ∈ pairs, ∀ s ∈ it.2, s.length ≤ 65535

/-- The decoder returns the mapping and the end of its encoding, and a new body takes the
    two lists it is interested in. -/
def DecodedCompletely (pairs : List (List UInt8 × List (List UInt8))) (trailing : List UInt8) :
    Prop :=
  (∃ m, decodeStringMultimap (wireStringMultimap pairs ++ trailing) 0 =
      .ok (m, (wireStringMultimap pairs).length) ∧ m.Sorted ∧ ∀ it, it ∈ m ↔ it ∈ pairs) ∧
  BodySupported.consume {} (wireStringMultimap pairs ++ trailing) =
    .ok (⟨(pairs.lookup keyCompression).getD [], (pairs.lookup keyCqlVersion).getD []⟩, true)

/-! ## Decoding the grammar -/

/-- A count below `2 ^ 15` is decoded as it is. -/
theorem decodeShort_count {n : ℕ} (h : Contains mem pos (bigEndian 2 n)) (hn : n ≤ 32767) :
    decodeShort mem pos = .ok ((n : ℤ), pos + 2) := by
  rw [decodeShort_wire h (by omega), toInt16_eq (by omega) (by omega)]

theorem decodeStringlistLoop_wire (l : List (List UInt8)) {output : List (List UInt8)}
    (h : Contains mem pos (l.flatMap wireString)) (hlen : ∀ s ∈ l, s.length ≤ 65535) :
    decodeStringlistLoop mem l.length pos output =
      .ok (output ++ l, pos + (l.flatMap wireString).length) := by
  induction l generalizing pos output with
  | nil => simp [decodeStringlistLoop, pure, Except.pure]
  | cons s l ih =>
    obtain ⟨hs, hl⟩ := List.forall_mem_cons.1 hlen
    rw [List.flatMap_cons] at h
    obtain ⟨hdec, htext⟩ := decodeString_wire h.left hs
    rw [List.length_cons, decodeStringlistLoop, hdec, ok_bind]
    simp only
    rw [htext.read, ok_bind, ih h.right hl, List.flatMap_cons, List.append_assoc,
      List.singleton_append]
    simp only [List.length_append, Nat.cast_add, Int.add_assoc]

theorem decodeStringlist_wire {l : List (List UInt8)} (h : Contains mem pos (wireStringList l))
    (hcount : l.length ≤ 32767) (hlen : ∀ s ∈ l, s.length ≤ 65535) :
    decodeStringlist mem pos = .ok (l, pos + (wireStringList l).length) := by
  have hstrings := h.right
  rw [length_bigEndian, Nat.cast_ofNat] at hstrings
  rw [decodeStringlist, decodeShort_count h.left hcount, ok_bind]
  simp only [Int.toNat_natCast]
  rw [decodeStringlistLoop_wire l hstrings hlen, wireStringList, List.length_append,
    length_bigEndian]
  simp only [List.nil_append, Nat.cast_add, Nat.cast_ofNat, Int.add_assoc]

theorem decodeStringMultimapLoop_wire (pairs : List (List UInt8 × List (List UInt8)))
    {m : StringMap (List (List UInt8))}
    (h : Contains mem pos (pairs.flatMap fun it => wireString it.1 ++ wireStringList it.2))
    (hcounts : ∀ it ∈ pairs, it.2.length ≤ 32767) (hkeys : ∀ it ∈ pairs, it.1.length ≤ 65535)
    (hstrings : ∀ it ∈ pairs, ∀ s ∈ it.2, s.length ≤ 65535) :
    decodeStringMultimapLoop mem pairs.length pos m =
      .ok (pairs.foldl (fun m it => m.insertNew it.1 it.2) m,
        pos + (pairs.flatMap fun it => wireString it.1 ++ wireStringList it.2).length) := by
  induction pairs generalizing pos m with
  | nil => simp [decodeStringMultimapLoop, pure, Except.pure]
  | cons it pairs ih =>
    obtain ⟨hcount, hcounts⟩ := List.forall_mem_cons.1 hcounts
    obtain ⟨hkey, hkeys⟩ := List.forall_mem_cons.1 hkeys
    obtain ⟨hstring, hstrings⟩ := List.forall_mem_cons.1 hstrings
    rw [List.flatMap_cons] at h
    obtain ⟨hdec, htext⟩ := decodeString_wire h.left.left hkey
    have hlist := decodeStringlist_wire h.left.right hcount hstring
    have hnext := h.right
    rw [List.length_append, Nat.cast_add, ← Int.add_assoc] at hnext
    rw [List.length_cons, decodeStringMultimapLoop, hdec, ok_bind]
    simp only
    rw [hlist, ok_bind]
    simp only
    rw [htext.read, ok_bind, ih hnext hcounts hkeys hstrings, List.foldl_cons, List.flatMap_cons]
    simp only [List.length_append, Nat.cast_add, Int.add_assoc]

theorem decodeStringMultimap_wire {pairs : List (List UInt8 × List (List UInt8))}
    (h : Contains mem 0 (wireStringMultimap pairs)) (hfits : FitsWire pairs)
    (hcount : pairs.length ≤ 32767) (hcounts : ∀ it ∈ pairs, it.2.length ≤ 32767) :
    decodeStringMultimap mem 0 =
      .ok (pairs.foldl (fun m it => StringMap.insertNew it.1 it.2 m) [],
        (wireStringMultimap pairs).length) := by
  have hpairs := h.right
  rw [length_bigEndian, Nat.cast_ofNat] at hpairs
  rw [decodeStringMultimap, decodeShort_count h.left hcount, ok_bind]
  simp only [Int.toNat_natCast]
  rw [decodeStringMultimapLoop_wire pairs hpairs hcounts hfits.keys hfits.strings,
    wireStringMultimap, List.length_append, length_bigEndian]
  simp only [Nat.cast_add, Nat.cast_ofNat, Int.zero_add]

/-! ## What the decoders can return -/

theorem decodeStringlistLoop_bound {n : ℕ} {output l : List (List UInt8)}
    (h : decodeStringlistLoop mem n pos output = .ok (l, next)) :
    l.length ≤ output.length + n := by
  induction n generalizing pos output with
  | zero =>
    cases h
    exact le_rfl
  | succ n ih =>
    obtain ⟨⟨s, sSize, buffer⟩, _, h⟩ := bind_eq_ok h
    obtain ⟨string, _, h⟩ := bind_eq_ok h
    have hlen := ih h
    rw [List.length_append, List.length_singleton] at hlen
    omega

theorem decodeStringlist_bound {l : List (List UInt8)}
    (h : decodeStringlist mem pos = .ok (l, next)) : l.length ≤ 32767 := by
  obtain ⟨⟨len, buffer⟩, hlen, h⟩ := bind_eq_ok h
  have hle := decodeShort_le hlen
  have hcount := decodeStringlistLoop_bound h
  rw [List.length_nil] at hcount
  omega

theorem decodeStringMultimapLoop_bound {n : ℕ} {m m' : StringMap (List (List UInt8))}
    (h : decodeStringMultimapLoop mem n pos m = .ok (m', next)) :
    m'.length ≤ m.length + n ∧ ∀ it ∈ m', it ∈ m ∨ it.2.length ≤ 32767 := by
  induction n generalizing pos m with
  | zero =>
    cases h
    exact ⟨le_rfl, fun it hit => Or.inl hit⟩
  | succ n ih =>
    obtain ⟨⟨key, keySize, pos₁⟩, _, h⟩ := bind_eq_ok h
    obtain ⟨⟨value, pos₂⟩, hvalue, h⟩ := bind_eq_ok h
    obtain ⟨k, _, h⟩ := bind_eq_ok h
    obtain ⟨hlen, hmem⟩ := ih h
    have hinsert := m.length_insertNew_le k value
    refine ⟨by omega, ?_⟩
    intro it hit
    rcases hmem it hit with hit | hit
    · rcases StringMap.mem_of_mem_insertNew hit with rfl | hit
      · exact Or.inr (decodeStringlist_bound hvalue)
      · exact Or.inl hit
    · exact Or.inr hit

/-- No byte string decodes to more. -/
theorem decodeStringMultimap_bound {m : StringMap (List (List UInt8))}
    (h : decodeStringMultimap mem pos = .ok (m, next)) :
    m.length ≤ 32767 ∧ ∀ it ∈ m, it.2.length ≤ 32767 := by
  obtain ⟨⟨len, buffer⟩, hlen, h⟩ := bind_eq_ok h
  obtain ⟨hcount, hmem⟩ := decodeStringMultimapLoop_bound h
  have hle := decodeShort_le hlen
  rw [List.length_nil] at hcount
  refine ⟨by omega, ?_⟩
  intro it hit
  rcases hmem it hit with hit | hit
  · exact absurd hit List.not_mem_nil
  · exact hit

/-! ## The domain -/

/-- **A multimap is decoded completely exactly when neither it nor one of its lists has
    more than 32767 elements.** -/
theorem decodedCompletely_iff {pairs : List (List UInt8 × List (List UInt8))}
    (hfits : FitsWire pairs) (trailing : List UInt8) :
    DecodedCompletely pairs trailing ↔
      pairs.length ≤ 32767 ∧ ∀ it ∈ pairs, it.2.length ≤ 32767 := by
  constructor
  · rintro ⟨⟨m, hdec, hsorted, hmem⟩, _⟩
    obtain ⟨hcount, hcounts⟩ := decodeStringMultimap_bound hdec
    have hperm : m.Perm pairs :=
      (List.perm_ext_iff_of_nodup hsorted.distinct.nodup hfits.distinct.nodup).2 hmem
    rw [hperm.length_eq] at hcount
    refine ⟨hcount, ?_⟩
    intro it hit
    exact hcounts it ((hmem it).2 hit)
  · rintro ⟨hcount, hcounts⟩
    have hcontains := contains_prefix (wireStringMultimap pairs) trailing
    have hdec := decodeStringMultimap_wire hcontains hfits hcount hcounts
    have hempty : StringMap.Sorted ([] : StringMap (List (List UInt8))) := List.Pairwise.nil
    have hsorted := hempty.foldl_insertNew pairs
    have hmem : ∀ it, it ∈ pairs.foldl (fun m it => StringMap.insertNew it.1 it.2 m) [] ↔
        it ∈ pairs := by
      intro it
      rw [StringMap.mem_foldl_insertNew hfits.distinct (by simp)]
      simp
    refine ⟨⟨_, hdec, hsorted, hmem⟩, ?_⟩
    rw [BodySupported.consume, hdec, ok_bind]
    simp only [StringMap.find]
    rw [StringMap.lookup_congr hsorted.distinct hfits.distinct hmem keyCompression,
      StringMap.lookup_congr hsorted.distinct hfits.distinct hmem keyCqlVersion]
    rfl

/-- A server of one version. -/
theorem decodedCompletely_version :
    DecodedCompletely [(keyCqlVersion, [ascii "3.0.0"])] [7] := by
  refine (decodedCompletely_iff ?_ [7]).2 (by simp)
  constructor
  · exact List.pairwise_singleton _ _
  · simp
  · simp
  · simp [keyCqlVersion, ascii]
  · simp [ascii]

/-- As many versions as the protocol can say, of no bytes each. -/
theorem fitsWire_versions {n : ℕ} (hn : n ≤ 65535) :
    FitsWire [(keyCqlVersion, List.replicate n [])] := by
  constructor
  · exact List.pairwise_singleton _ _
  · simp
  · simpa using hn
  · simp [keyCqlVersion, ascii]
  · intro it hit s hs
    rw [List.mem_singleton.1 hit] at hs
    rw [List.eq_of_mem_replicate hs]
    simp

/-- The number of 32768 versions is decoded as a negative one. -/
theorem not_decodedCompletely_versions :
    FitsWire [(keyCqlVersion, List.replicate 32768 [])] ∧
      ¬ DecodedCompletely [(keyCqlVersion, List.replicate 32768 [])] [] := by
  refine ⟨fitsWire_versions (by norm_num), ?_⟩
  rintro ⟨⟨m, hdec, _, hmem⟩, _⟩
  have hcount := (decodeStringMultimap_bound hdec).2 _ ((hmem _).2 List.mem_cons_self)
  rw [List.length_replicate] at hcount
  norm_num at hcount

end CqlClient
