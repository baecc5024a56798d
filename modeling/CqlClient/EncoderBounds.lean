/-
  CqlClient formalization — the encoders and the buffers that they write to.

  A body's `prepare` allocates the frame, and writes the body behind the header, for which
  `Message.prepare` writes the first eight bytes.  OPTIONS and READY allocate as many bytes as
  the size that they are given, which is 0, before they set it.  All other bodies write inside
  what they allocate, as long as the sizes do not wrap (`prepare_inBounds_iff`).
-/
import CqlClient.Emission

namespace CqlClient

/-- How many bytes `prepare` writes behind the header.  The text of an ERROR is copied by its
    size, whatever is at the pointer. -/
def Body.extent (bytes : List UInt8) : Body → ℕ
  | .error b => 4 + (2 + b.messageSize)
  | _ => bytes.length

/-- The size that `prepare` computes, before it is cut to a `size_t`. -/
def Body.frameSize (b : Body) : ℕ :=
  cqlHeaderSize + b.wireSize + if b.hasSerialConsistency then 2 else 0

/-- The bodies that allocate before they compute the size. -/
def Body.allocatesFirst : Body → Bool
  | .options | .ready => true
  | _ => false

theorem Body.encode_extent (mem : List UInt8) {b : Body} (hsent : b.sent = true)
    (reserved size : ℕ) : ∃ bytes, b.extent bytes = b.wireSize ∧
      b.encode mem reserved size = ⟨true,
        some (reserved + b.wireSize + (if b.hasSerialConsistency then 2 else 0), bytes),
        reserved + b.wireSize + if b.hasSerialConsistency then 2 else 0⟩ := by
  cases b with
  | error b =>
    refine ⟨encodeInt b.code ++ encodeString (b.message.bytes mem b.messageSize), rfl, ?_⟩
    simp only [encode, BodyError.prepare, wireSize, Nat.add_assoc]
    rfl
  | startup | prepare | query => exact encode_sent hsent trivial reserved size
  | result | options | supported | ready => cases hsent

namespace Message

/-- Every position that is written, by the header or by the body, is in the buffer, and so is
    the size that is returned. -/
structure Encoded.InBounds (e : Encoded) (b : Body) : Prop where
  header : ∀ i < e.header.length, i < e.allocated % 2 ^ 64
  body : ∀ i < b.extent e.body, cqlHeaderSize + i < e.allocated % 2 ^ 64
  size : e.size % 2 ^ 64 ≤ e.allocated % 2 ^ 64

variable {m : Message} {b : Body}

/-- A frame that is allocated by its size, with its last byte written or not. -/
theorem inBounds_allocated {e : Encoded} (hheader : e.header.length = cqlHeaderSize)
    (hextent : b.extent e.body = b.wireSize) (hallocated : e.allocated = b.frameSize)
    (hsize : e.size = b.frameSize) : e.InBounds b ↔ b.frameSize < 2 ^ 64 := by
  have height : cqlHeaderSize = 8 := rfl
  have hframe : cqlHeaderSize + b.wireSize ≤ b.frameSize ∧
      b.frameSize ≤ cqlHeaderSize + b.wireSize + 2 := by
    unfold Body.frameSize
    split <;> omega
  constructor
  · rintro ⟨hheader', hbody, -⟩
    by_contra hge
    -- the sizes have wrapped, and the last byte of the body is not in the buffer
    have hlast := hbody (b.wireSize - 1) (by rw [hextent]; omega)
    have hwrap := Nat.mod_add_div e.allocated (2 ^ 64)
    rw [hallocated] at hlast hwrap
    have hpos : 1 ≤ b.frameSize / 2 ^ 64 := Nat.div_pos (by omega) (by norm_num)
    omega
  · intro hlt
    have hmod : e.allocated % 2 ^ 64 = b.frameSize := by
      rw [hallocated, Nat.mod_eq_of_lt hlt]
    refine ⟨?_, ?_, ?_⟩
    · intro i hi
      omega
    · intro i hi
      omega
    · rw [hsize, hallocated]

theorem prepare_allocatesFirst (hbody : m.body = some b) (hb : b.allocatesFirst = true) :
    ∃ e, m.prepare.2 = some e ∧ e.allocated = 0 ∧ e.header.length = cqlHeaderSize := by
  have hencode : b.encode (m.bodyBuffer.take m.length.toNat) cqlHeaderSize 0 =
      emptyPrepare cqlHeaderSize 0 := by
    cases b with
    | options | ready => rfl
    | _ => cases hb
  unfold prepare
  rw [hbody]
  simp only
  rw [hencode, if_neg (by simp [emptyPrepare, cqlHeaderSize])]
  exact ⟨_, rfl, rfl, length_encodeHeader _⟩

/-- SUPPORTED and RESULT: `prepare` leaves the size 0. -/
theorem prepare_unsent (hbody : m.body = some b) (hb : b.allocatesFirst = false)
    (hsent : b.sent = false) :
    m.prepare.2 = some ⟨cqlHeaderSize, m.encodeHeader, [], cqlHeaderSize⟩ := by
  have hencode : b.encode (m.bodyBuffer.take m.length.toNat) cqlHeaderSize 0 = noPrepare 0 := by
    cases b with
    | result | supported => rfl
    | options | ready => cases hb
    | _ => cases hsent
  unfold prepare
  rw [hbody]
  simp only
  have hzero : (noPrepare 0).size = 0 := rfl
  rw [hencode, if_pos hzero]

theorem not_inBounds_of_allocatesFirst {e : Encoded} (h : e.allocated = 0)
    (hheader : e.header.length = cqlHeaderSize) : ¬ e.InBounds b := by
  intro hbounds
  have hzero := hbounds.header 0 (by rw [hheader]; decide)
  rw [h] at hzero
  cases hzero

/-- **The encoders** write inside what they allocate just if the size is known before the
    allocation, and fits. -/
theorem prepare_inBounds_iff (hbody : m.body = some b) : ∃ e, m.prepare.2 = some e ∧
    (e.InBounds b ↔ b.allocatesFirst = false ∧ b.frameSize < 2 ^ 64) := by
  rcases hfirst : b.allocatesFirst with _ | _
  · rcases hsent : b.sent with _ | _
    · refine ⟨_, prepare_unsent hbody hfirst hsent, ?_⟩
      have hextent : b.extent [] = b.wireSize ∧ b.frameSize = cqlHeaderSize := by
        cases b with
        | result | supported => exact ⟨rfl, rfl⟩
        | options | ready => cases hfirst
        | _ => cases hsent
      rw [inBounds_allocated (length_encodeHeader m) hextent.1 hextent.2.symm hextent.2.symm]
      exact (and_iff_right rfl).symm
    · obtain ⟨bytes, hextent, hencode⟩ :=
        Body.encode_extent (m.bodyBuffer.take m.length.toNat) hsent cqlHeaderSize 0
      rw [prepare_of_encode hbody (by simp [cqlHeaderSize]) hencode]
      refine ⟨_, rfl, ?_⟩
      rw [inBounds_allocated (length_encodeHeader _) hextent rfl rfl]
      exact (and_iff_right rfl).symm
  · obtain ⟨e, he, hallocated, hheader⟩ := prepare_allocatesFirst hbody hfirst
    refine ⟨e, he, iff_of_false (not_inBounds_of_allocatesFirst hallocated hheader) ?_⟩
    rintro ⟨h, -⟩
    cases h

/-- A PREPARE. -/
theorem inBounds_prepare : ∃ e, (prepare { new (fun _ => 0) with
      opcode := cqlOpcodePrepare
      body := some (.prepare ⟨ascii "SELECT"⟩) }).2 = some e ∧
    e.InBounds (.prepare ⟨ascii "SELECT"⟩) := by
  obtain ⟨e, he, hiff⟩ := prepare_inBounds_iff (m := { new (fun _ => 0) with
    opcode := cqlOpcodePrepare
    body := some (.prepare ⟨ascii "SELECT"⟩) }) rfl
  refine ⟨e, he, hiff.2 ⟨rfl, ?_⟩⟩
  decide

/-- OPTIONS, whose header is written to a buffer of no bytes. -/
theorem not_inBounds_options : ¬ ∃ e, (prepare { new (fun _ => 0) with
    opcode := cqlOpcodeOptions, body := some .options }).2 = some e ∧ e.InBounds .options := by
  rintro ⟨e, he, hbounds⟩
  obtain ⟨e', he', hallocated, hheader⟩ := prepare_allocatesFirst (m := { new (fun _ => 0) with
    opcode := cqlOpcodeOptions, body := some .options }) rfl rfl
  obtain rfl : e = e' := Option.some.inj (he.symm.trans he')
  exact not_inBounds_of_allocatesFirst hallocated hheader hbounds

end Message

end CqlClient
