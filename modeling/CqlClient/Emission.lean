/-
  CqlClient formalization — the frames that are emitted.

  A body's `prepare` computes the size in one pass and writes the bytes in
  another, and `Message.prepare` takes the header's length from the size.  The
  frame is self-consistent when the two passes agree: a receiver's framing then
  ends exactly at the last byte that was written.
-/
import CqlClient.QueryEncoding
import CqlClient.Decoding
import CqlClient.Message

namespace CqlClient

open Word Wire

/-! ## The sizes of the bodies -/

/-- The bytes of a section, if there is anything in it. -/
def sectionSize (bs : List UInt8) (size : ℕ) : ℕ := if bs.isEmpty then 0 else size

/-- The size of the bodies that are sent, by their layout. -/
def Body.wireSize : Body → ℕ
  | .error b => 4 + (2 + b.messageSize)
  | .startup b =>
    2 + sectionSize b.compression (2 + keyCompression.length + (2 + b.compression.length)) +
      sectionSize b.cqlVersion (2 + keyCqlVersion.length + (2 + b.cqlVersion.length))
  | .prepare b => 4 + b.prepareString.length
  | .query b =>
    4 + b.query.length + 2 + 1 +
      (if b.values.isEmpty then 0 else 2 + (b.values.map fun v => 4 + v.length).sum) +
      (if b.pageSizeSet then 4 else 0) + sectionSize b.pagingState (2 + b.pagingState.length) +
      (if b.serialConsistent then 2 else 0)
  | _ => 0

/-- The options of a STARTUP, in key order. -/
def BodyStartup.options (b : BodyStartup) : StringMap (List UInt8) :=
  (if b.compression.isEmpty then [] else [(keyCompression, b.compression)]) ++
    if b.cqlVersion.isEmpty then [] else [(keyCqlVersion, b.cqlVersion)]

theorem assign_cqlVersion (version compression : List UInt8) :
    StringMap.assign keyCqlVersion version [(keyCompression, compression)] =
      [(keyCompression, compression), (keyCqlVersion, version)] := by
  rw [StringMap.assign, if_neg (by decide), if_neg (by decide), StringMap.assign]

theorem BodyStartup.prepare_eq (b : BodyStartup) (reserved : ℕ) : b.prepare reserved =
    ⟨true, some (reserved + (Body.startup b).wireSize, encodeStringMap b.options),
      reserved + (Body.startup b).wireSize⟩ := by
  unfold prepare options Body.wireSize sectionSize
  by_cases hc : b.compression.isEmpty = true
  · by_cases hv : b.cqlVersion.isEmpty = true
    · simp only [if_pos hc, if_pos hv, List.append_nil, Nat.add_zero]
    · simp only [if_pos hc, if_neg hv, List.nil_append, Nat.add_zero, Nat.add_assoc]
      rfl
  · by_cases hv : b.cqlVersion.isEmpty = true
    · simp only [if_neg hc, if_pos hv, List.append_nil, Nat.add_zero, Nat.add_assoc]
      rfl
    · simp only [if_neg hc, if_neg hv, Nat.add_assoc, StringMap.assign, assign_cqlVersion]
      rfl

theorem BodyStartup.length_encode (b : BodyStartup) :
    (encodeStringMap b.options).length = (Body.startup b).wireSize := by
  unfold encodeStringMap options Body.wireSize sectionSize
  by_cases hc : b.compression.isEmpty = true
  · by_cases hv : b.cqlVersion.isEmpty = true
    · simp [hc, hv]
    · simp [hc, hv]
  · by_cases hv : b.cqlVersion.isEmpty = true
    · simp [hc, hv]
    · simp [hc, hv]
      omega

theorem length_flatMap_encodeLongString (values : List (List UInt8)) :
    (values.flatMap encodeLongString).length = (values.map fun v => 4 + v.length).sum := by
  rw [List.length_flatMap]
  simp only [length_encodeLongString]

theorem BodyQuery.length_encode (b : BodyQuery) (flags : ℕ) :
    (b.encode flags).length = (Body.query b).wireSize := by
  unfold encode Body.wireSize sectionSize encodeByte
  simp only [List.length_append, length_encodeLongString, length_encodeShort, List.length_singleton,
    apply_ite List.length, List.length_nil, length_flatMap_encodeLongString, length_encodeInt,
    length_encodeString]

/-- The serial consistency is counted twice. -/
theorem BodyQuery.size_eq (b : BodyQuery) (reserved : ℕ) : (b.sizeAndFlags reserved).1 =
    reserved + (Body.query b).wireSize + if b.serialConsistent then 2 else 0 := by
  simp only [sizeAndFlags, Body.wireSize, sectionSize]
  generalize b.values.isEmpty = noValues, b.pageSizeSet = pageSize,
    b.pagingState.isEmpty = noState, b.serialConsistent = serial
  generalize (b.values.map fun v => 4 + v.length).sum = values
  cases noValues <;> cases pageSize <;> cases noState <;> cases serial <;>
    simp only [Bool.false_eq_true, if_true, if_false] <;> omega

/-! ## Bodies that are sent -/

/-- The bodies with data that a client or a server sends. -/
def Body.sent : Body → Bool
  | .error _ | .startup _ | .prepare _ | .query _ => true
  | _ => false

/-- The message of an ERROR is as long as it says. -/
def Body.TextIn (mem : List UInt8) : Body → Prop
  | .error b => (b.message.bytes mem b.messageSize).length = b.messageSize
  | _ => True

/-- A QUERY with a serial consistency, which `prepare` counts twice. -/
def Body.hasSerialConsistency : Body → Bool
  | .query b => b.serialConsistent
  | _ => false

/-- **Both passes of `prepare`**: the bytes have the size of the layout, and the size
    is two more if the serial consistency was counted twice. -/
theorem Body.encode_sent {mem : List UInt8} {b : Body} (hsent : b.sent = true)
    (htext : b.TextIn mem) (reserved size : ℕ) : ∃ bytes, bytes.length = b.wireSize ∧
      b.encode mem reserved size = ⟨true,
        some (reserved + b.wireSize + (if b.hasSerialConsistency then 2 else 0), bytes),
        reserved + b.wireSize + if b.hasSerialConsistency then 2 else 0⟩ := by
  cases b with
  | error b =>
    refine ⟨encodeInt b.code ++ encodeString (b.message.bytes mem b.messageSize), ?_, ?_⟩
    · rw [List.length_append, length_encodeInt, length_encodeString, htext]
      rfl
    · simp only [encode, BodyError.prepare, wireSize, Nat.add_assoc]
      rfl
  | startup b =>
    refine ⟨_, b.length_encode, ?_⟩
    exact b.prepare_eq reserved
  | prepare b =>
    refine ⟨_, length_encodeLongString _, ?_⟩
    simp only [encode, BodyPrepare.prepare, wireSize, Nat.add_assoc]
    rfl
  | query b =>
    refine ⟨_, b.length_encode (b.sizeAndFlags reserved).2, ?_⟩
    simp only [encode, BodyQuery.prepare, b.size_eq]
    rfl
  | result => cases hsent
  | options => cases hsent
  | supported => cases hsent
  | ready => cases hsent

/-! ## Frames -/

namespace Message

/-- **The claim on a frame**: its size is eight more than the bytes of the body, every
    position of it is written, by the header or by the body, and the header's length
    is the size of the rest. -/
structure Encoded.Consistent (e : Encoded) : Prop where
  size : e.size = cqlHeaderSize + e.body.length
  written : ∀ i < e.size, i < e.header.length ∨
    cqlHeaderSize ≤ i ∧ i < cqlHeaderSize + e.body.length
  length : toInt32 (ofBigEndian (e.header.drop 4)) = (e.size : ℤ) - cqlHeaderSize

theorem length_encodeHeader (m : Message) : m.encodeHeader.length = cqlHeaderSize := by
  simp [encodeHeader, cqlHeaderSize]

/-- The length field of a header. -/
theorem length_field (m : Message) (hlen : -2 ^ 31 ≤ m.length ∧ m.length < 2 ^ 31) :
    toInt32 (ofBigEndian (m.encodeHeader.drop 4)) = m.length := by
  have hdrop : m.encodeHeader.drop 4 = encodeInt m.length := rfl
  have hcast : (((m.length % 2 ^ 32).toNat : ℕ) : ℤ) = m.length % 2 ^ 32 :=
    Int.toNat_of_nonneg (by omega)
  rw [hdrop, encodeInt, ofBigEndian_bigEndian (by norm_num; omega), hcast,
    toInt32_of_emod hlen.1 hlen.2]

/-- `prepare`, when the body has written `bytes`. -/
theorem prepare_of_encode {m : Message} {b : Body} {n : ℕ} {bytes : List UInt8}
    (hbody : m.body = some b) (hn : n ≠ 0)
    (hencode : b.encode (m.bodyBuffer.take m.length.toNat) cqlHeaderSize 0 =
      ⟨true, some (n, bytes), n⟩) :
    m.prepare = ({ m with length := toInt32 (n - cqlHeaderSize) },
      some ⟨n, encodeHeader { m with length := toInt32 (n - cqlHeaderSize) }, bytes, n⟩) := by
  unfold prepare
  simp only [hbody, hencode, Option.getD_some]
  rw [if_neg hn]

/-- The frame of a message with a body that is sent. -/
theorem prepare_sent {m : Message} {b : Body} (hbody : m.body = some b) (hsent : b.sent = true)
    (htext : b.TextIn (m.bodyBuffer.take m.length.toNat)) :
    ∃ e, m.prepare.2 = some e ∧ e.body.length = b.wireSize ∧
      e.size = cqlHeaderSize + b.wireSize + (if b.hasSerialConsistency then 2 else 0) ∧
      e.header.length = cqlHeaderSize ∧
      toInt32 (ofBigEndian (e.header.drop 4)) = toInt32 (e.size - cqlHeaderSize) := by
  obtain ⟨bytes, hlen, hencode⟩ := Body.encode_sent hsent htext cqlHeaderSize 0
  rw [prepare_of_encode hbody (by simp [cqlHeaderSize]) hencode]
  refine ⟨_, rfl, hlen, rfl, ?_, ?_⟩
  · exact length_encodeHeader _
  · exact length_field _ (toInt32_range _)

/-- **Emitted frames are self-consistent** exactly when no serial consistency is
    counted twice and the length fits its field. -/
theorem consistent_iff (m : Message) (b : Body) (hbody : m.body = some b) (hsent : b.sent = true)
    (htext : b.TextIn (m.bodyBuffer.take m.length.toNat)) :
    ∃ e, m.prepare.2 = some e ∧
      (e.Consistent ↔ b.hasSerialConsistency = false ∧ b.wireSize < 2 ^ 31) := by
  obtain ⟨e, he, hlen, hsize, hheader, hfield⟩ := prepare_sent hbody hsent htext
  refine ⟨e, he, ?_⟩
  constructor
  · rintro ⟨heq, -, hlength⟩
    have hserial : b.hasSerialConsistency = false := by
      by_contra hs
      rw [hsize, hlen, if_pos (Bool.eq_true_of_not_eq_false hs)] at heq
      omega
    refine ⟨hserial, ?_⟩
    rw [hfield] at hlength
    have hrange := toInt32_range (e.size - cqlHeaderSize)
    omega
  · rintro ⟨hserial, hfits⟩
    rw [hserial, if_neg Bool.false_ne_true, Nat.add_zero] at hsize
    refine ⟨by omega, fun i hi => ?_, ?_⟩
    · rcases Nat.lt_or_ge i cqlHeaderSize with h | h
      · exact .inl (hheader ▸ h)
      · exact .inr ⟨h, by omega⟩
    · rw [hfield]
      exact toInt32_eq (by omega) (by omega)

/-- A QUERY with a value. -/
theorem consistent_query : ∃ e, (prepare { new (fun _ => 0) with
      opcode := cqlOpcodeQuery
      body := some (.query { query := ascii "SELECT", values := [[0x2A]] }) }).2 = some e ∧
    e.Consistent := by
  obtain ⟨e, he, hiff⟩ := consistent_iff { new (fun _ => 0) with
    opcode := cqlOpcodeQuery
    body := some (.query { query := ascii "SELECT", values := [[0x2A]] }) } _ rfl rfl trivial
  exact ⟨e, he, hiff.2 (by decide)⟩

/-- The empty QUERY with a serial consistency: the frame has two bytes that nothing
    has written. -/
theorem not_consistent_serial : ¬ ∀ (m : Message) (b : Body), m.body = some b → b.sent = true →
    b.TextIn (m.bodyBuffer.take m.length.toNat) → b.wireSize < 2 ^ 31 →
    ∃ e, m.prepare.2 = some e ∧ e.Consistent := by
  intro h
  obtain ⟨e, he, hcons⟩ := h { new (fun _ => 0) with
    opcode := cqlOpcodeQuery, body := some (.query { serialConsistent := true }) } _ rfl rfl trivial
    (by decide)
  obtain ⟨e', he', hlen, hsize, -⟩ := prepare_sent (m := { new (fun _ => 0) with
    opcode := cqlOpcodeQuery, body := some (.query { serialConsistent := true }) }) rfl rfl trivial
  rw [he', Option.some.injEq] at he
  subst he
  rw [hcons.size, hlen] at hsize
  exact absurd hsize (by decide)

end Message

end CqlClient
