/-
  CqlClient formalization — an ERROR or a STARTUP goes from `Message.prepare` to
  `Message.consume`.

  The decoders find at each position what the encoders wrote there
  (`Contains`).  With the framing of one complete frame (`consume_complete`),
  the message that is received is the one that was sent.
-/
import CqlClient.Emission
import CqlClient.Framing

namespace CqlClient

open Word Wire

variable {mem bytes bytes' : List UInt8} {pos : ℤ}

/-! ## The bodies -/

/-- The fields of a body that is sent are in the range of their wire fields. -/
def Body.InRange : Body → Prop
  | .error b => (-2 ^ 31 ≤ b.code ∧ b.code < 2 ^ 31) ∧ b.messageSize ≤ 65535
  | .startup b => b.compression.length ≤ 65535 ∧ b.cqlVersion ≠ [] ∧ b.cqlVersion.length ≤ 65535
  | _ => False

/-- The body `b'` that was received says what the body `b` said, each in the buffer of
    its message. -/
def Body.SameContent (mem mem' : List UInt8) : Body → Body → Prop
  | .error b, .error b' => b'.code = b.code ∧ b'.messageSize = b.messageSize ∧
      b'.message.bytes mem' b'.messageSize = b.message.bytes mem b.messageSize
  | .startup b, .startup b' => b'.compression = b.compression ∧ b'.cqlVersion = b.cqlVersion
  | _, _ => False

/-- The virtual `opcode()`. -/
def Body.opcode : Body → UInt8
  | .result _ => cqlOpcodeResult
  | .prepare _ => cqlOpcodePrepare
  | .error _ => cqlOpcodeError
  | .options => cqlOpcodeOptions
  | .startup _ => cqlOpcodeStartup
  | .supported _ => cqlOpcodeSupported
  | .query _ => cqlOpcodeQuery
  | .ready => cqlOpcodeReady

theorem BodyError.consume_encoded {code : ℤ} {text : List UInt8}
    (hcode : -2 ^ 31 ≤ code ∧ code < 2 ^ 31) (hlen : text.length ≤ 65535)
    (h : Contains mem 0 (encodeInt code ++ encodeString text)) :
    ∃ b, BodyError.consume {} mem = .ok (b, true) ∧ b.code = code ∧
      b.messageSize = text.length ∧ b.message.bytes mem b.messageSize = text := by
  have hstring := h.right
  rw [length_encodeInt] at hstring
  obtain ⟨hdec, htext⟩ := decodeString_contains hstring hlen
  refine ⟨⟨code, .inBody (0 + 4 + 2), text.length⟩, ?_, rfl, rfl, htext.text⟩
  unfold consume
  rw [decodeInt_contains h.left hcode]
  change (decodeString mem (0 + 4) 0 >>= _) = _
  rw [show ((0 : ℤ) + 4) = 0 + ((4 : ℕ) : ℤ) from rfl, hdec]
  rfl

theorem keyCompression_ne : (keyCompression == keyCqlVersion) = false := by decide

theorem keyCqlVersion_ne : (keyCqlVersion == keyCompression) = false := by decide

/-- The options that were inserted one by one are found again. -/
theorem BodyStartup.find_options {b : BodyStartup} (hne : b.cqlVersion ≠ []) :
    let options : StringMap (List UInt8) := b.options.foldl (fun m it => m.insertNew it.1 it.2) []
    options.find keyCqlVersion = some b.cqlVersion ∧
      (options.find keyCompression).getD [] = b.compression := by
  have hv : ¬ b.cqlVersion.isEmpty = true := fun hempty => hne (List.isEmpty_iff.1 hempty)
  unfold options
  rw [if_neg hv]
  by_cases hc : b.compression.isEmpty = true
  · rw [if_pos hc, List.isEmpty_iff.1 hc]
    simp [StringMap.insertNew, StringMap.find, keyCompression_ne]
  · have hlt : ¬ keyCqlVersion < keyCompression := by decide
    have hne' : ¬ keyCqlVersion = keyCompression := by decide
    rw [if_neg hc]
    simp [StringMap.insertNew, StringMap.find, List.lookup, keyCqlVersion_ne, hlt, hne']

theorem BodyStartup.consume_encoded {b : BodyStartup} (hcompression : b.compression.length ≤ 65535)
    (hne : b.cqlVersion ≠ []) (hversion : b.cqlVersion.length ≤ 65535)
    (h : Contains mem 0 (encodeStringMap b.options)) :
    BodyStartup.consume {} mem = .ok (b, true) := by
  have hcount : b.options.length < 2 ^ 15 ∧
      ∀ it ∈ b.options, it.1.length ≤ 65535 ∧ it.2.length ≤ 65535 := by
    have hkeys : keyCompression.length ≤ 65535 ∧ keyCqlVersion.length ≤ 65535 := by decide
    unfold options
    split <;> split <;> simp [hkeys, hcompression, hversion]
  have hdec := decodeStringMap_contains h hcount.1 hcount.2
  obtain ⟨hv, hc⟩ := find_options hne
  unfold consume
  rw [hdec]
  change Except.ok (BodyStartup.mk _ _, true) = _
  rw [hv, hc]
  rfl

/-- What a body has written, a new body of its opcode reads back. -/
theorem Body.encode_consume {b : Body} (hrange : b.InRange) (htext : b.TextIn mem) :
    ∃ bytes fresh b', bytes.length = b.wireSize ∧
      b.encode mem cqlHeaderSize 0 =
        ⟨true, some (cqlHeaderSize + b.wireSize, bytes), cqlHeaderSize + b.wireSize⟩ ∧
      allocateBody b.opcode = .ok (some fresh) ∧ fresh.consume bytes = .ok (b', true) ∧
      SameContent mem bytes b b' := by
  cases b with
  | error b =>
    have hlen : (b.message.bytes mem b.messageSize).length ≤ 65535 := htext.trans_le hrange.2
    obtain ⟨b', hconsume, hcode, hsize, hmessage⟩ :=
      BodyError.consume_encoded hrange.1 hlen (contains_self _)
    refine ⟨_, .error {}, .error b', ?_, ?_, rfl, ?_, hcode, hsize.trans htext, hmessage⟩
    · rw [List.length_append, length_encodeInt, length_encodeString, htext]
      rfl
    · simp only [encode, BodyError.prepare, wireSize, Nat.add_assoc]
    · rw [consume, hconsume]
      rfl
  | startup b =>
    obtain ⟨hcompression, hne, hversion⟩ := hrange
    have hconsume := BodyStartup.consume_encoded hcompression hne hversion (contains_self _)
    refine ⟨_, .startup {}, .startup b, b.length_encode, b.prepare_eq _, rfl, ?_, rfl, rfl⟩
    rw [consume, hconsume]
    rfl
  | _ => cases hrange

/-! ## The message -/

namespace Message

theorem toInt8_byteOf {x : ℤ} (h₁ : -2 ^ 7 ≤ x) (h₂ : x < 2 ^ 7) : toInt8 (byteOf x).toNat = x := by
  have hbyte : (byteOf x).toNat = (x % 2 ^ 8).toNat := by
    rw [byteOf, UInt8.toNat_ofNat']
    omega
  have hcast : (((x % 2 ^ 8).toNat : ℕ) : ℤ) = x % 2 ^ 8 := Int.toNat_of_nonneg (by omega)
  rw [hbyte, hcast]
  exact (Int.emod_bmod x (2 ^ 8)).trans
    (Int.bmod_eq_of_le (by norm_num; omega) (by norm_num; omega))

/-- The message `r` that was received is the message `m` whose frame was sent. -/
structure Received (m r : Message) (frame : List UInt8) : Prop where
  ready : r.bodyReady = true
  version : r.version = m.version
  flags : r.flags = m.flags
  stream : r.stream = m.stream
  opcode : r.opcode = m.opcode
  length : r.length = frame.length - cqlHeaderSize
  body : ∃ b b', m.body = some b ∧ r.body = some b' ∧
    Body.SameContent (m.bodyBuffer.take m.length.toNat) (r.bodyBuffer.take r.length.toNat) b b'

/-- **A whole message makes the round trip**: an ERROR or a STARTUP is received as it
    was sent, from one call on its frame with any bytes behind it. -/
theorem round_trip (m : Message) (b : Body) (heap : Memory) (rest : List UInt8)
    (hbody : m.body = some b) (hopcode : m.opcode = b.opcode)
    (hflags : -2 ^ 7 ≤ m.flags ∧ m.flags < 2 ^ 7) (hstream : -2 ^ 7 ≤ m.stream ∧ m.stream < 2 ^ 7)
    (hrange : b.InRange) (htext : b.TextIn (m.bodyBuffer.take m.length.toNat)) :
    ∃ m' e, m.prepare = (m', some e) ∧ e.size = (e.header ++ e.body).length ∧
      (e.size + rest.length < 2 ^ 31 → ∃ r,
        (new heap).consume Body.consume (e.header ++ e.body ++ rest) = (r, .ok e.size) ∧
        Received m r (e.header ++ e.body)) := by
  obtain ⟨bytes, fresh, b', hlen, hencode, hallocate, hconsume, hsame⟩ :=
    Body.encode_consume hrange htext
  refine ⟨_, _, prepare_of_encode hbody (by simp [cqlHeaderSize]) hencode, ?_, ?_⟩
  · simp [encodeHeader, cqlHeaderSize, hlen]
    omega
  intro htotal
  change cqlHeaderSize + b.wireSize + rest.length < 2 ^ 31 at htotal
  -- the frame that was sent
  have hlength : toInt32 ((cqlHeaderSize + b.wireSize : ℕ) - (cqlHeaderSize : ℕ) : ℤ) =
      bytes.length := by
    rw [toInt32_eq (by omega) (by omega)]
    omega
  have hsupported : supportedOpcode m.opcode = true :=
    supported_of_allocateBody (hopcode ▸ hallocate)
  let f : Frame := ⟨m.version, byteOf m.flags, byteOf m.stream, m.opcode, bytes, hsupported,
    by omega⟩
  have hframe : encodeHeader { m with
      length := toInt32 ((cqlHeaderSize + b.wireSize : ℕ) - (cqlHeaderSize : ℕ) : ℤ) } ++ bytes =
      f.bytes := by
    have hnat : (((bytes.length : ℤ) % 2 ^ 32).toNat) = bytes.length := by omega
    unfold encodeHeader Frame.bytes encodeInt
    simp only [hlength, hnat]
    rfl
  have hsize : f.size = cqlHeaderSize + b.wireSize := by
    rw [Frame.size, Nat.add_comm, hlen]
  simp only [hframe]
  -- one call takes it, and decodes the body
  have hin : f.bytes.drop 0 <+: f.bytes ++ rest := List.prefix_append _ _
  obtain ⟨r, hcall, hheader, -, -, hbuffer, -⟩ :=
    consume_complete Body.consume (partial_new f heap) hin (by simp [hsize]; omega)
  obtain ⟨hbuf, -⟩ := hbuffer (by decide)
  have hr : r.body = some fresh := by
    have h := hheader.body
    rw [show f.opcode = m.opcode from rfl, hopcode, hallocate] at h
    exact (Except.ok.inj h).symm
  have hrbuf : r.bodyBuffer.take r.length.toNat = bytes := by
    rw [hheader.length, Int.toNat_natCast]
    exact hbuf
  rw [decodeBody_ok _ hr (by rw [hrbuf]; exact hconsume)] at hcall
  refine ⟨r.setBody b' true, ?_, ?_⟩
  · rw [hcall, hsize]
    rfl
  · refine ⟨rfl, hheader.version, hheader.flags.trans (toInt8_byteOf hflags.1 hflags.2),
      hheader.stream.trans (toInt8_byteOf hstream.1 hstream.2), hheader.opcode, ?_,
      b, b', hbody, rfl, ?_⟩
    · refine hheader.length.trans ?_
      rw [f.length_bytes, Frame.size]
      push_cast
      ring
    · change Body.SameContent _ (r.bodyBuffer.take r.length.toNat) b b'
      rw [hrbuf]
      exact hsame

/-- A STARTUP with a compression, and a byte of the next frame. -/
theorem round_trip_startup : ∃ m' e r,
    prepare { new (fun _ => 0) with
      opcode := cqlOpcodeStartup, stream := 1
      body := some (.startup { compression := ascii "snappy" }) } = (m', some e) ∧
      (new fun _ => 0).consume Body.consume (e.header ++ e.body ++ [0x82]) = (r, .ok e.size) ∧
      Received { new (fun _ => 0) with
        opcode := cqlOpcodeStartup, stream := 1
        body := some (.startup { compression := ascii "snappy" }) } r (e.header ++ e.body) := by
  obtain ⟨m', e, hprepare, -, hreceived⟩ := round_trip { new (fun _ => 0) with
      opcode := cqlOpcodeStartup, stream := 1
      body := some (.startup { compression := ascii "snappy" }) } _ (fun _ => 0) [0x82] rfl rfl
    (by decide) (by decide) ⟨by decide, by decide, by decide⟩ trivial
  have hsize : (prepare { new (fun _ => 0) with
      opcode := cqlOpcodeStartup, stream := 1
      body := some (.startup { compression := ascii "snappy" })
    }).2.map Encoded.size = some 51 := by
    decide
  rw [hprepare] at hsize
  have he : e.size = 51 := Option.some.inj hsize
  obtain ⟨r, hcall, hr⟩ := hreceived (by rw [he]; decide)
  exact ⟨m', e, r, hprepare, hcall, hr⟩

end Message

end CqlClient
