/-
  CqlClient formalization — what a server says.

  An `Answer` is what a response says: READY, an ERROR, a SUPPORTED or a RESULT of
  any kind.  `Answer.encode` is its body on the wire, and `Answer.Tells` the answer
  that a body in memory gives, with the column entries that stand in front.  There
  should be none: where a result lists columns, `parse_metadata` leaves a blank one
  for each (`Answer.blanks`).  This is all that a new body of the answer's opcode
  says otherwise when it has consumed the encoding (`consume_encode`), and the
  message that received the whole frame (`received_tells`).
-/
import CqlClient.Reassembly
import CqlClient.RoundTrip
import CqlClient.ResultRows
import CqlClient.SupportedMap

namespace CqlClient

open Word Wire

/-! ## Answers -/

/-- What a server says in a response. -/
inductive Answer where
  | ready
  | error (code : ℤ) (text : List UInt8)
  | supported (options : List (List UInt8 × List (List UInt8)))
  | void
  | rows (metadata : ResultMetadata) (cells : List (List Cell))
  | setKeyspace (keyspace : List UInt8)
  /-- `rest` is the metadata of the result, which is not parsed -/
  | prepared (id : List UInt8) (metadata : ResultMetadata) (rest : List UInt8)
  | schemaChange (change keyspace table : List UInt8)
  deriving DecidableEq, Repr

namespace Answer

def opcode : Answer → UInt8
  | ready => cqlOpcodeReady
  | error _ _ => cqlOpcodeError
  | supported _ => cqlOpcodeSupported
  | void | rows _ _ | setKeyspace _ | prepared _ _ _ | schemaChange _ _ _ => cqlOpcodeResult

/-- The body of the response. -/
def encode : Answer → List UInt8
  | ready => []
  | error code text => encodeInt code ++ encodeString text
  | supported options => wireStringMultimap options
  | void => bigEndian 4 1
  | rows m cells => MetadataBody.encode m (.rows cells.length (cells.flatMap encodeRow))
  | setKeyspace keyspace => bigEndian 4 3 ++ wireString keyspace
  | prepared id m rest => MetadataBody.encode m (.prepared id rest)
  | schemaChange change keyspace table =>
    bigEndian 4 5 ++ (wireString change ++ (wireString keyspace ++ wireString table))

/-- Every length and every count is one that the decoders read as it is. -/
def Fits : Answer → Prop
  | ready | void => True
  | error code text => (-2 ^ 31 ≤ code ∧ code < 2 ^ 31) ∧ text.length ≤ 65535
  | supported options =>
    FitsWire options ∧ options.length ≤ 32767 ∧ ∀ it ∈ options, it.2.length ≤ 32767
  | rows m cells => m.Fits ∧ cells.length < 2 ^ 31
  | setKeyspace keyspace => keyspace.length ≤ 65535
  | prepared id m _ => id.length ≤ 65535 ∧ m.Fits
  | schemaChange change keyspace table =>
    change.length ≤ 65535 ∧ keyspace.length ≤ 65535 ∧ table.length ≤ 65535

/-- The kinds of RESULT that are given to a request. -/
def completesRequest : Answer → Bool
  | void | rows _ _ | prepared _ _ _ | schemaChange _ _ _ => true
  | ready | error _ _ | supported _ | setKeyspace _ => false

end Answer

/-- The result has the metadata, with the entries of the columns behind those of `front`. -/
def ResultMetadata.ReadInto (front : List ColumnMetaData) (mem : List UInt8) (m : ResultMetadata)
    (b : BodyResult) : Prop :=
  m.Sets mem b ∧ ∃ metas, b.columnMetadata = front ++ metas ∧
    List.Forall₂ (Column.Described mem m.tableSpec.isSome) m.columns.list metas

/-- The body, in the buffer of its message, gives the answer, with the entries of the
    columns behind those of `front`. -/
def Answer.Tells (front : List ColumnMetaData) (mem : List UInt8) : Answer → Body → Prop
  | ready, .ready => True
  | error code text, .error b => b.code = code ∧ b.messageSize = text.length ∧
      b.message.bytes mem b.messageSize = text
  | supported options, .supported b =>
    b.compression = (options.lookup keyCompression).getD [] ∧
      b.cqlVersions = (options.lookup keyCqlVersion).getD []
  | void, .result b => b.kind = cqlResultKindVoid
  | rows m cells, .result b => b.kind = cqlResultKindRows ∧ m.ReadInto front mem b ∧
      b.rowCount = cells.length ∧
      ∃ pos, b.rows = some pos ∧ Contains mem pos (cells.flatMap encodeRow)
  | setKeyspace keyspace, .result b => b.kind = cqlResultKindSetKeyspace ∧
      Denotes mem b.keyspace b.keyspaceSize (some keyspace)
  | prepared id m _, .result b => b.kind = cqlResultKindPrepared ∧ m.ReadInto front mem b ∧
      Denotes mem b.prepared b.preparedSize (some id)
  | schemaChange change keyspace table, .result b => b.kind = cqlResultKindSchemaChange ∧
      Denotes mem b.change b.changeSize (some change) ∧
      Denotes mem b.keyspace b.keyspaceSize (some keyspace) ∧
      Denotes mem b.table b.tableSize (some table)
  | _, _ => False

/-- The entries that `parse_metadata` leaves in front: `resize` makes one for each column,
    and `push_back` puts those of the columns behind them. -/
def Answer.blanks : Answer → List ColumnMetaData
  | rows m _ | prepared _ m _ => List.replicate m.columns.list.length default
  | _ => []

/-- The body gives the answer but for the blank entries, so that it gives the answer itself
    just if there are none. -/
structure Answer.ToldBy (a : Answer) (mem : List UInt8) (b : Body) : Prop where
  behind : a.Tells a.blanks mem b
  exact_iff : a.Tells [] mem b ↔ a.blanks = []

variable {mem : List UInt8} {pos next : ℤ}

/-! ## The entries in front -/

/-- There is only one list of entries in front of the columns. -/
theorem ResultMetadata.ReadInto.front_unique {front front' : List ColumnMetaData}
    {m : ResultMetadata} {b : BodyResult} (h : m.ReadInto front mem b)
    (h' : m.ReadInto front' mem b) : front = front' := by
  obtain ⟨-, metas, hmetadata, hmetas⟩ := h
  obtain ⟨-, metas', hmetadata', hmetas'⟩ := h'
  have hlen : metas.length = metas'.length := hmetas.length_eq.symm.trans hmetas'.length_eq
  exact (List.append_inj' (hmetadata.symm.trans hmetadata') hlen).1

/-- Behind the blank entries the body gives what it should without them just if there are
    none. -/
theorem Answer.Tells.toldBy {a : Answer} {b : Body} (h : a.Tells a.blanks mem b) :
    a.ToldBy mem b := by
  refine ⟨h, fun hexact => ?_, fun hnil => hnil ▸ h⟩
  cases a with
  | rows m cells =>
    cases b with
    | result b => exact h.2.1.front_unique hexact.2.1
    | _ => cases h
  | prepared id m rest =>
    cases b with
    | result b => exact h.2.1.front_unique hexact.2.1
    | _ => cases h
  | _ => rfl

/-! ## What `parse_metadata` leaves as it was -/

/-- The kind and the id of the prepared statement are the same. -/
structure BodyResult.SameHead (b b' : BodyResult) : Prop where
  kind : b'.kind = b.kind
  prepared : b'.prepared = b.prepared
  preparedSize : b'.preparedSize = b.preparedSize

theorem BodyResult.SameHead.trans {b b' b'' : BodyResult} (h : b.SameHead b')
    (h' : b'.SameHead b'') : b.SameHead b'' :=
  ⟨h'.kind.trans h.kind, h'.prepared.trans h.prepared, h'.preparedSize.trans h.preparedSize⟩

theorem BodyResult.pagingStage_head {b b' : BodyResult} {flags : ℤ}
    (h : b.pagingStage mem flags pos = .ok (b', next)) : b.SameHead b' := by
  unfold pagingStage at h
  split at h
  · obtain ⟨⟨p, n, p'⟩, -, h⟩ := bind_eq_ok h
    cases h
    exact ⟨rfl, rfl, rfl⟩
  · cases h
    exact ⟨rfl, rfl, rfl⟩

theorem BodyResult.tableStage_head {b b' : BodyResult} {flags : ℤ}
    (h : b.tableStage mem flags pos = .ok (b', next)) : b.SameHead b' := by
  unfold tableStage at h
  split at h
  · obtain ⟨⟨k, n, p⟩, -, h⟩ := bind_eq_ok h
    obtain ⟨⟨t, n', p'⟩, -, h⟩ := bind_eq_ok h
    cases h
    exact ⟨rfl, rfl, rfl⟩
  · cases h
    exact ⟨rfl, rfl, rfl⟩

theorem BodyResult.parseColumns_head {n i : ℕ} {b b' : BodyResult}
    (h : parseColumns mem n i b pos = .ok (b', next)) : b.SameHead b' := by
  induction n generalizing i b pos with
  | zero =>
    cases h
    exact ⟨rfl, rfl, rfl⟩
  | succ n ih =>
    obtain ⟨⟨column, p⟩, -, h⟩ := bind_eq_ok h
    obtain ⟨name, -, h⟩ := bind_eq_ok h
    have hhead := ih h
    exact ⟨hhead.kind, hhead.prepared, hhead.preparedSize⟩

theorem BodyResult.columnsStage_head {b b' : BodyResult} {flags : ℤ}
    (h : b.columnsStage mem flags pos = .ok (b', next)) : b.SameHead b' := by
  unfold columnsStage at h
  split at h
  · cases h
    exact ⟨rfl, rfl, rfl⟩
  · obtain ⟨metas, -, h⟩ := bind_eq_ok h
    have hhead := parseColumns_head h
    exact ⟨hhead.kind, hhead.prepared, hhead.preparedSize⟩

/-- **`parse_metadata` changes the metadata only.** -/
theorem BodyResult.parseMetadata_head {b b' : BodyResult}
    (h : b.parseMetadata mem pos = .ok (b', next)) : b.SameHead b' := by
  rw [parseMetadata_eq] at h
  obtain ⟨⟨flags, p⟩, -, h⟩ := bind_eq_ok h
  obtain ⟨⟨count, p₁⟩, -, h⟩ := bind_eq_ok h
  obtain ⟨⟨b₁, p₂⟩, h₁, h⟩ := bind_eq_ok h
  obtain ⟨⟨b₂, p₃⟩, h₂, h⟩ := bind_eq_ok h
  have hhead := ((pagingStage_head h₁).trans (tableStage_head h₂)).trans (columnsStage_head h)
  exact ⟨hhead.kind, hhead.prepared, hhead.preparedSize⟩

/-! ## Decoding the answers -/

theorem decodeString_denotes {text : List UInt8} (h : Contains mem pos (wireString text))
    (hlen : text.length ≤ 65535) :
    ∃ p, decodeString mem pos 0 = .ok (p, text.length, pos + (wireString text).length) ∧
      Denotes mem (some p) text.length (some text) := by
  obtain ⟨hdec, htext⟩ := decodeString_wire h hlen
  exact ⟨pos + 2, hdec, pos + 2, rfl, rfl, htext⟩

/-- The options that SUPPORTED is asked for. -/
theorem BodySupported.consume_wire {options : List (List UInt8 × List (List UInt8))}
    (h : Contains mem 0 (wireStringMultimap options)) (hfits : FitsWire options)
    (hcount : options.length ≤ 32767) (hcounts : ∀ it ∈ options, it.2.length ≤ 32767) :
    BodySupported.consume {} mem = .ok (⟨(options.lookup keyCompression).getD [],
      (options.lookup keyCqlVersion).getD []⟩, true) := by
  have hempty : StringMap.Sorted ([] : StringMap (List (List UInt8))) := List.Pairwise.nil
  have hsorted := hempty.foldl_insertNew options
  have hmem : ∀ it, it ∈ options.foldl (fun m it => StringMap.insertNew it.1 it.2 m) [] ↔
      it ∈ options := by
    intro it
    rw [StringMap.mem_foldl_insertNew hfits.distinct (by simp)]
    simp
  rw [consume, decodeStringMultimap_wire h hfits hcount hcounts, ok_bind]
  simp only [StringMap.find]
  rw [StringMap.lookup_congr hsorted.distinct hfits.distinct hmem keyCompression,
    StringMap.lookup_congr hsorted.distinct hfits.distinct hmem keyCqlVersion]
  rfl

/-- A RESULT is parsed by its kind. -/
theorem BodyResult.consume_kind {k : ℕ} {rest : List UInt8} (hk : k < 2 ^ 31)
    (h : Contains mem 0 (bigEndian 4 k ++ rest)) :
    BodyResult.consume mem {} =
      (if (k : ℤ) = cqlResultKindVoid then .ok (ofKind k, true)
      else if (k : ℤ) = cqlResultKindRows then (ofKind k).parseRows mem (0 + 4)
      else if (k : ℤ) = cqlResultKindSetKeyspace then (ofKind k).parseSetKeyspace mem (0 + 4)
      else if (k : ℤ) = cqlResultKindPrepared then (ofKind k).parsePrepared mem (0 + 4)
      else if (k : ℤ) = cqlResultKindSchemaChange then (ofKind k).parseSchemaChange mem (0 + 4)
      else .error .assertFailed) ∧
    Contains mem (0 + 4) rest := by
  have hrest := h.right
  rw [length_bigEndian] at hrest
  refine ⟨?_, hrest⟩
  rw [consume, decodeInt_nat h.left hk, ok_bind]
  rfl

theorem BodyResult.consume_rows_tells {m : ResultMetadata} {rows : List (List Cell)}
    (hm : m.Fits) (hrows : rows.length < 2 ^ 31)
    (h : Contains mem 0 (Answer.rows m rows).encode) :
    ∃ b, BodyResult.consume mem {} = .ok (b, true) ∧
      (Answer.rows m rows).Tells (Answer.rows m rows).blanks mem (.result b) := by
  obtain ⟨hconsume, hbody⟩ := consume_kind (k := 2) (by norm_num) h
  obtain ⟨b, metas, hparse, hcount, hstart, hsets, hmetadata⟩ :=
    parseRows_wire ((2 : ℕ) : ℤ) hm hrows hbody
  have hhead : (ofKind ((2 : ℕ) : ℤ)).SameHead b := by
    obtain ⟨⟨b', p⟩, hmeta, hrest⟩ := bind_eq_ok hparse
    obtain ⟨⟨n, p'⟩, -, hreturn⟩ := bind_eq_ok hrest
    cases hreturn
    exact (parseMetadata_head hmeta).trans ⟨rfl, rfl, rfl⟩
  refine ⟨b, hconsume.trans hparse, hhead.kind, ⟨hsets, metas, hmetadata⟩, hcount, _, hstart, ?_⟩
  have hcells := hbody.right.right
  rwa [length_bigEndian] at hcells

theorem BodyResult.consume_prepared_tells {m : ResultMetadata} {id rest : List UInt8}
    (hm : m.Fits) (hid : id.length ≤ 65535)
    (h : Contains mem 0 (Answer.prepared id m rest).encode) :
    ∃ b, BodyResult.consume mem {} = .ok (b, true) ∧
      (Answer.prepared id m rest).Tells (Answer.prepared id m rest).blanks mem (.result b) := by
  obtain ⟨hconsume, hbody⟩ := consume_kind (k := 4) (by norm_num) h
  obtain ⟨b, metas, hparse, hsets, hmetadata⟩ := parsePrepared_wire ((4 : ℕ) : ℤ) hm hid hbody
  obtain ⟨p, hdec, hdenotes⟩ := decodeString_denotes hbody.left hid
  have hhead : SameHead { ofKind ((4 : ℕ) : ℤ) with
      prepared := some p, preparedSize := id.length } b := by
    obtain ⟨⟨q, n, p'⟩, hstring, hrest⟩ := bind_eq_ok hparse
    obtain ⟨⟨b', p''⟩, hmeta, hreturn⟩ := bind_eq_ok hrest
    cases hreturn
    cases hdec.symm.trans hstring
    exact parseMetadata_head hmeta
  refine ⟨b, hconsume.trans hparse, hhead.kind, ⟨hsets, metas, hmetadata⟩, ?_⟩
  rw [hhead.prepared, hhead.preparedSize]
  exact hdenotes

theorem BodyResult.consume_keyspace_tells {keyspace : List UInt8}
    (hlen : keyspace.length ≤ 65535) (h : Contains mem 0 (Answer.setKeyspace keyspace).encode) :
    ∃ b, BodyResult.consume mem {} = .ok (b, true) ∧
      (Answer.setKeyspace keyspace).Tells [] mem (.result b) := by
  obtain ⟨hconsume, hbody⟩ := consume_kind (k := 3) (by norm_num) h
  obtain ⟨p, hdec, hdenotes⟩ := decodeString_denotes hbody hlen
  refine ⟨{ ofKind ((3 : ℕ) : ℤ) with keyspace := some p, keyspaceSize := keyspace.length },
    hconsume.trans ?_, rfl, hdenotes⟩
  change (decodeString mem (0 + 4) 0 >>= _) = _
  rw [hdec]
  rfl

theorem BodyResult.consume_schema_tells {change keyspace table : List UInt8}
    (hc : change.length ≤ 65535) (hk : keyspace.length ≤ 65535) (ht : table.length ≤ 65535)
    (h : Contains mem 0 (Answer.schemaChange change keyspace table).encode) :
    ∃ b, BodyResult.consume mem {} = .ok (b, true) ∧
      (Answer.schemaChange change keyspace table).Tells [] mem (.result b) := by
  obtain ⟨hconsume, hbody⟩ := consume_kind (k := 5) (by norm_num) h
  obtain ⟨p₁, hdec₁, hchange⟩ := decodeString_denotes hbody.left hc
  obtain ⟨p₂, hdec₂, hkeyspace⟩ := decodeString_denotes hbody.right.left hk
  obtain ⟨p₃, hdec₃, htable⟩ := decodeString_denotes hbody.right.right ht
  refine ⟨{ ofKind ((5 : ℕ) : ℤ) with
      change := some p₁, changeSize := change.length
      keyspace := some p₂, keyspaceSize := keyspace.length
      table := some p₃, tableSize := table.length },
    hconsume.trans ?_, rfl, hchange, hkeyspace, htable⟩
  change (decodeString mem (0 + 4) 0 >>= _) = _
  rw [hdec₁, ok_bind]
  change (decodeString mem _ 0 >>= _) = _
  rw [hdec₂, ok_bind]
  change (decodeString mem _ 0 >>= _) = _
  rw [hdec₃]
  rfl

/-- **Every answer is decoded**: the new body of its opcode says it, behind blank entries. -/
theorem Answer.consume_encode {a : Answer} (ha : a.Fits) :
    ∃ fresh b, allocateBody a.opcode = .ok (some fresh) ∧
      fresh.consume a.encode = .ok (b, true) ∧ a.Tells a.blanks a.encode b := by
  cases a with
  | ready => exact ⟨.ready, .ready, rfl, rfl, trivial⟩
  | error code text =>
    obtain ⟨b, hconsume, htells⟩ := BodyError.consume_encoded ha.1 ha.2 (contains_self _)
    refine ⟨.error {}, .error b, rfl, ?_, htells⟩
    rw [encode, Body.consume, hconsume]
    rfl
  | supported options =>
    obtain ⟨hfits, hcount, hcounts⟩ := ha
    have hconsume := BodySupported.consume_wire (contains_self _) hfits hcount hcounts
    refine ⟨.supported {}, .supported ⟨_, _⟩, rfl, ?_, rfl, rfl⟩
    rw [encode, Body.consume, hconsume]
    rfl
  | void =>
    have hvoid : Contains (bigEndian 4 1) 0 (bigEndian 4 1 ++ []) := by
      simpa using contains_self (bigEndian 4 1)
    have hconsume := (BodyResult.consume_kind (by norm_num) hvoid).1
    refine ⟨.result {}, .result (.ofKind ((1 : ℕ) : ℤ)), rfl, ?_, rfl⟩
    rw [encode, Body.consume, hconsume]
    rfl
  | rows m rows =>
    obtain ⟨b, hconsume, htells⟩ := BodyResult.consume_rows_tells ha.1 ha.2 (contains_self _)
    refine ⟨.result {}, .result b, rfl, ?_, htells⟩
    rw [Body.consume, hconsume]
    rfl
  | setKeyspace keyspace =>
    obtain ⟨b, hconsume, htells⟩ := BodyResult.consume_keyspace_tells ha (contains_self _)
    refine ⟨.result {}, .result b, rfl, ?_, htells⟩
    rw [Body.consume, hconsume]
    rfl
  | prepared id m rest =>
    obtain ⟨b, hconsume, htells⟩ := BodyResult.consume_prepared_tells ha.2 ha.1 (contains_self _)
    refine ⟨.result {}, .result b, rfl, ?_, htells⟩
    rw [Body.consume, hconsume]
    rfl
  | schemaChange change keyspace table =>
    obtain ⟨b, hconsume, htells⟩ :=
      BodyResult.consume_schema_tells ha.1 ha.2.1 ha.2.2 (contains_self _)
    refine ⟨.result {}, .result b, rfl, ?_, htells⟩
    rw [Body.consume, hconsume]
    rfl

/-! ## Whole responses -/

/-- The frame of the answer on this stream. -/
def Answer.frame (a : Answer) (version flags stream : UInt8)
    (fits : a.encode.length + cqlHeaderSize < 2 ^ 31) : Frame where
  version := version
  flags := flags
  stream := stream
  opcode := a.opcode
  body := a.encode
  supported := by cases a <;> rfl
  fits := fits

/-- The message was received as the frame, and its body says the answer, but for blank
    column entries. -/
structure Answer.ReceivedAs (a : Answer) (f : Frame) (m : Message) : Prop where
  ready : m.bodyReady = true
  version : m.version = f.version
  flags : m.flags = toInt8 f.flags.toNat
  stream : m.stream = toInt8 f.stream.toNat
  opcode : m.opcode = a.opcode
  body : ∃ b, m.body = some b ∧ a.ToldBy (m.bodyBuffer.take m.length.toNat) b

/-- The call that gets the rest of an answer's frame, header bytes among it. -/
theorem Answer.consume_tells {a : Answer} (ha : a.Fits) {f : Frame} {n : ℕ} {m : Message}
    {input : List UInt8} (hopcode : f.opcode = a.opcode) (hbody : f.body = a.encode)
    (hm : m.Partial f n) (hn : n < cqlHeaderSize) (hin : f.bytes.drop n <+: input)
    (hov : n + input.length < 2 ^ 31) :
    ∃ r, m.consume Body.consume input = (r, .ok (f.size - n : ℕ)) ∧ a.ReceivedAs f r := by
  obtain ⟨fresh, b, hallocate, hconsume, htells⟩ := consume_encode ha
  obtain ⟨r, hcall, hheader, -, -, hbuffer, -⟩ := Message.consume_complete Body.consume hm hin hov
  have hr : r.body = some fresh := by
    have h := hheader.body
    rw [hopcode, hallocate] at h
    exact (Except.ok.inj h).symm
  have hbuf : r.bodyBuffer.take r.length.toNat = a.encode := by
    rw [hheader.length, Int.toNat_natCast, (hbuffer hn).1, hbody]
  rw [Message.decodeBody_ok _ hr (by rw [hbuf]; exact hconsume)] at hcall
  refine ⟨r.setBody b true, hcall, rfl, hheader.version, hheader.flags, hheader.stream,
    hheader.opcode.trans hopcode, b, rfl, ?_⟩
  change a.ToldBy (r.bodyBuffer.take r.length.toNat) b
  rw [hbuf]
  exact htells.toldBy

/-- **An answer is received as it was said**, but for blank column entries, however the
    header comes in pieces and whatever is behind the frame. -/
theorem Answer.received_tells (a : Answer) (ha : a.Fits) (version flags stream : UInt8)
    (fits : a.encode.length + cqlHeaderSize < 2 ^ 31) (heap : Memory)
    (pieces : List (List UInt8)) (last trailing : List UInt8)
    (hcut : pieces.flatten ++ last = (a.frame version flags stream fits).bytes)
    (hshort : pieces.flatten.length < cqlHeaderSize)
    (hov : (a.frame version flags stream fits).size + trailing.length < 2 ^ 31) :
    ∃ m r, (Message.new heap).feed Body.consume pieces = (m, .ok ()) ∧
      m.consume Body.consume (last ++ trailing) = (r, .ok last.length) ∧
      a.ReceivedAs (a.frame version flags stream fits) r := by
  generalize hf : a.frame version flags stream fits = f at hcut hov ⊢
  have hopcode : f.opcode = a.opcode := by rw [← hf]; rfl
  have hbody : f.body = a.encode := by rw [← hf]; rfl
  have hsize : pieces.flatten.length + last.length = f.size := by
    rw [← List.length_append, hcut, f.length_bytes]
  have hlong : cqlHeaderSize ≤ f.size := by
    rw [Frame.size]
    omega
  obtain ⟨m, hfeed, hm⟩ := Message.feed_partial Body.consume pieces (Message.partial_new f heap)
    ⟨last, by rw [hcut, List.drop_zero]⟩ (by omega)
  rw [Nat.zero_add] at hm
  have hdrop : f.bytes.drop pieces.flatten.length = last := by rw [← hcut, List.drop_left]
  have hprefix : f.bytes.drop pieces.flatten.length <+: last ++ trailing := by
    rw [hdrop]
    exact List.prefix_append last trailing
  obtain ⟨r, hcall, hr⟩ := consume_tells (f := f) ha hopcode hbody hm hshort hprefix
    (by rw [List.length_append]; omega)
  refine ⟨m, r, hfeed, ?_, hr⟩
  rw [hcall, ← hsize, Nat.add_sub_cancel_left]

/-- A schema change, with the header in two pieces and a byte of the next frame. -/
theorem Answer.received_tells_created :
    ∃ m r, (Message.new fun _ => 0).feed Body.consume [[0x82, 0, 1], [8, 0]] = (m, .ok ()) ∧
      m.consume Body.consume ([0, 0, 13] ++ (bigEndian 4 5 ++ (wireString (ascii "UP") ++
        (wireString (ascii "k") ++ wireString []))) ++ [0x82]) = (r, .ok 16) ∧
      (Answer.schemaChange (ascii "UP") (ascii "k") []).ReceivedAs
        ((Answer.schemaChange (ascii "UP") (ascii "k") []).frame 0x82 0 1 (by decide)) r :=
  received_tells (.schemaChange (ascii "UP") (ascii "k") []) ⟨by decide, by decide, by decide⟩
    0x82 0 1 (by decide) (fun _ => 0) [[0x82, 0, 1], [8, 0]] _ [0x82] (by decide) (by decide)
    (by decide)

end CqlClient
