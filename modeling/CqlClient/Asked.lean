/-
  CqlClient formalization — what a connection asks of its server.

  A server that reads what was written to the socket by `Layout.request` finds
  frame by frame what the requests of the user ask, each on the stream of its
  frame, and between them what the connection asks of its own accord: OPTIONS, a
  STARTUP with its version, and the USE of a keyspace (`understood_of_reachable`).
  OPTIONS, whose header is written past the buffer, is taken as written.  A query
  with a paging state or a serial consistency is not sent, as a server would not
  read it (`Body.Sendable`).
-/
import CqlClient.Lib.Refinement
import CqlClient.Fates
import CqlClient.Results
import CqlClient.RoundTrip
import CqlClient.States

namespace CqlClient

open Word Wire Wire.Parser StreamStorage

/-- What a frame asks. -/
inductive Asked where
  | options
  | startup (options : List (List UInt8 × List UInt8))
  | query (config : QueryConfig)
  | prepare (statement : List UInt8)
  deriving DecidableEq, Repr

/-! ## The grammar of the server -/

namespace Layout

def entry : Parser (List UInt8 × List UInt8) := do
  let key ← shortBytes
  let value ← shortBytes
  return (key, value)

def entries : Parser (List (List UInt8 × List UInt8)) := do
  let n ← number 2
  many entry n

def askedBody (opcode : ℕ) : Parser Asked :=
  if opcode = cqlOpcodeOptions.toNat then return .options
  else if opcode = cqlOpcodeStartup.toNat then .startup <$> entries
  else if opcode = cqlOpcodeQuery.toNat then .query <$> queryAsked
  else if opcode = cqlOpcodePrepare.toNat then .prepare <$> longBytes
  else failure

/-- A frame: its stream, and what it asks.  The version and the flags are skipped. -/
def request : Parser (ℕ × Asked) := do
  skip 2
  let stream ← number 1
  let opcode ← number 1
  let length ← natural
  let asked ← whole (askedBody opcode) length
  return (stream, asked)

theorem reads_entries {m : StringMap (List UInt8)} (hcount : m.length ≤ 65535)
    (hlen : ∀ it ∈ m, it.1.length ≤ 65535 ∧ it.2.length ≤ 65535) :
    Reads entries (encodeStringMap m) m := by
  refine (reads_count hcount).bind (reads_many m ?_)
  intro it hit
  obtain ⟨hkey, hvalue⟩ := hlen it hit
  exact (reads_shortBytes hkey).bind ((reads_shortBytes hvalue).last (reads_pure _))

end Layout

/-! ## Bodies -/

namespace Body

/-- What a body asks. -/
def asked : Body → Option Asked
  | .options => some .options
  | .startup b => some (.startup b.options)
  | .query b => some (.query b.config)
  | .prepare b => some (.prepare b.prepareString)
  | _ => none

/-- The body asks something, all of its fields fit, no serial consistency is counted
    twice, and no paging state has a length of two bytes. -/
def Sendable (b : Body) : Prop :=
  b.wireSize < 2 ^ 31 ∧
    match b with
    | .options | .prepare _ => True
    | .startup b => b.compression.length ≤ 65535 ∧ b.cqlVersion.length ≤ 65535
    | .query b => b.config.Fits ∧ (-2 ^ 15 ≤ b.consistency ∧ b.consistency < 2 ^ 15) ∧
      b.serialConsistent = false ∧ b.pagingState = []
    | _ => False

/-- What a body asks is read back from what it writes. -/
theorem encode_asked {b : Body} (h : b.Sendable) (mem : List UInt8) :
    ∃ allocated bytes a, b.asked = some a ∧
      b.encode mem cqlHeaderSize 0 =
        ⟨true, some (allocated, bytes), cqlHeaderSize + bytes.length⟩ ∧
      bytes.length < 2 ^ 31 ∧ Reads (Layout.askedBody b.opcode.toNat) bytes a := by
  obtain ⟨hsize, hfits⟩ := h
  cases b with
  | options => exact ⟨0, [], .options, rfl, rfl, by norm_num, reads_pure _⟩
  | startup b =>
    have hkeys : keyCompression.length ≤ 65535 ∧ keyCqlVersion.length ≤ 65535 := by decide
    have hoptions : b.options.length ≤ 65535 ∧
        ∀ it ∈ b.options, it.1.length ≤ 65535 ∧ it.2.length ≤ 65535 := by
      unfold BodyStartup.options
      split <;> split <;> simp [hkeys, hfits.1, hfits.2]
    refine ⟨cqlHeaderSize + (Body.startup b).wireSize, encodeStringMap b.options, _, rfl, ?_, ?_,
      ?_⟩
    · rw [b.length_encode]
      exact b.prepare_eq _
    · rw [b.length_encode]
      exact hsize
    · exact (Layout.reads_entries hoptions.1 hoptions.2).map _
  | query b =>
    obtain ⟨hconfig, hcons, hserial, hstate⟩ := hfits
    have hread : Reads Layout.queryAsked (b.encode (b.sizeAndFlags cqlHeaderSize).2) b.config := by
      refine BodyQuery.reads_encode_with hconfig hcons (fun hset => ?_)
        (fun hne => absurd hstate hne) cqlHeaderSize
      rw [hserial] at hset
      cases hset
    have hsum := b.size_eq cqlHeaderSize
    rw [hserial, if_neg Bool.false_ne_true, Nat.add_zero] at hsum
    refine ⟨(b.sizeAndFlags cqlHeaderSize).1, _, _, rfl, ?_, ?_, hread.map _⟩
    · rw [b.length_encode, ← hsum]
      rfl
    · rw [b.length_encode]
      exact hsize
  | prepare b =>
    refine ⟨cqlHeaderSize + (Body.prepare b).wireSize, encodeLongString b.prepareString, _, rfl, ?_,
      ?_, ?_⟩
    · rw [length_encodeLongString]
      simp only [encode, BodyPrepare.prepare, Nat.add_assoc]
      rfl
    · rw [length_encodeLongString]
      exact hsize
    · have hlen : b.prepareString.length < 2 ^ 31 := by
        change 4 + b.prepareString.length < 2 ^ 31 at hsize
        omega
      exact (Layout.reads_longBytes hlen).map _
  | result | error | supported | ready => cases hfits

end Body

/-! ## Messages -/

namespace Message

/-- The bytes of a frame. -/
def Encoded.bytes (e : Encoded) : List UInt8 := e.header ++ e.body

/-- The frame asks `a` on the stream, and is as long as it says. -/
structure Encoded.Asks (e : Encoded) (stream : ℕ) (a : Asked) : Prop where
  inByte : stream < 128
  size : e.size = e.bytes.length
  reads : Reads Layout.request e.bytes (stream, a)

/-- The message asks `a`. -/
def Asks (m : Message) (a : Asked) : Prop :=
  ∃ b, m.body = some b ∧ m.opcode = b.opcode ∧ b.asked = some a ∧ b.Sendable

theorem reads_byte (b : UInt8) : Reads (number 1) [b] b.toNat := by
  have hlt : b.toNat < 256 ^ 1 := by
    have := b.toNat_lt
    omega
  have hread := reads_number hlt
  rwa [bigEndian, bigEndian, Nat.pow_zero, Nat.div_one, UInt8.ofNat_toNat] at hread

/-- A header, with the body behind it. -/
theorem reads_request {m : Message} {bytes : List UInt8} {stream : ℕ} {a : Asked}
    (hlen : bytes.length < 2 ^ 31) (hlength : m.length = toInt32 bytes.length)
    (hstream : (byteOf m.stream).toNat = stream)
    (h : Reads (Layout.askedBody m.opcode.toNat) bytes a) :
    Reads Layout.request (m.encodeHeader ++ bytes) (stream, a) := by
  subst hstream
  have hsplit : m.encodeHeader ++ bytes = [m.version, byteOf m.flags] ++ ([byteOf m.stream] ++
      ([m.opcode] ++ (encodeInt (toInt32 bytes.length) ++ bytes))) := by
    simp [encodeHeader, hlength]
  rw [hsplit]
  refine (reads_skip [m.version, byteOf m.flags]).bind ?_
  refine (reads_byte (byteOf m.stream)).bind ?_
  refine (reads_byte m.opcode).bind ?_
  refine (Layout.reads_natural hlen).bind ?_
  exact (reads_whole h.nil).last (reads_pure _)

theorem toNat_byteOf_toInt8 {n : ℕ} (h : n < 128) : (byteOf (toInt8 n)).toNat = n := by
  have heq : toInt8 n = n := Int.bmod_eq_of_le (by norm_num) (by norm_num; omega)
  have hnat : ((n : ℤ) % 2 ^ 8).toNat = n := by omega
  rw [heq, byteOf, hnat, UInt8.toNat_ofNat']
  omega

/-- `prepare`, when the body has allocated some bytes and written others. -/
theorem prepare_allocated {m : Message} {b : Body} {allocated : ℕ} {bytes : List UInt8}
    (hbody : m.body = some b)
    (hencode : b.encode (m.bodyBuffer.take m.length.toNat) cqlHeaderSize 0 =
      ⟨true, some (allocated, bytes), cqlHeaderSize + bytes.length⟩) :
    m.prepare = ({ m with length := toInt32 bytes.length },
      some ⟨allocated, encodeHeader { m with length := toInt32 bytes.length }, bytes,
        cqlHeaderSize + bytes.length⟩) := by
  have hlength : ((cqlHeaderSize + bytes.length : ℕ) : ℤ) - (cqlHeaderSize : ℕ) =
      bytes.length := by
    push_cast
    ring
  unfold prepare
  simp only [hbody, hencode, Option.getD_some, hlength]
  rw [if_neg (by simp [cqlHeaderSize])]

/-- **What a message asks is what its frame asks.** -/
theorem Asks.prepare {m : Message} {a : Asked} (h : m.Asks a) {stream : ℕ}
    (hstream : stream < 128) : ∃ m' e,
      ({ m with stream := toInt8 stream } : Message).prepare = (m', some e) ∧
        e.Asks stream a := by
  obtain ⟨b, hbody, hopcode, hasked, hsendable⟩ := h
  obtain ⟨allocated, bytes, a', hasked', hencode, hlen, hreads⟩ :=
    Body.encode_asked hsendable (m.bodyBuffer.take m.length.toNat)
  obtain rfl := Option.some.inj (hasked.symm.trans hasked')
  have hframe := prepare_allocated (m := { m with stream := toInt8 stream }) hbody hencode
  refine ⟨_, _, hframe, hstream, ?_, ?_⟩
  · simp [Encoded.bytes, length_encodeHeader]
  · refine reads_request hlen ?_ ?_ ?_
    · simp only
    · simp only
      exact toNat_byteOf_toInt8 hstream
    · simp only
      rw [hopcode]
      exact hreads

end Message

/-! ## Connections -/

/-- The bytes given to `uv_write`. -/
def Write.bytes : Write → List UInt8
  | .frame f => f.frame.bytes
  | .sslOutput bytes => bytes

/-- What the connection asks of its own accord. -/
inductive Asked.Own : Asked → Prop where
  | options : Own .options
  | startup : Own (.startup [(keyCqlVersion, ascii "3.0.0")])
  | use (keyspace : List UInt8) :
    Own (.query (BodyQuery.config { query := ascii "USE " ++ keyspace }))

/-- What a request of the user asks. -/
def Action.asks : Action → Option Asked
  | .exec message _ => message.body.bind Body.asked
  | .prepare statement _ => some (.prepare statement)
  | _ => none

/-- What the user sends fits; there is no SSL session that writes. -/
def Action.Sendable : Action → Prop
  | .exec message _ => ∃ a, message.Asks a
  | .prepare statement _ => 4 + statement.length < 2 ^ 31
  | .setKeyspace keyspace => 4 + (4 + keyspace.length) + 2 + 1 < 2 ^ 31
  | .sendOutput _ => False
  | _ => True

namespace Connection
variable {c c' : Connection} {request : RequestPtr} {P : Asked → Prop} {a : Asked}

/-- At most one frame was written, for the request, and it asks something as `P` says. -/
inductive Utters (c : Connection) (request : RequestPtr) (P : Asked → Prop)
    (c' : Connection) : Prop where
  | nothing (h : c'.writes = c.writes)
  | frame (f : SentFrame) (a : Asked) (hreq : f.request = request)
    (hasks : f.frame.Asks f.stream a) (ha : P a) (h : c'.writes = c.writes ++ [.frame f])

theorem Utters.mono {Q : Asked → Prop} (h : c.Utters request P c') (hPQ : ∀ a, P a → Q a) :
    c.Utters request Q c' := by
  cases h with
  | nothing h => exact .nothing h
  | frame f a hreq hasks ha h => exact .frame f a hreq hasks (hPQ a ha) h

/-- The streams that are handed out fit the header's byte. -/
theorem stream_lt (hs : StreamStorage.Inv c.streamStorage) {stream : ℕ}
    (h : (c.streamStorage.setStream request).2 = .ok stream) : stream < 128 := by
  rcases Nat.lt_or_ge c.streamStorage.availableStreamsIndex cqlStreamIdMax with hlt | hge
  · obtain ⟨id, rest, hfree, hout, -⟩ := setStream_ok hlt request
    obtain rfl := Except.ok.inj (h.symm.trans hout)
    have hle := ((hs.mem_free stream).1 (by simp [hfree])).2.1
    rw [cqlStreamIdMax] at hle
    omega
  · rw [setStream_error hge] at h
    cases h

theorem sendMessage_utters (hs : StreamStorage.Inv c.streamStorage) {message : Message}
    (hm : message.Asks a) {r : Option Error}
    (h : c.sendMessage message request = (c', .ok r)) : c.Utters request (· = a) c' := by
  unfold sendMessage at h
  split at h
  · cases h
    exact .nothing rfl
  · rename_i storage stream hset
    have hlt := stream_lt hs (congrArg Prod.snd hset)
    obtain ⟨m', e, hprepare, hasks⟩ := hm.prepare hlt
    simp only [hprepare] at h
    split at h
    · cases h
      exact .frame ⟨m'.opcode, stream, request, e⟩ a rfl hasks rfl rfl
    · cases h

theorem sendOwn_utters (hs : StreamStorage.Inv c.streamStorage) {opcode : UInt8} {b : Body}
    (hopcode : opcode = b.opcode) (hasked : b.asked = some a) (hb : b.Sendable)
    (h : c.sendOwn opcode b = (c', none)) : c.Utters .null (· = a) c' := by
  unfold sendOwn at h
  split at h
  · cases h
  · rename_i message hmessage
    have hm : ({ message with body := some b } : Message).Asks a := by
      obtain ⟨body, -, hreturn⟩ := bind_eq_ok hmessage
      cases hreturn
      exact ⟨b, rfl, hopcode, hasked, hb⟩
    split at h
    · cases h
    · rename_i hsend
      cases h
      exact sendMessage_utters hs hm hsend

/-! ## What is asked -/

/-- A call on a connection with the same writes. -/
theorem Utters.of_writes {d : Connection} (h : d.Utters request P c')
    (hd : d.writes = c.writes) : c.Utters request P c' := by
  cases h with
  | nothing h => exact .nothing (h.trans hd)
  | frame f a hreq hasks ha h => exact .frame f a hreq hasks ha (by rw [h, hd])

theorem sendOptions_utters (hs : StreamStorage.Inv c.streamStorage)
    (h : c.sendOptions = (c', none)) : c.Utters .null Asked.Own c' := by
  have hb : Body.options.Sendable := ⟨by norm_num [Body.wireSize], trivial⟩
  refine (sendOwn_utters hs rfl rfl hb h).mono ?_
  rintro _ rfl
  exact .options

theorem sendStartup_utters (hs : StreamStorage.Inv c.streamStorage)
    (hversion : c.cqlVersion = ascii "3.0.0") (h : c.sendStartup = (c', none)) :
    c.Utters .null Asked.Own c' := by
  unfold sendStartup at h
  rw [hversion] at h
  have hb : (Body.startup { cqlVersion := ascii "3.0.0" }).Sendable :=
    ⟨by decide, by decide, by decide⟩
  refine (sendOwn_utters hs rfl rfl hb h).mono ?_
  rintro _ rfl
  exact .startup

theorem setKeyspace_utters (hs : StreamStorage.Inv c.streamStorage) {keyspace : List UInt8}
    (hlen : 4 + (4 + keyspace.length) + 2 + 1 < 2 ^ 31)
    (h : c.setKeyspace keyspace = (c', none)) : c.Utters .null Asked.Own c' := by
  have hquery : (ascii "USE " ++ keyspace).length = 4 + keyspace.length := by
    rw [List.length_append]
    rfl
  have hb : (Body.query { query := ascii "USE " ++ keyspace }).Sendable := by
    refine ⟨?_, ⟨?_, Nat.zero_le _, List.forall_mem_nil _, ?_, Nat.zero_le _⟩, ?_, rfl, rfl⟩
    · simp [Body.wireSize, sectionSize, hquery]
      omega
    · simp only [BodyQuery.config, hquery]
      omega
    · intro n hn
      cases hn
    · simp only
      decide
  refine (sendOwn_utters hs rfl rfl hb h).mono ?_
  rintro _ rfl
  exact .use keyspace

theorem onResult_writes {message : Message} {response : ℕ}
    (h : c.onResult message response = (c', none)) : c'.writes = c.writes := by
  by_cases hrel : ∃ result : BodyResult, message.body = some (.result result) ∧
      result.kind ≠ cqlResultKindSetKeyspace
  · obtain ⟨result, hbody, hkind⟩ := hrel
    obtain ⟨c₁, hc₁, hok, herr⟩ := onResult_effect hbody hkind h
    have hget : c₁.writes = c.writes := by
      rw [hc₁]
      rfl
    by_cases hnone : (c.getStream message.stream).2.2 = none
    · obtain ⟨i, -, hcomplete⟩ := complete_effect (hok hnone)
      exact (congrArg Core.writes hcomplete).trans hget
    · exact (congrArg Core.writes (herr hnone)).trans hget
  · exact congrArg Core.writes (onResult_core hrel h)

section
variable (hs : StreamStorage.Inv c.streamStorage) (hssl : c.ssl = false)
  (hversion : c.cqlVersion = ascii "3.0.0")
include hs hssl hversion

theorem eventReceived_utters (h : c.eventReceived = (c', none)) :
    c.Utters .null Asked.Own c' := by
  unfold eventReceived eventReceivedWith at h
  split at h
  · cases h
    exact .nothing rfl
  · cases h
    exact .nothing rfl
  · unfold sslHandshake eventReceivedWith at h
    split at h
    · rename_i htrue
      rw [hssl] at htrue
      cases htrue
    · have hown := sendOptions_utters (c := { c with state := .handshake }) hs h
      exact hown.of_writes rfl
  · exact sendOptions_utters hs h
  · exact sendStartup_utters hs hversion h
  · cases h
    exact .nothing (congrArg Core.writes (notifyReady_core c))
  · cases h
  · cases h

/-- **What the connection asks of its own accord.** -/
theorem perform_own {a : Action} (hsend : a.Sendable) (hreq : a.isRequest = false)
    (h : perform a c = (c', none)) : c.Utters .null Asked.Own c' := by
  have hevent : ∀ d : Connection, d.toCore.streamStorage = c.streamStorage →
      d.writes = c.writes → d.ssl = c.ssl → d.cqlVersion = c.cqlVersion →
      d.eventReceived = (c', none) → c.Utters .null Asked.Own c' := by
    intro d hds hdw hdssl hdv hreceived
    exact (eventReceived_utters (hds ▸ hs) (hdssl.trans hssl) (hdv.trans hversion)
      hreceived).of_writes hdw
  cases a with
  | init connect keyspace =>
    exact hevent { c with connectCallback := connect, keyspaceCallback := keyspace }
      rfl rfl rfl rfl h
  | onResolve status =>
    change c.onResolve status = _ at h
    unfold onResolve at h
    split at h
    · cases h
      exact .nothing rfl
    · exact hevent { c with state := .resolved } rfl rfl rfl rfl h
  | onConnect status =>
    change c.onConnect status = _ at h
    unfold onConnect at h
    split at h
    · cases h
      exact .nothing rfl
    · exact hevent { c.emit .readStart with state := .connected } rfl rfl rfl rfl h
  | handshakeDone => exact hevent { c with state := .handshake } rfl rfl rfl rfl h
  | dispatch message =>
    change handlers.dispatch message c = _ at h
    unfold Handlers.dispatch at h
    split at h
    · cases h
    split at h
    · cases h
    unfold Handlers.handle at h
    split at h
    · exact hevent { (c.receive message).deleteResponse c.responses.length with
        state := .supported } rfl rfl rfl rfl h
    split at h
    · have hcore := onError_core (c := c.receive message) h
      refine .nothing ?_
      rw [hcore]
      rfl
    split at h
    · exact hevent { (c.receive message).deleteResponse c.responses.length with
        state := .ready } rfl rfl rfl rfl h
    split at h
    · exact .nothing (onResult_writes (c := c.receive message) h)
    · cases h
  | setKeyspace keyspace => exact setKeyspace_utters hs hsend h
  | sendOutput bytes => exact hsend.elim
  | exec | prepare => cases hreq
  | onClose => cases h
  | onWrite | readError | reading | close =>
    cases h
    exact .nothing rfl

end

theorem sendRequest_utters (hs : StreamStorage.Inv c.streamStorage) {message : Message}
    (hm : message.Asks a) {r : CallerRequest}
    (h : outcome (c.sendRequest message r) = (c', none)) :
    c.Utters (.request c.requests.length) (· = a) c' := by
  rcases hsend : c.sendRequest message r with ⟨d, e | i⟩
  · rw [hsend] at h
    cases h
  rw [hsend] at h
  cases h
  unfold sendRequest at hsend
  simp only at hsend
  split at hsend
  · cases hsend
  · rename_i hmessage
    cases hsend
    exact (sendMessage_utters (c := { c with requests := c.requests ++ [r] }) hs hm
      hmessage).of_writes rfl
  · rename_i hmessage
    cases hsend
    cases sendMessage_utters (c := { c with requests := c.requests ++ [r] }) hs hm hmessage with
    | nothing hw => exact .nothing hw
    | frame f a hreq hasks ha hw => exact .frame f a hreq hasks ha hw

/-- What the request asks that an action makes, if its constructor returns. -/
def asks (c : Connection) (a : Action) : List Asked :=
  if c.nullString = .throws then [] else a.asks.toList

/-- **What a request of the user asks.** -/
theorem request_utters (hs : StreamStorage.Inv c.streamStorage) {a : Action} (hsend : a.Sendable)
    (hreq : a.isRequest = true) (h : perform a c = (c', none)) : c.asks a = [] ∧ c' = c ∨
      ∃ q, c.asks a = [q] ∧ c.Utters (.request c.requests.length) (· = q) c' := by
  rcases hnull : c.nullString with _ | text
  · rw [perform_throws hreq hnull] at h
    cases h
    exact .inl ⟨if_pos hnull, rfl⟩
  · have hasks : c.asks a = a.asks.toList := if_neg (by rw [hnull]; exact nofun)
    rw [hasks]
    cases a with
    | exec message callback =>
      obtain ⟨q, b, hbody, hopcode, hasked, hb⟩ := hsend
      refine .inr ⟨q, ?_, ?_⟩
      · rw [Action.asks, hbody, Option.bind_some, hasked]
        rfl
      · rw [perform, exec, hnull] at h
        exact sendRequest_utters hs ⟨b, hbody, hopcode, hasked, hb⟩ h
    | prepare statement callback =>
      refine .inr ⟨.prepare statement, rfl, ?_⟩
      rw [perform, prepare, hnull] at h
      have hb : (Body.prepare ⟨statement⟩).Sendable := ⟨hsend, trivial⟩
      exact sendRequest_utters hs ⟨_, rfl, rfl, rfl, hb⟩ h
    | _ => cases hreq

end Connection

/-- Only `exec` and `prepare` make requests. -/
theorem Connection.length_requests {c c' : Connection} {a : Action}
    (hs : StreamStorage.Inv c.streamStorage) (hsend : a.Sendable)
    (h : Connection.perform a c = (c', none)) :
    c'.requests.length = c.requests.length + (c.asks a).length := by
  rcases hreq : a.isRequest with _ | _
  · have hasks : c.asks a = [] := by
      have hnone : a.asks = none := by
        cases a with
        | exec | prepare => cases hreq
        | _ => rfl
      rw [Connection.asks, hnone, Option.toList_none, ite_self]
    rw [hasks, List.length_nil, Nat.add_zero]
    by_cases hd : ∃ message, a = .dispatch message
    · obtain ⟨message, rfl⟩ := hd
      exact (dispatch_effect h).length
    · rcases other_effect (fun message hm => hd ⟨message, hm⟩) hreq h with
        hown | ⟨bytes, rfl, -⟩
      · rw [hown.requests]
      · exact hsend.elim
  · rcases request_effect hreq h with ⟨hthrows, rfl⟩ | ⟨hne, hnew⟩
    · rw [Connection.asks, if_pos hthrows, List.length_nil, Nat.add_zero]
    · rcases request_utters hs hsend hreq h with ⟨hasks, rfl⟩ | ⟨q, hasks, -⟩
      · exact absurd hnew.length (by omega)
      · rw [hnew.length, hasks, List.length_singleton]

/-! ## The bytes, as the server reads them -/

/-- A connection without SSL, and what the requests of the user ask; a call whose
    constructor throws makes none. -/
structure Transcript where
  conn : Connection
  calls : List Asked

namespace Transcript

def system : System Transcript Action where
  init t := (∃ heap nullString prepareCallback,
    t.conn = Connection.new heap nullString false prepareCallback) ∧ t.calls = []
  step t a t' := a.Sendable ∧ Connection.perform a t.conn = (t'.conn, none) ∧
    t'.calls = t.calls ++ t.conn.asks a

/-- The write is a frame that asks `x.2` on the stream `x.1`: what its request does, or
    something of the connection's own. -/
def Asks (calls : List Asked) (w : Write) (x : ℕ × Asked) : Prop :=
  ∃ f, w = .frame f ∧ f.stream = x.1 ∧ f.frame.Asks f.stream x.2 ∧
    (f.request = .null ∧ x.2.Own ∨ ∃ i, f.request = .request i ∧ calls[i]? = some x.2)

/-- `log` is what the writes ask. -/
structure Understood (t : Transcript) (log : List (ℕ × Asked)) : Prop where
  ssl : t.conn.ssl = false
  version : t.conn.cqlVersion = ascii "3.0.0"
  calls : t.calls.length = t.conn.requests.length
  log : List.Forall₂ (Asks t.calls) t.conn.writes log
  ordered : ∀ k k' f f' i i', t.conn.Frame k f → t.conn.Frame k' f' → f.request = .request i →
    f'.request = .request i' → k < k' → i < i'

variable {t t' : Transcript} {log : List (ℕ × Asked)}

theorem Asks.mono {calls : List Asked} {w : Write} {x : ℕ × Asked} (h : Asks calls w x)
    (more : List Asked) : Asks (calls ++ more) w x := by
  obtain ⟨f, rfl, hstream, hasks, hwho⟩ := h
  refine ⟨f, rfl, hstream, hasks, ?_⟩
  rcases hwho with hown | ⟨i, hreq, hcall⟩
  · exact .inl hown
  · exact .inr ⟨i, hreq, Core.getElem?_append_of_eq_some hcall⟩

/-- A new frame, if it is for the newest request, comes behind those of the others. -/
theorem Understood.ordered_frame (h : t.Understood log) (hinv : t.conn.Inv) {f : SentFrame}
    (hw : t'.conn.writes = t.conn.writes ++ [.frame f])
    (hwho : f.request = .null ∨ f.request = .request t.conn.requests.length) :
    ∀ k k' g g' i i', t'.conn.Frame k g → t'.conn.Frame k' g' → g.request = .request i →
      g'.request = .request i' → k < k' → i < i' := by
  have hframes : ∀ k g, t'.conn.Frame k g →
      t.conn.Frame k g ∨ k = t.conn.writes.length ∧ g = f := by
    intro k g hk
    rw [Core.Frame, hw] at hk
    rcases Core.concat_getElem?.1 hk with hk | ⟨rfl, hg⟩
    · exact .inl hk
    · exact .inr ⟨rfl, (Write.frame.inj hg).symm⟩
  intro k k' g g' i i' hk hk' hi hi' hlt
  rcases hframes k g hk with hk | ⟨rfl, rfl⟩
  · rcases hframes k' g' hk' with hk' | ⟨rfl, rfl⟩
    · exact h.ordered k k' g g' i i' hk hk' hi hi' hlt
    · -- the new frame is for the newest request
      have hknown := hinv.known k g i hk hi
      rcases hwho with hnull | hnew
      · rw [hnull] at hi'
        cases hi'
      · rw [hnew] at hi'
        obtain rfl := RequestPtr.request.inj hi'
        exact hknown
  · -- no frame is behind the new one
    rcases hframes k' g' hk' with hk' | ⟨rfl, rfl⟩
    · exact absurd (List.getElem?_eq_some_iff.1 hk').1 (Nat.not_lt_of_gt hlt)
    · exact absurd hlt (Nat.lt_irrefl _)

/-- **One call**: what it asks comes behind what was asked before. -/
theorem Understood.step (h : t.Understood log) (hinv : t.conn.Inv) {a : Action}
    (hsend : a.Sendable) (hperform : Connection.perform a t.conn = (t'.conn, none))
    (hcalls : t'.calls = t.calls ++ t.conn.asks a) : ∃ more, t'.Understood (log ++ more) := by
  have hssl := (Connection.perform_state hperform).ssl.trans h.ssl
  have hversion := (Connection.perform_state hperform).cqlVersion.trans h.version
  have hlength : t'.calls.length = t'.conn.requests.length := by
    rw [hcalls, List.length_append, h.calls,
      Connection.length_requests hinv.streams hsend hperform]
  have hlog : List.Forall₂ (Asks t'.calls) t.conn.writes log := by
    rw [hcalls]
    exact h.log.imp fun w x hx => hx.mono _
  -- who asks, and what, if anything is written
  have hutters : ∃ request P, t.conn.Utters request P t'.conn ∧ ∀ q, P q →
      request = .null ∧ q.Own ∨
        request = .request t.conn.requests.length ∧
          t'.calls[t.conn.requests.length]? = some q := by
    rcases hreq : a.isRequest with _ | _
    · exact ⟨_, _, Connection.perform_own hinv.streams h.ssl h.version hsend hreq hperform,
        fun q hq => .inl ⟨rfl, hq⟩⟩
    · rcases Connection.request_utters hinv.streams hsend hreq hperform with
        ⟨-, hsame⟩ | ⟨q, hasks, hutters⟩
      · exact ⟨.null, Asked.Own, .nothing (by rw [hsame]), fun q hq => .inl ⟨rfl, hq⟩⟩
      · refine ⟨_, _, hutters, ?_⟩
        rintro _ rfl
        refine .inr ⟨rfl, ?_⟩
        rw [hcalls, hasks, ← h.calls]
        simp
  obtain ⟨request, P, hutters, hwho⟩ := hutters
  cases hutters with
  | nothing hw =>
    refine ⟨[], hssl, hversion, hlength, ?_, ?_⟩
    · rw [hw, List.append_nil]
      exact hlog
    · simpa only [Core.Frame, hw] using h.ordered
  | frame f q hreq hasks hq hw =>
    refine ⟨[(f.stream, q)], hssl, hversion, hlength, ?_, ?_⟩
    · rw [hw]
      refine List.rel_append hlog (.cons ⟨f, rfl, rfl, hasks, ?_⟩ .nil)
      rw [hreq]
      exact (hwho q hq).imp_right fun hcall => ⟨_, hcall⟩
    · exact h.ordered_frame hinv hw <| hreq ▸ (hwho q hq).imp And.left And.left

theorem Understood.init (h : system.init t) : t.Understood [] := by
  obtain ⟨conn, calls⟩ := t
  obtain ⟨⟨heap, nullString, prepareCallback, rfl⟩, rfl⟩ := h
  refine ⟨rfl, rfl, rfl, .nil, ?_⟩
  intro k k' f f' i i' hk
  simp [Core.Frame, Connection.new] at hk

/-- The server's grammar reads the log off the bytes written. -/
theorem Understood.reads (h : t.Understood log) : Reads
    (many Layout.request t.conn.writes.length) (t.conn.writes.flatMap Write.bytes) log := by
  refine reads_many_forall₂ (h.log.imp ?_)
  rintro w ⟨stream, a⟩ ⟨f, rfl, rfl, hasks, -⟩
  exact hasks.reads

/-- Without the calls it is a run of the connection. -/
theorem refines_connection : system.Refines Connection.system Transcript.conn where
  init _ hinit := by
    obtain ⟨⟨heap, nullString, prepareCallback, hnew⟩, -⟩ := hinit
    exact ⟨heap, nullString, false, prepareCallback, hnew⟩
  step _ a _ _ hstep := ⟨[a], .single hstep.2.1⟩

/-- `log` is what the server reads, frame by frame: on the stream of the frame, what
    its request asks, or something of the connection's own.  The frames of the requests
    are in the order of the calls, and it has those of all that wait for an answer. -/
structure Read (t : Transcript) (log : List (ℕ × Asked)) : Prop where
  bytes : many Layout.request t.conn.writes.length (t.conn.writes.flatMap Write.bytes) =
    some (log, [])
  frames : ∀ (k stream : ℕ) (a : Asked), log[k]? = some (stream, a) → ∃ f, t.conn.Frame k f ∧
    f.stream = stream ∧
    (f.request = .null ∧ a.Own ∨ ∃ i, f.request = .request i ∧ t.calls[i]? = some a)
  ordered : ∀ k k' f f' i i', t.conn.Frame k f → t.conn.Frame k' f' → f.request = .request i →
    f'.request = .request i' → (k < k' ↔ i < i')
  waiting : ∀ i, t.conn.Waiting i → ∃ k f a, t.conn.Frame k f ∧ f.request = .request i ∧
    log[k]? = some (f.stream, a)

/-- What a place in the log says of the write there. -/
theorem Understood.asks (h : t.Understood log) {k : ℕ} {x : ℕ × Asked} (hk : log[k]? = some x) :
    ∃ w, t.conn.writes[k]? = some w ∧ Asks t.calls w x := by
  obtain ⟨hlen, hget⟩ := List.forall₂_iff_get.1 h.log
  obtain ⟨hlt, rfl⟩ := List.getElem?_eq_some_iff.1 hk
  have hlt' : k < t.conn.writes.length := hlen.symm ▸ hlt
  exact ⟨_, List.getElem?_eq_getElem hlt', hget k hlt' hlt⟩

theorem Understood.read (h : t.Understood log) (hinv : t.conn.Inv) : t.Read log where
  bytes := h.reads.nil
  frames k stream a hk := by
    obtain ⟨w, hw, f, rfl, hstream, -, hwho⟩ := h.asks hk
    exact ⟨f, hw, hstream, hwho⟩
  ordered k k' f f' i i' hk hk' hi hi' := by
    constructor
    · exact h.ordered k k' f f' i i' hk hk' hi hi'
    · intro hlt
      rcases Nat.lt_trichotomy k k' with hkk | rfl | hkk
      · exact hkk
      · obtain rfl := Write.frame.inj (Option.some.inj (hk.symm.trans hk'))
        obtain rfl := RequestPtr.request.inj (hi.symm.trans hi')
        exact absurd hlt (Nat.lt_irrefl _)
      · exact absurd (h.ordered k' k f' f i' i hk' hk hi' hi hkk) (Nat.lt_asymm hlt)
  waiting i hi := by
    obtain ⟨id, hheld⟩ := (hinv.waiting i).1 hi
    obtain ⟨k, f, hk, -, hreq⟩ := hinv.frame id hheld.1
    have hlt : k < log.length := by
      rw [← h.log.length_eq]
      exact (List.getElem?_eq_some_iff.1 hk).1
    have hat : log[k]? = some log[k] := List.getElem?_eq_getElem hlt
    obtain ⟨w, hw, g, rfl, hstream, -, -⟩ := h.asks hat
    obtain rfl := Write.frame.inj (Option.some.inj (hk.symm.trans hw))
    refine ⟨k, f, log[k].2, hk, hreq.trans hheld.2, ?_⟩
    rw [hat, hstream]

/-- **The server understands the client**: in every run it reads off the bytes what the
    requests ask, in the order of the calls, and what the connection asks of its own
    accord. -/
theorem understood_of_reachable (h : system.Reachable t) : ∃ log, t.Read log := by
  have hlog : ∃ log, t.Understood log := by
    refine h.invariant (I := fun t => ∃ log, t.Understood log) ?_ ?_
    · intro t hinit
      exact ⟨[], .init hinit⟩
    · rintro t a t' hreach ⟨log, hlog⟩ ⟨hsend, hperform, hcalls⟩
      have hinv := Connection.inv_of_reachable (refines_connection.reachable hreach)
      obtain ⟨more, hmore⟩ := hlog.step hinv hsend hperform hcalls
      exact ⟨log ++ more, hmore⟩
  obtain ⟨log, hlog⟩ := hlog
  exact ⟨log, hlog.read (Connection.inv_of_reachable (refines_connection.reachable h))⟩

/-- A connection that has sent the empty query, with a library that lets `exec` return. -/
def queried : Transcript :=
  ⟨(Connection.perform (.exec queryMessage false) Connection.lenient).1,
    [.query (BodyQuery.config {})]⟩

theorem asks_queryMessage : queryMessage.Asks (.query (BodyQuery.config {})) := by
  refine ⟨.query {}, rfl, rfl, rfl, by decide, ⟨?_, ?_, ?_, ?_, ?_⟩, by decide, rfl, rfl⟩
  · decide
  · exact Nat.zero_le _
  · exact List.forall_mem_nil _
  · intro n hn
    cases hn
  · exact Nat.zero_le _

theorem reachable_queried : system.Reachable queried := by
  have hstart : system.Reachable ⟨Connection.lenient, []⟩ := .init ⟨⟨_, _, _, rfl⟩, rfl⟩
  exact hstart.step (a := .exec queryMessage false) ⟨⟨_, asks_queryMessage⟩, Prod.ext rfl rfl, rfl⟩

/-- The server reads the query. -/
theorem understood_query : ∃ log, queried.Read log := understood_of_reachable reachable_queried

end Transcript

end CqlClient
