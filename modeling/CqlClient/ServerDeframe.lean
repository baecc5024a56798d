/-
  CqlClient formalization — the server's side of the parser (`server/main.cpp`).

  The server drives the same `Message::consume`, but takes the number of bytes that it
  returns for the news that the message is complete, and has no loop.  So every buffer
  starts with a new message, and gives at most one.  Where the client finds every frame
  (`consumeAll_inSync`), the server finds them only if every buffer is one frame
  (`agrees_iff`).
-/
import CqlClient.Deframe

namespace CqlClient

open Word

variable {S : Type}

/-- The server's `Connection`, with the messages that were complete. -/
structure ServerConnection where
  incomming : Message
  completed : List Message := []

namespace ServerConnection
variable (bodyConsume : List UInt8 → Body → Except Crash (Body × Bool))

/-- `consume_buffer`. -/
def consumeBuffer (buf : List UInt8) (s : ServerConnection) : ServerConnection × Option Crash :=
  match s.incomming.consume bodyConsume buf with
  | (m, .error e) => ({ s with incomming := m }, some e)
  | (m, .ok consumed) =>
    let completed := if m.bodyReady then s.completed ++ [m] else s.completed
    if consumed ≠ 0 then ({ incomming := Message.new m.heap, completed }, none)
    else ({ incomming := m, completed }, none)

/-- The buffers given to `consume_buffer` in order, up to a crash. -/
def consumeAll (s : ServerConnection) : List (List UInt8) → ServerConnection × Option Crash
  | [] => (s, none)
  | buf :: bufs =>
    match s.consumeBuffer bodyConsume buf with
    | (s, some e) => (s, some e)
    | (s, none) => consumeAll s bufs

end ServerConnection

/-- The fields of a frame's header. -/
structure Header where
  version : UInt8
  flags : ℤ
  stream : ℤ
  opcode : UInt8
  length : ℤ
  deriving DecidableEq, Repr

def Message.header (m : Message) : Header := ⟨m.version, m.flags, m.stream, m.opcode, m.length⟩

def Frame.header (f : Frame) : Header :=
  ⟨f.version, toInt8 f.flags.toNat, toInt8 f.stream.toNat, f.opcode, f.body.length⟩

theorem Carries.header {f : Frame} {m : Message} (h : Carries f m) : m.header = f.header := by
  simp only [Message.header, Frame.header, h.version, h.flags, h.stream, h.opcode, h.length]

/-! ## Lists of buffers -/

section
variable {α : Type}

/-- A part of the buffers that has all of their bytes leaves out empty ones only. -/
theorem filter_eq_of_sublist {used buffers : List (List α)} (h : used.Sublist buffers)
    (hne : ∀ b ∈ used, b ≠ []) (hlen : buffers.flatten.length ≤ used.flatten.length) :
    buffers.filter (fun b => !b.isEmpty) = used := by
  induction h with
  | slnil => rfl
  | @cons used buffers b h ih =>
    have hle := (h.flatten).length_le
    rw [List.flatten_cons, List.length_append] at hlen
    have hb : b = [] := List.eq_nil_of_length_eq_zero (by omega)
    rw [hb, List.filter_cons_of_neg (by simp)]
    exact ih hne (by omega)
  | @cons_cons used buffers b h ih =>
    have hb := hne b (List.mem_cons_self ..)
    rw [List.filter_cons_of_pos (by simpa using hb)]
    rw [List.flatten_cons, List.flatten_cons, List.length_append, List.length_append] at hlen
    rw [ih (fun b hb => hne b (List.mem_cons_of_mem _ hb)) (by omega)]

end

/-- The buffers hold the frames. -/
def Holds (f : Frame) (b : List UInt8) : Prop := f.size ≤ b.length

theorem nonempty_of_holds {frames : List Frame} {used : List (List UInt8)}
    (h : List.Forall₂ Holds frames used) : ∀ b ∈ used, b ≠ [] := by
  induction h with
  | nil => nofun
  | @cons f b frames used hb _ ih =>
    rw [List.forall_mem_cons]
    refine ⟨?_, ih⟩
    rintro rfl
    exact absurd hb (by simp [Holds, Frame.size, cqlHeaderSize])

theorem length_flatten_of_holds {frames : List Frame} {used : List (List UInt8)}
    (h : List.Forall₂ Holds frames used) :
    (frames.flatMap Frame.bytes).length ≤ used.flatten.length := by
  induction h with
  | nil => exact le_rfl
  | @cons f b frames used hb _ ih =>
    have hb : f.size ≤ b.length := hb
    rw [List.flatMap_cons, List.flatten_cons, List.length_append, List.length_append,
      Frame.length_bytes]
    omega

/-- Buffers that hold the frames, and have no more bytes, are the frames. -/
theorem eq_of_holds {frames : List Frame} {used : List (List UInt8)}
    (h : List.Forall₂ Holds frames used) (hcat : used.flatten = frames.flatMap Frame.bytes) :
    used = frames.map Frame.bytes := by
  induction h with
  | nil => rfl
  | @cons f b frames used hb hrest ih =>
    have hb : f.size ≤ b.length := hb
    have hlen := length_flatten_of_holds hrest
    have htotal := congrArg List.length hcat
    rw [List.flatMap_cons, List.flatten_cons, List.length_append, List.length_append,
      Frame.length_bytes] at htotal
    rw [List.flatMap_cons, List.flatten_cons] at hcat
    obtain ⟨hbytes, hcat'⟩ := List.append_inj hcat (by rw [Frame.length_bytes]; omega)
    rw [List.map_cons, hbytes, ih hcat']

/-- Messages with the headers of the frames, and the buffers that they came from. -/
theorem holds_of_headers {frames : List Frame} {ms : List Message} {used : List (List UInt8)}
    (heq : ms.map Message.header = frames.map Frame.header)
    (hall : List.Forall₂ (fun (m : Message) b => 0 ≤ m.length ∧
      m.length + cqlHeaderSize ≤ b.length) ms used) : List.Forall₂ Holds frames used := by
  induction hall generalizing frames with
  | nil =>
    rw [List.map_nil, eq_comm, List.map_eq_nil_iff] at heq
    subst heq
    exact .nil
  | @cons m b ms used hm _ ih =>
    rcases frames with _ | ⟨f, frames⟩
    · cases heq
    rw [List.map_cons, List.map_cons, List.cons.injEq] at heq
    have hlen : m.length = f.body.length := congrArg Header.length heq.1
    refine .cons ?_ (ih heq.2)
    have hle := hm.2
    change f.body.length + cqlHeaderSize ≤ b.length
    omega

theorem headers_of_carries {frames : List Frame} {ms : List Message}
    (h : List.Forall₂ Carries frames ms) : ms.map Message.header = frames.map Frame.header := by
  induction h with
  | nil => rfl
  | cons hm _ ih => rw [List.map_cons, List.map_cons, hm.header, ih]

/-- The client dispatches all of the frames. -/
theorem dispatched_header (bodyConsume : List UInt8 → Body → Except Crash (Body × Bool))
    (h : Handlers S) (heap : Memory) (conn : S) {frames : List Frame}
    {buffers : List (List UInt8)} (hcat : buffers.flatten = frames.flatMap Frame.bytes)
    (hnet : ReadLoop.Network bodyConsume h frames buffers) :
    (({ incomming := Message.new heap, conn } : ReadLoop S).consumeAll
      bodyConsume h buffers).1.dispatched.map Message.header = frames.map Frame.header := by
  have hinv : ReadLoop.Inv ({ incomming := Message.new heap, conn } : ReadLoop S) :=
    ⟨Message.waiting_new heap, le_rfl, le_rfl, rfl, by simp⟩
  have hstart : ReadLoop.InSync h frames conn [] { incomming := Message.new heap, conn } :=
    ⟨⟨[], frames, 0, rfl, .nil, ReadLoop.Pending.new frames heap, rfl⟩, rfl⟩
  have hpre : [] ++ buffers.flatten <+: frames.flatMap Frame.bytes := by
    rw [List.nil_append, hcat]
  obtain ⟨st, hrun, ⟨front, rest, n, hsplit, hdone, hpend, htaken⟩, -⟩ :=
    ReadLoop.consumeAll_inSync hinv hstart hnet (fun b hb => hb) hpre
  rw [hrun]
  have hrest : rest = [] := by
    rcases rest with _ | ⟨f, rest⟩
    · rfl
    have hlt := hpend.lt f rest rfl
    have hlen := congrArg List.length htaken
    rw [List.nil_append, hcat, hsplit, List.flatMap_append, List.length_append,
      List.length_append, List.length_take, List.flatMap_cons, List.length_append,
      Frame.length_bytes] at hlen
    omega
  rw [hsplit, hrest, List.append_nil]
  exact headers_of_carries hdone

/-! ## One buffer -/

namespace Message
variable (bodyConsume : List UInt8 → Body → Except Crash (Body × Bool))

/-- A message that has received nothing. -/
def Blank (m : Message) : Prop := ∀ f : Frame, m.Partial f 0

theorem blank_new (heap : Memory) : (new heap).Blank := fun f => partial_new f heap

theorem length_decodeBody (m : Message) (taken : ℤ) :
    (m.decodeBody bodyConsume taken).1.length = m.length := by
  unfold decodeBody
  split
  · rfl
  · split <;> rfl

theorem length_consumeBody (m : Message) (input : List UInt8) (pos : ℕ) :
    (m.consumeBody bodyConsume input pos).1.length = m.length := by
  unfold consumeBody
  simp only
  split
  · split
    · exact length_decodeBody bodyConsume _ _
    · rfl
  · rfl

/-- The empty buffer leaves a message blank. -/
theorem Blank.nil {m : Message} (hm : m.Blank) :
    ∃ m', m.consume bodyConsume [] = (m', .ok 0) ∧ m'.Blank := by
  have hpart : ∀ f : Frame, ∃ m', m.consume bodyConsume [] = (m', .ok 0) ∧ m'.Partial f 0 := by
    intro f
    have hlt := (hm f).lt
    exact consume_partial bodyConsume (hm f) (List.nil_prefix) hlt
  obtain ⟨m', hc, -⟩ := hpart (ReadLoop.readyFrame [] (by decide))
  refine ⟨m', hc, fun f => ?_⟩
  obtain ⟨m'', hc', hp⟩ := hpart f
  rw [hc] at hc'
  cases hc'
  exact hp

/-- Whatever is in a buffer: a message that is complete after it is no longer than the
    buffer, and some bytes were taken. -/
theorem Blank.cons {m m' : Message} {buf : List UInt8} {consumed : ℤ} (hm : m.Blank)
    (hin : buf.length < 2 ^ 31) (hne : buf ≠ [])
    (h : m.consume bodyConsume buf = (m', .ok consumed)) :
    consumed ≠ 0 ∧ (m'.bodyReady = true → 0 ≤ m'.length ∧
      m'.length + cqlHeaderSize ≤ buf.length) := by
  have hw : m.Waiting := (hm (ReadLoop.readyFrame [] (by decide))).waiting
  have hzero : m.received = 0 := (hm (ReadLoop.readyFrame [] (by decide))).received
  have hrcv : m.headerReceived = false :=
    ((hm (ReadLoop.readyFrame [] (by decide))).header (by decide)).1
  have hpos : 0 < buf.length := List.length_pos_iff.2 hne
  have hfit := ((consume_returns_iff bodyConsume hw hin).1 ⟨m', consumed, h⟩).1
  have hadd : toInt32 (m.received + buf.length) = buf.length := by
    rw [hzero, Int.zero_add]
    exact toInt32_eq (by omega) (by omega)
  by_cases hf : m.CompletesFrame buf
  · obtain ⟨m₁, c, hc, hone, -⟩ := consume_frame bodyConsume hw hin hfit hf
    obtain ⟨m₂, pos, hat, -, hbody⟩ := consume_atBody bodyConsume hw hin hfit hf.1
    have hlen : m'.length = m.nextLength buf := by
      have hfst : (m.consume bodyConsume buf).1.length = m₂.length := by
        rw [hat]
        exact length_consumeBody bodyConsume m₂ buf pos
      rw [h] at hfst
      exact hfst.trans hbody.length
    have hcompletes : m.CompletesHeader buf := by
      rcases hf.1 with hrcv' | hcompletes
      · rw [hrcv] at hrcv'
        cases hrcv'
      · exact hcompletes
    have height := hcompletes.2
    have hle := hf.2
    rw [hadd] at height hle
    rw [toInt32_eq (x := (buf.length : ℤ) - cqlHeaderSize) (by omega) (by omega)] at hle
    refine ⟨?_, fun _ => ⟨?_, ?_⟩⟩
    · have hdecode : ∀ r, (m₁.decodeBody bodyConsume c).2 = .ok r → r = c := by
        intro r
        unfold decodeBody
        split
        · nofun
        · split
          · nofun
          · intro hr
            cases hr
            rfl
      rw [h] at hc
      have := hdecode consumed (congrArg Prod.snd hc).symm
      omega
    · rw [hlen]
      exact (hfit hcompletes).2
    · rw [hlen]
      omega
  · obtain ⟨m₁, hc, hw', -⟩ := consume_more bodyConsume hw hin hfit hf
    rw [h] at hc
    cases hc
    refine ⟨by omega, fun hready => ?_⟩
    rw [hw'.ready] at hready
    cases hready

/-- A buffer that is a frame. -/
theorem Blank.frame {m : Message} {f : Frame} (hm : m.Blank) (hsize : f.size < 2 ^ 31)
    (hbody : ∀ buffer b, buffer.length = f.body.length → allocateBody f.opcode = .ok (some b) →
      ∃ r, bodyConsume buffer b = .ok r) :
    ∃ m', m.consume bodyConsume f.bytes = (m', .ok f.size) ∧ m'.bodyReady = true ∧
      Carries f m' := by
  obtain ⟨m₁, hc, hhdr, -, hcop, -⟩ := consume_complete bodyConsume (hm f)
    (List.prefix_rfl (l := f.bytes)) (by rw [Frame.length_bytes]; omega)
  obtain ⟨b, hb⟩ := allocateBody_ok f.supported
  have hmb : m₁.body = some b := by
    have halloc := hhdr.body
    rw [hb] at halloc
    exact (Except.ok.inj halloc).symm
  obtain ⟨⟨b', ok⟩, hbc⟩ := hbody (m₁.bodyBuffer.take m₁.length.toNat) b
    (by simp [hhdr.length]) hb
  rw [decodeBody_ok _ hmb hbc, Nat.sub_zero] at hc
  exact ⟨m₁.setBody b' ok, hc, rfl,
    ⟨hhdr.version, hhdr.flags, hhdr.stream, hhdr.opcode, hhdr.length, hcop⟩⟩

end Message

/-! ## Runs of the server -/

namespace ServerConnection
variable (bodyConsume : List UInt8 → Body → Except Crash (Body × Bool))
variable {s s' : ServerConnection} {buf : List UInt8} {buffers : List (List UInt8)}

/-- One buffer leaves a blank message, and completes at most one message, which it holds. -/
theorem consumeBuffer_completed (hm : s.incomming.Blank) (hin : buf.length < 2 ^ 31) :
    ∃ ms, (s.consumeBuffer bodyConsume buf).1.completed = s.completed ++ ms ∧
      ((s.consumeBuffer bodyConsume buf).2 = none →
        (s.consumeBuffer bodyConsume buf).1.incomming.Blank) ∧
      (ms = [] ∨ ∃ m : Message, ms = [m] ∧ 0 ≤ m.length ∧
        m.length + cqlHeaderSize ≤ buf.length) := by
  unfold consumeBuffer
  rcases hc : s.incomming.consume bodyConsume buf with ⟨m, e | consumed⟩
  · exact ⟨[], (List.append_nil _).symm, nofun, .inl rfl⟩
  by_cases hne : buf = []
  · subst hne
    obtain ⟨m', hc', hblank⟩ := hm.nil bodyConsume
    rw [hc] at hc'
    cases hc'
    have hready := (hblank (ReadLoop.readyFrame [] (by decide))).ready
    simp only [hready, ne_eq, not_true_eq_false, Bool.false_eq_true, if_false]
    exact ⟨[], (List.append_nil _).symm, fun _ => hblank, .inl rfl⟩
  · obtain ⟨hconsumed, hlen⟩ := hm.cons bodyConsume hin hne hc
    simp only [if_pos hconsumed]
    by_cases hready : m.bodyReady = true
    · rw [if_pos hready]
      exact ⟨[m], rfl, fun _ => Message.blank_new _, .inr ⟨m, rfl, hlen hready⟩⟩
    · rw [if_neg hready]
      exact ⟨[], (List.append_nil _).symm, fun _ => Message.blank_new _, .inl rfl⟩

/-- **The messages of a run** come from different buffers, which hold them. -/
theorem consumeAll_completed (hm : s.incomming.Blank) (hin : ∀ b ∈ buffers, b.length < 2 ^ 31) :
    ∃ ms used, (s.consumeAll bodyConsume buffers).1.completed = s.completed ++ ms ∧
      List.Sublist used buffers ∧ List.Forall₂ (fun (m : Message) b => 0 ≤ m.length ∧
        m.length + cqlHeaderSize ≤ b.length) ms used := by
  induction buffers generalizing s with
  | nil => exact ⟨[], [], (List.append_nil _).symm, .slnil, .nil⟩
  | cons buf buffers ih =>
    obtain ⟨ms, hms, hblank, hone⟩ := consumeBuffer_completed bodyConsume hm
      (hin buf (List.mem_cons_self ..))
    rw [consumeAll]
    rcases hbuf : s.consumeBuffer bodyConsume buf with ⟨s₁, _ | e⟩
    · rw [hbuf] at hms hblank
      obtain ⟨ms', used, hms', hsub, hall⟩ := ih (hblank rfl)
        fun b hb => hin b (List.mem_cons_of_mem _ hb)
      simp only at hms ⊢
      rcases hone with rfl | ⟨m, rfl, hlen⟩
      · refine ⟨ms', used, ?_, hsub.cons buf, hall⟩
        rw [hms', hms, List.append_nil]
      · refine ⟨m :: ms', buf :: used, ?_, hsub.cons_cons buf, .cons hlen hall⟩
        rw [hms', hms, List.append_assoc]
        rfl
    · rw [hbuf] at hms
      simp only at hms ⊢
      rcases hone with rfl | ⟨m, rfl, hlen⟩
      · exact ⟨[], [], hms, List.nil_sublist _, .nil⟩
      · exact ⟨[m], [buf], hms, (List.nil_sublist buffers).cons_cons buf, .cons hlen .nil⟩

/-- Frames in buffers of their own are all completed. -/
theorem consumeAll_frames {frames : List Frame} (hm : s.incomming.Blank)
    (hbody : ∀ f ∈ frames, ∀ buffer b, buffer.length = f.body.length →
      allocateBody f.opcode = .ok (some b) → ∃ r, bodyConsume buffer b = .ok r)
    (hbuffers : buffers.filter (fun b => !b.isEmpty) = frames.map Frame.bytes) :
    ∃ ms, (s.consumeAll bodyConsume buffers).1.completed = s.completed ++ ms ∧
      List.Forall₂ Carries frames ms := by
  induction buffers generalizing s frames with
  | nil =>
    rw [List.filter_nil, eq_comm, List.map_eq_nil_iff] at hbuffers
    subst hbuffers
    exact ⟨[], (List.append_nil _).symm, .nil⟩
  | cons buf buffers ih =>
    rcases buf with _ | ⟨byte, buf⟩
    · obtain ⟨m', hc, hblank⟩ := hm.nil bodyConsume
      have hready := (hblank (ReadLoop.readyFrame [] (by decide))).ready
      have hempty : s.consumeBuffer bodyConsume [] = ({ s with incomming := m' }, none) := by
        simp only [consumeBuffer, hc, hready, ne_eq, not_true_eq_false, Bool.false_eq_true,
          if_false]
      rw [consumeAll, hempty]
      exact ih (s := { s with incomming := m' }) hblank hbody hbuffers
    · rw [List.filter_cons_of_pos (by simp)] at hbuffers
      rcases frames with _ | ⟨f, frames⟩
      · cases hbuffers
      rw [List.map_cons, List.cons.injEq] at hbuffers
      obtain ⟨hbytes, hrest⟩ := hbuffers
      have hfits := f.fits
      have hsize : f.size = f.body.length + cqlHeaderSize := rfl
      obtain ⟨m', hc, hready, hcarries⟩ := hm.frame bodyConsume (f := f) (by omega)
        (hbody f (List.mem_cons_self ..))
      have hne : ((f.size : ℕ) : ℤ) ≠ 0 := by
        simp only [cqlHeaderSize] at hsize
        omega
      have hbuf : s.consumeBuffer bodyConsume (byte :: buf) =
          ({ incomming := Message.new m'.heap, completed := s.completed ++ [m'] }, none) := by
        simp only [consumeBuffer, hbytes, hc, hready, if_true, if_pos hne]
      obtain ⟨ms, hms, hall⟩ := ih (s := ⟨Message.new m'.heap, s.completed ++ [m']⟩)
        (Message.blank_new _) (fun g hg => hbody g (List.mem_cons_of_mem f hg)) hrest
      refine ⟨m' :: ms, ?_, .cons hcarries hall⟩
      rw [consumeAll, hbuf]
      simp only
      rw [hms, List.append_assoc]
      rfl

/-- **The two parsers agree exactly when every buffer is one frame**, or empty. -/
theorem agrees_iff (bodyConsume : List UInt8 → Body → Except Crash (Body × Bool))
    (h : Handlers S) (heap heap' : Memory) (conn : S) (frames : List Frame)
    (buffers : List (List UInt8)) (hcat : buffers.flatten = frames.flatMap Frame.bytes)
    (hnet : ReadLoop.Network bodyConsume h frames buffers) :
    (({ incomming := Message.new heap } : ServerConnection).consumeAll
        bodyConsume buffers).1.completed.map Message.header =
      (({ incomming := Message.new heap', conn } : ReadLoop S).consumeAll
        bodyConsume h buffers).1.dispatched.map Message.header ↔
    buffers.filter (fun b => !b.isEmpty) = frames.map Frame.bytes := by
  have hclient := dispatched_header bodyConsume h heap' conn hcat hnet
  have hin : ∀ b ∈ buffers, b.length < 2 ^ 31 := by
    intro b hb
    rcases frames with _ | ⟨f, frames⟩
    · have hnil : b = [] := by
        rw [List.flatMap_nil, List.flatten_eq_nil_iff] at hcat
        exact hcat b hb
      rw [hnil]
      exact Nat.two_pow_pos 31
    · have := hnet.sums f (List.mem_cons_self ..) b hb
      omega
  rw [hclient]
  constructor
  · intro heq
    obtain ⟨ms, used, hms, hsub, hall⟩ := consumeAll_completed bodyConsume
      (s := { incomming := Message.new heap }) (Message.blank_new heap) hin
    rw [hms, List.nil_append] at heq
    have hused := holds_of_headers heq hall
    have hfilter := filter_eq_of_sublist hsub (nonempty_of_holds hused)
      (by rw [hcat]; exact length_flatten_of_holds hused)
    have hflatten : used.flatten = buffers.flatten := by
      rw [← hfilter]
      exact List.flatten_filter_not_isEmpty
    rw [hfilter]
    exact eq_of_holds hused (hflatten.trans hcat)
  · intro hbuffers
    obtain ⟨ms, hms, hall⟩ := consumeAll_frames bodyConsume (s := { incomming := Message.new heap })
      (Message.blank_new heap) (fun f hf => (hnet.served f hf).body) hbuffers
    rw [hms, List.nil_append]
    exact headers_of_carries hall

/-- A READY frame in one buffer, behind an empty one. -/
theorem agrees_ready :
    (({ incomming := Message.new fun _ => 0 } : ServerConnection).consumeAll Body.consume
        [[], [0x82, 0, 1, 2, 0, 0, 0, 0]]).1.completed.map Message.header =
      (({ incomming := Message.new fun _ => 0, conn := () } : ReadLoop Unit).consumeAll
        Body.consume ReadLoop.idle [[], [0x82, 0, 1, 2, 0, 0, 0, 0]]).1.dispatched.map
          Message.header :=
  (agrees_iff Body.consume ReadLoop.idle (fun _ => 0) (fun _ => 0) ()
    [ReadLoop.readyFrame [] (by decide)] [[], [0x82, 0, 1, 2, 0, 0, 0, 0]] (by decide)
    { served := by
        simp only [List.mem_cons, List.not_mem_nil, or_false, forall_eq]
        exact ReadLoop.served_readyFrame _ _
      sums := by decide }).2 (by decide)

/-- The same frame in two buffers: the server drops the first part, and the rest. -/
theorem not_agrees_split :
    (({ incomming := Message.new fun _ => 0 } : ServerConnection).consumeAll Body.consume
        [[0x82, 0, 1], [2, 0, 0, 0, 0]]).1.completed.map Message.header ≠
      (({ incomming := Message.new fun _ => 0, conn := () } : ReadLoop Unit).consumeAll
        Body.consume ReadLoop.idle [[0x82, 0, 1], [2, 0, 0, 0, 0]]).1.dispatched.map
          Message.header := by
  decide

end ServerConnection

end CqlClient
