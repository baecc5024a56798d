/-
  CqlClient formalization — reassembly of one frame.

  A fresh message is fed the bytes of one frame in chunks.  The body comes out
  right, with every copy inside the body buffer, exactly when the chunk with the
  last header byte also has the frame's last byte: otherwise the body cursor is
  ahead from then on, and the last copy ends behind the buffer.
-/
import CqlClient.Framing

namespace CqlClient

open Wire

namespace Message

/-! ## Feeding chunks -/

section
variable (bodyConsume : List UInt8 → Body → Except Crash (Body × Bool))

/-- The chunks passed to `consume` one after another, up to a crash. -/
def feed (m : Message) : List (List UInt8) → Message × Except Crash Unit
  | [] => (m, .ok ())
  | chunk :: chunks =>
    match m.consume bodyConsume chunk with
    | (m, .error e) => (m, .error e)
    | (m, .ok _) => feed m chunks

theorem feed_append {m m' : Message} {chunks rest : List (List UInt8)}
    (h : m.feed bodyConsume chunks = (m', .ok ())) :
    m.feed bodyConsume (chunks ++ rest) = m'.feed bodyConsume rest := by
  induction chunks generalizing m with
  | nil =>
    cases h
    rfl
  | cons chunk chunks ih =>
    rw [feed] at h
    rw [List.cons_append, feed]
    rcases hc : m.consume bodyConsume chunk with ⟨m₁, e | c⟩
    · rw [hc] at h; cases h
    · rw [hc] at h
      exact ih h

/-- Chunks that end before the frame does. -/
theorem feed_partial {f : Frame} {n : ℕ} {m : Message} (chunks : List (List UInt8))
    (hm : Partial f n m) (hin : chunks.flatten <+: f.bytes.drop n)
    (hlt : n + chunks.flatten.length < f.size) :
    ∃ m', m.feed bodyConsume chunks = (m', .ok ()) ∧ Partial f (n + chunks.flatten.length) m' := by
  induction chunks generalizing n m with
  | nil => exact ⟨m, rfl, hm⟩
  | cons chunk chunks ih =>
    simp only [List.flatten_cons, List.length_append] at hin hlt ⊢
    obtain ⟨m₁, h₁, hm₁⟩ := consume_partial bodyConsume hm
      ((List.prefix_append chunk chunks.flatten).trans hin) (by omega)
    have hrest : chunks.flatten <+: f.bytes.drop (n + chunk.length) := by
      obtain ⟨t, ht⟩ := hin
      exact ⟨t, by rw [← List.drop_drop, ← ht, List.append_assoc, List.drop_left]⟩
    obtain ⟨m₂, h₂, hm₂⟩ := ih hm₁ hrest (by omega)
    refine ⟨m₂, ?_, by rwa [← Nat.add_assoc]⟩
    rw [feed, h₁]
    exact h₂

/-! ## Reassembly -/

/-- The frame `f`, fed in `chunks` to a fresh message, is reassembled: the body
    is ready with the last chunk and not before, unless `body->consume` does not
    return; the body buffer then holds the body, and every copy was inside it. -/
structure Reassembles (heap : Memory) (f : Frame) (chunks : List (List UInt8)) : Prop where
  early : ∀ k < chunks.length,
    ((new heap).feed bodyConsume (chunks.take k)).1.bodyReady = false
  ready : ((new heap).feed bodyConsume chunks).1.bodyReady = true ∨
    ∃ b e, allocateBody f.opcode = .ok (some b) ∧ bodyConsume f.body b = .error e
  buffer : ((new heap).feed bodyConsume chunks).1.bodyBuffer.take f.body.length = f.body
  copies : ∀ c ∈ ((new heap).feed bodyConsume chunks).1.copies,
    c.target = .body → c.pos + c.bytes.length ≤ f.body.length

/-- Decoding the body touches neither the buffer nor the record of copies. -/
theorem decodeBody_frame (m : Message) (taken : ℤ) :
    (m.decodeBody bodyConsume taken).1.bodyBuffer = m.bodyBuffer ∧
      (m.decodeBody bodyConsume taken).1.copies = m.copies := by
  unfold decodeBody
  split
  · exact ⟨rfl, rfl⟩
  · split <;> exact ⟨rfl, rfl⟩

/-- Decoding the body makes the message ready, unless `body->consume` does not
    return. -/
theorem decodeBody_ready {f : Frame} {m : Message} (hm : HasHeader f m) (taken : ℤ)
    (hbuf : m.bodyBuffer.take f.body.length = f.body) :
    (m.decodeBody bodyConsume taken).1.bodyReady = true ∨
      ∃ b e, allocateBody f.opcode = .ok (some b) ∧ bodyConsume f.body b = .error e := by
  obtain ⟨b, hb⟩ := allocateBody_ok f.supported
  have hmb : m.body = some b := by
    have h := hm.body
    rw [hb] at h
    exact (Except.ok.inj h).symm
  unfold decodeBody
  rw [hmb]
  simp only [hm.length, Int.toNat_natCast, hbuf]
  rcases h : bodyConsume f.body b with e | ⟨b', ok⟩
  · exact .inr ⟨b, e, hb, h⟩
  · exact .inl rfl

/-- The message before the last chunk, and the call that takes it. -/
theorem feed_split (heap : Memory) {f : Frame} {init : List (List UInt8)} {last : List UInt8}
    (hlast : last ≠ []) (hfl : init.flatten ++ last = f.bytes) :
    ∃ m, Partial f init.flatten.length m ∧ f.bytes.drop init.flatten.length = last ∧
      init.flatten.length + last.length = f.size ∧
      (new heap).feed bodyConsume (init ++ [last]) = m.feed bodyConsume [last] := by
  have hsize : init.flatten.length + last.length = f.size := by
    rw [← List.length_append, hfl, f.length_bytes]
  have hpos := List.length_pos_iff.2 hlast
  obtain ⟨m, hm, hp⟩ := feed_partial bodyConsume init (partial_new f heap)
    ⟨last, by simpa using hfl⟩ (by omega)
  rw [Nat.zero_add] at hp
  exact ⟨m, hp, by rw [← hfl, List.drop_left], hsize, feed_append bodyConsume hm⟩

/-- Feeding the last chunk. -/
theorem feed_singleton_fst (m : Message) (chunk : List UInt8) :
    (m.feed bodyConsume [chunk]).1 = (m.consume bodyConsume chunk).1 := by
  rw [feed]
  rcases m.consume bodyConsume chunk with ⟨m', e | c⟩ <;> rfl

/-- **Exactly when reassembly works**: when the chunks before the last one hold
    less than a header. -/
theorem reassembles_iff (heap : Memory) (f : Frame) (chunks : List (List UInt8))
    (hne : ∀ c ∈ chunks, c ≠ []) (hfl : chunks.flatten = f.bytes) :
    Reassembles bodyConsume heap f chunks ↔
      chunks.dropLast.flatten.length < cqlHeaderSize := by
  have hnil : chunks ≠ [] := by
    rintro rfl
    have := congrArg List.length hfl
    simp [Frame.size, cqlHeaderSize] at this
  obtain ⟨init, last, rfl⟩ : ∃ init last, chunks = init ++ [last] :=
    ⟨_, _, (List.dropLast_append_getLast hnil).symm⟩
  have hlast := hne last (by simp)
  have hfl' : init.flatten ++ last = f.bytes := by simpa using hfl
  obtain ⟨m, hp, hdrop, hsize, hfeed⟩ := feed_split bodyConsume heap hlast hfl'
  have hfits := f.fits
  have hsz : f.size = f.body.length + cqlHeaderSize := rfl
  obtain ⟨m', hc, hhdr, -, -, hshort, hlong⟩ :=
    consume_complete bodyConsume hp (by rw [hdrop]) (by omega)
  have hend : ((new heap).feed bodyConsume (init ++ [last])).1 =
      (m'.decodeBody bodyConsume (f.size - init.flatten.length : ℕ)).1 := by
    rw [hfeed, feed_singleton_fst, hc]
  obtain ⟨hbuf, hcop⟩ := decodeBody_frame bodyConsume m' (f.size - init.flatten.length : ℕ)
  rw [List.dropLast_concat]
  constructor
  · intro h
    by_contra hn
    obtain ⟨c, hmem, htgt, -, hout⟩ := hlong (by omega)
    have := h.copies c (by rw [hend, hcop]; exact hmem) htgt
    omega
  · intro hn
    obtain ⟨hbody, hin⟩ := hshort hn
    refine ⟨fun k hk => ?_, ?_, ?_, ?_⟩
    · rw [List.length_append, List.length_singleton] at hk
      have hk' : (init ++ [last]).take k = init.take k :=
        List.take_append_of_le_length (by omega)
      have hpre : (init.take k).flatten ++ ((init.drop k).flatten ++ last) = f.bytes := by
        rw [← List.append_assoc, ← List.flatten_append, List.take_append_drop, hfl']
      have hlen := congrArg List.length hpre
      have hpos := List.length_pos_iff.2 hlast
      simp only [List.length_append, Frame.length_bytes] at hlen
      obtain ⟨m₁, h₁, hp₁⟩ := feed_partial bodyConsume (init.take k) (partial_new f heap)
        ⟨_, by simpa using hpre⟩ (by omega)
      rw [hk', h₁]
      exact hp₁.ready
    · rw [hend]
      exact decodeBody_ready bodyConsume hhdr _ hbody
    · rw [hend, hbuf]
      exact hbody
    · rw [hend, hcop]
      exact hin

end

/-- An ERROR frame: code 256 and the message `no`. -/
def errorFrame : Frame where
  version := 0x82
  flags := 0
  stream := 0
  opcode := cqlOpcodeError
  body := [0, 0, 1, 0, 0, 2, 110, 111]
  supported := rfl
  fits := by decide

/-- Cut inside the header, the frame is reassembled. -/
theorem reassembles_header_split :
    Reassembles Body.consume (fun _ => 0) errorFrame
      [errorFrame.bytes.take 5, errorFrame.bytes.drop 5] :=
  (reassembles_iff Body.consume (fun _ => 0) errorFrame _ (by decide) (by decide)).2 (by decide)

/-- Cut behind the first body byte, it is not: the other seven body bytes are
    copied to position 9 of the eight bytes of the body buffer. -/
theorem not_reassembles_body_split :
    ¬ Reassembles Body.consume (fun _ => 0) errorFrame
      [errorFrame.bytes.take 9, errorFrame.bytes.drop 9] := by
  intro h
  have hout := h.copies ⟨.body, 9, [0, 1, 0, 0, 2, 110, 111]⟩ (by decide) rfl
  revert hout
  decide

end Message

end CqlClient
