/-
  CqlClient formalization — a paging state, from a result to the query that sends it back.

  A ROWS result has its paging state as a long string, which `parse_metadata` reads
  (`consume_token`).  `BodyQuery::prepare` writes a string, whose length has two bytes and not
  four: the section is another one, and no `decode_long_string` that finds the token in it
  stops where it ends (`token_lost`).
-/
import CqlClient.Metadata

namespace CqlClient

open Word Wire

/-! ## The result -/

/-- The paging state of the metadata, as it is sent. -/
def ResultMetadata.pagingSection (m : ResultMetadata) : List UInt8 :=
  m.pageState.elim [] wireLongString

/-- The bytes at `page_state`. -/
def BodyResult.pageText (mem : List UInt8) (b : BodyResult) : List UInt8 :=
  b.pageState.elim [] fun p => (CharPtr.inBody p).bytes mem b.pageStateSize

variable {mem frame token cells : List UInt8} {m : ResultMetadata} {rowCount : ℕ} {pos : ℤ}

theorem BodyResult.pageText_of_denotes {b : BodyResult}
    (h : Denotes mem b.pageState b.pageStateSize (some token)) : b.pageText mem = token := by
  obtain ⟨pos, hpos, hsize, htext⟩ := h
  rw [pageText, hpos, hsize, Option.elim_some, htext.text]

/-- The token of a ROWS result. -/
theorem BodyResult.consume_token (hm : m.Fits) (htoken : m.pageState = some token)
    (hrows : rowCount < 2 ^ 31)
    (h : Contains mem 0 (MetadataBody.encode m (.rows rowCount cells))) :
    ∃ result, BodyResult.consume mem {} = .ok (result, true) ∧ result.morePages = true ∧
      result.pageText mem = token := by
  obtain ⟨result, -, hconsume, -, -, hsets, -⟩ := consume_rows hm hrows h
  have hstate := hsets.pageState
  rw [htoken] at hstate
  refine ⟨result, hconsume, ?_, pageText_of_denotes hstate⟩
  rw [hsets.morePages, htoken, Option.isSome_some]

/-! ## The query -/

namespace BodyQuery

/-- `paging_state` -/
def setPagingState (b : BodyQuery) (state : List UInt8) : BodyQuery :=
  { b with pagingState := state }

/-- The paging state, as `prepare` writes it. -/
def pagingSection (b : BodyQuery) : List UInt8 :=
  if b.pagingState.isEmpty then [] else encodeString b.pagingState

/-- How many bytes `prepare` writes before it. -/
def pagingOffset (b : BodyQuery) : ℕ :=
  (encodeLongString b.query).length + (encodeShort b.consistency).length + 1 +
  (if b.values.isEmpty then []
    else encodeShort (toInt16 b.values.length) ++ b.values.flatMap encodeLongString).length +
  (if b.pageSizeSet then encodeInt (toInt32 b.pageSize) else []).length

/-- `decode_long_string` reads the token from the section at `pos`, and stops at its end. -/
def DecodesAt (frame : List UInt8) (pos : ℤ) (token : List UInt8) (b : BodyQuery) : Prop :=
  ∃ text, decodeLongString frame pos 0 =
      .ok (text, token.length, pos + b.pagingSection.length) ∧ Contains frame text token

variable {b : BodyQuery}

theorem contains_pagingSection {flags : ℕ} (h : Contains frame pos (b.encode flags)) :
    Contains frame (pos + b.pagingOffset) b.pagingSection := by
  have hsection := h.left.right
  simp only [List.length_append] at hsection
  exact hsection

theorem pagingSection_of_ne_nil (hne : b.pagingState ≠ []) :
    b.pagingSection = encodeString b.pagingState := by
  rw [pagingSection, if_neg]
  simpa using hne

/-- A string that is read where the query has the token. -/
theorem decodeString_paging {flags : ℕ} (hne : b.pagingState ≠ [])
    (hlen : b.pagingState.length ≤ 65535) (h : Contains frame pos (b.encode flags)) :
    ∃ text, decodeString frame (pos + b.pagingOffset) 0 =
        .ok (text, b.pagingState.length, pos + b.pagingOffset + b.pagingSection.length) ∧
      Contains frame text b.pagingState := by
  have hsection := contains_pagingSection h
  rw [pagingSection_of_ne_nil hne] at hsection ⊢
  obtain ⟨hdec, htext⟩ := decodeString_contains hsection hlen
  exact ⟨_, hdec, htext⟩

theorem pagingSection_ne (hne : b.pagingState ≠ []) :
    b.pagingSection ≠ wireLongString b.pagingState := by
  intro heq
  have hlen := congrArg List.length heq
  rw [pagingSection_of_ne_nil hne, length_encodeString, length_wireLongString] at hlen
  omega

/-- A long string ends four bytes and its size behind where it starts. -/
theorem decodeLongString_end {p e : ℤ} {n : ℕ} (h : decodeLongString frame pos 0 = .ok (p, n, e)) :
    e = pos + 4 + n := by
  obtain ⟨⟨size, next⟩, hdec, hend⟩ := bind_eq_ok h
  obtain ⟨bytes, -, hnext⟩ := bind_eq_ok hdec
  obtain rfl := (Prod.mk.inj (Except.ok.inj hnext)).2
  obtain ⟨-, hend⟩ := Prod.mk.inj (Except.ok.inj hend)
  obtain ⟨rfl, rfl⟩ := Prod.mk.inj hend
  rfl

theorem not_decodesAt (hne : b.pagingState ≠ []) : ¬ b.DecodesAt frame pos b.pagingState := by
  rintro ⟨text, hdec, -⟩
  have hend := decodeLongString_end hdec
  rw [pagingSection_of_ne_nil hne, length_encodeString] at hend
  omega

/-- **A token** that a query sends back is in another section than the result had it in, and is
    not read from it, whatever the query and the result are besides. -/
theorem token_lost (hm : m.Fits) (htoken : m.pageState = some token) (hne : token ≠ [])
    (hrows : rowCount < 2 ^ 31)
    (h : Contains mem 0 (MetadataBody.encode m (.rows rowCount cells))) (q : BodyQuery) :
    ∃ result sent, BodyResult.consume mem {} = .ok (result, true) ∧ result.morePages = true ∧
      result.pageText mem = token ∧ sent = q.setPagingState (result.pageText mem) ∧
      sent.pagingSection ≠ m.pagingSection ∧
      ∀ frame pos reserved size bytes, (sent.prepare reserved).output = some (size, bytes) →
        Contains frame pos bytes →
        Contains frame (pos + sent.pagingOffset) sent.pagingSection ∧
          ¬ sent.DecodesAt frame (pos + sent.pagingOffset) token := by
  obtain ⟨result, hconsume, hmore, htext⟩ := BodyResult.consume_token hm htoken hrows h
  refine ⟨result, q.setPagingState token, hconsume, hmore, htext, by rw [htext], ?_, ?_⟩
  · rw [ResultMetadata.pagingSection, htoken]
    exact pagingSection_ne (b := q.setPagingState token) hne
  · rintro frame pos reserved size bytes houtput hframe
    cases houtput
    exact ⟨contains_pagingSection hframe, not_decodesAt (b := q.setPagingState token) hne⟩

/-- A result whose token has one byte. -/
def onePage : ResultMetadata := ⟨some [7], none, .omitted 0⟩

theorem fits_onePage : onePage.Fits := by
  constructor <;> simp [onePage, Columns.count, Columns.list]

theorem token_lost_onePage : ∃ result sent,
    BodyResult.consume (MetadataBody.encode onePage (.rows 0 [])) {} = .ok (result, true) ∧
      result.morePages = true ∧
      result.pageText (MetadataBody.encode onePage (.rows 0 [])) = [7] ∧
      sent = setPagingState {} (result.pageText (MetadataBody.encode onePage (.rows 0 []))) ∧
      sent.pagingSection ≠ onePage.pagingSection ∧
      ∀ frame pos reserved size bytes, (sent.prepare reserved).output = some (size, bytes) →
        Contains frame pos bytes →
        Contains frame (pos + sent.pagingOffset) sent.pagingSection ∧
          ¬ sent.DecodesAt frame (pos + sent.pagingOffset) [7] :=
  token_lost fits_onePage rfl (List.cons_ne_nil 7 []) (Nat.two_pow_pos 31) (contains_self _) {}

/-- The token of one byte, sent back by an empty query. -/
theorem not_token_kept : ∃ result,
    BodyResult.consume (MetadataBody.encode onePage (.rows 0 [])) {} = .ok (result, true) ∧
      result.morePages = true ∧
      ¬ (setPagingState {} (result.pageText (MetadataBody.encode onePage
        (.rows 0 [])))).pagingSection = onePage.pagingSection := by
  obtain ⟨result, hconsume, hmore, htext⟩ := BodyResult.consume_token fits_onePage rfl
    (Nat.two_pow_pos 31) (contains_self (MetadataBody.encode onePage (.rows 0 [])))
  refine ⟨result, hconsume, hmore, ?_⟩
  rw [htext]
  exact pagingSection_ne (b := setPagingState {} [7]) (List.cons_ne_nil 7 [])

end BodyQuery

end CqlClient
