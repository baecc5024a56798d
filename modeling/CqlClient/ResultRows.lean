/-
  CqlClient formalization — the rows of a RESULT, cell by cell.

  A cell that is not NULL is published as it is, and the next one is read behind it.  A
  NULL cell has the size -1, by which `parse_row` moves too: what is left of the row is
  read too early, and no other cell of it is found (`parseRow_behind`).  So a row is read
  right only if it has no NULL cell (`row_iff`), and an iterator over rows without them
  holds each in turn (`rows_exact`).
-/
import CqlClient.BoundsRows
import CqlClient.Metadata

namespace CqlClient

open Word Wire

/-- A cell; `none` is NULL. -/
abbrev Cell := Option (List UInt8)

namespace Cell

/-- A size, which is -1 for NULL, and the bytes. -/
def encode : Cell → List UInt8
  | none => List.replicate 4 255
  | some text => wireLongString text

def size (c : Cell) : ℕ := c.elim 0 List.length

def Fits (c : Cell) : Prop := ∀ text ∈ c, text.length < 2 ^ 31

/-- The pair is that of the cell; `mark` says which pairs stand for NULL. -/
def Reported (mem : List UInt8) (mark : ℤ × ℕ → Prop) : Cell → ℤ × ℕ → Prop
  | none, pair => mark pair
  | some text, pair => pair.2 = text.length ∧ Contains mem pair.1 text

end Cell

def encodeRow (cells : List Cell) : List UInt8 := cells.flatMap Cell.encode

theorem length_encodeRow (cells : List Cell) :
    (encodeRow cells).length = 4 * cells.length + (cells.map Cell.size).sum := by
  induction cells with
  | nil => rfl
  | cons c cells ih =>
    have hcell : c.encode.length = 4 + c.size := by
      cases c with
      | none => rfl
      | some text => exact length_wireLongString text
    rw [encodeRow, List.flatMap_cons, List.length_append, hcell, ← encodeRow, ih, List.map_cons,
      List.sum_cons, List.length_cons]
    ring

variable {mem : List UInt8} {pos : ℤ} {cells : List Cell} {mark : ℤ × ℕ → Prop}

/-! ## One row -/

/-- The published pairs are put behind the ones that are there. -/
theorem parseRow_append (n : ℕ) (p : Option ℤ) (output : List (ℤ × ℕ)) :
    parseRow mem n p output = do
      let (row, p) ← parseRow mem n p []
      return (output ++ row, p) := by
  induction n generalizing p output with
  | zero => simp [parseRow]
  | succ n ih =>
    rw [parseRow, parseRow, bind_assoc]
    refine bind_congr ?_
    rintro ⟨size, buffer⟩
    simp only
    rw [ih, ih _ ([] ++ _), bind_assoc]
    simp

/-- The first cell of a row. -/
theorem parseRow_succ {n : ℕ} {size : ℤ} (h : decodeInt mem pos = .ok (size, pos + 4))
    {row : List (ℤ × ℕ)} {p : Option ℤ} :
    parseRow mem (n + 1) (some pos) [] = .ok (row, p) ↔
      ∃ row', row = (pos + 4, toSizeT size) :: row' ∧
        parseRow mem n (some (pos + 4 + size)) [] = .ok (row', p) := by
  rw [parseRow, decodeIntPtr, h, ok_bind]
  simp only
  rw [parseRow_append, List.nil_append]
  rcases parseRow mem n (some (pos + 4 + size)) [] with e | ⟨row', p'⟩
  · constructor
    · intro hrow
      cases hrow
    · rintro ⟨row', -, hrow⟩
      cases hrow
  · rw [ok_bind]
    constructor
    · intro hrow
      cases hrow
      exact ⟨row', rfl, rfl⟩
    · rintro ⟨row', rfl, hrow⟩
      cases hrow
      rfl

theorem decodeInt_bytes {bytes : List UInt8} (h : Contains mem pos bytes)
    (hlen : bytes.length = 4) :
    decodeInt mem pos = .ok (toInt32 (ofBigEndian bytes), pos + 4) := by
  have hread := h.read
  rw [hlen] at hread
  rw [decodeInt, hread]
  rfl

/-- A size whose first byte is 255 is negative. -/
theorem decodeInt_high {bytes : List UInt8} (h : Contains mem pos (255 :: bytes))
    (hlen : bytes.length = 3) :
    ∃ size, decodeInt mem pos = .ok (size, pos + 4) ∧ -2 ^ 31 ≤ size ∧ size < 0 := by
  have hlt := ofBigEndian_lt bytes
  rw [hlen] at hlt
  have hvalue : ofBigEndian (255 :: bytes) = 255 * 256 ^ 3 + ofBigEndian bytes := by
    rw [ofBigEndian, hlen]
    rfl
  refine ⟨(ofBigEndian (255 :: bytes) : ℕ) - 2 ^ 32, ?_, by omega, by omega⟩
  rw [decodeInt_bytes h (by rw [List.length_cons, hlen])]
  rw [toInt32_unique (y := (ofBigEndian (255 :: bytes) : ℕ) - 2 ^ 32) (k := 1) (by ring)
    (by omega) (by omega)]

theorem decodeInt_null (h : Contains mem pos (Cell.encode none)) :
    decodeInt mem pos = .ok (-1, pos + 4) := by
  have hvalue : ofBigEndian (Cell.encode none) = 2 ^ 32 - 1 := by decide
  rw [decodeInt_bytes h rfl, hvalue, toInt32_unique (y := -1) (k := 1) (by norm_num)
    (by norm_num) (by norm_num)]

/-- Read too early by `j` bytes, the row ends too early, or a cell is not found. -/
theorem parseRow_behind {j : ℕ} (hj : 0 < j) {row : List (ℤ × ℕ)} {p : ℤ}
    (hfits : ∀ c ∈ cells, c.Fits)
    (h : Contains mem (pos - j) (List.replicate j 255 ++ encodeRow cells))
    (hrow : parseRow mem cells.length (some (pos - j)) [] = .ok (row, some p))
    (hfound : List.Forall₂ (Cell.Reported mem mark) cells row) :
    p < pos + (encodeRow cells).length := by
  induction cells generalizing j pos row with
  | nil =>
    cases hrow
    rw [encodeRow, List.flatMap_nil, List.length_nil]
    omega
  | cons c cells ih =>
    rw [encodeRow, List.flatMap_cons, ← encodeRow] at h ⊢
    obtain ⟨i, rfl⟩ := Nat.exists_eq_add_one.2 hj
    cases c with
    | none =>
      -- the four bytes that are read are all 255, and the next cell is read one more too early
      have hbytes : List.replicate (i + 1) (255 : UInt8) ++ (Cell.encode none ++ encodeRow cells) =
          Cell.encode none ++ (List.replicate (i + 1) 255 ++ encodeRow cells) := by
        simp only [Cell.encode, ← List.append_assoc, List.replicate_append_replicate]
        rw [Nat.add_comm]
      have hbytes' : Cell.encode none ++ (List.replicate (i + 1) 255 ++ encodeRow cells) =
          List.replicate 3 255 ++ (List.replicate (i + 2) 255 ++ encodeRow cells) := by
        simp only [Cell.encode, ← List.append_assoc, List.replicate_append_replicate]
        rw [show 4 + (i + 1) = 3 + (i + 2) by omega]
      rw [hbytes] at h
      obtain ⟨row', rfl, hrow'⟩ := (parseRow_succ (decodeInt_null h.left)).1 hrow
      obtain ⟨-, hfound'⟩ := List.forall₂_cons.1 hfound
      rw [hbytes'] at h
      have hpos : pos - ((i + 1 : ℕ) : ℤ) + (List.replicate 3 (255 : UInt8)).length =
          pos + 4 - ((i + 2 : ℕ) : ℤ) := by
        rw [List.length_replicate]
        omega
      have hpos' : pos - ((i + 1 : ℕ) : ℤ) + 4 + -1 = pos + 4 - ((i + 2 : ℕ) : ℤ) := by omega
      have hnext := h.right
      rw [hpos] at hnext
      rw [hpos'] at hrow'
      have hlt := ih (Nat.succ_pos (i + 1)) (fun c hc => hfits c (List.mem_cons_of_mem _ hc)) hnext
        hrow' hfound'
      rw [List.length_append, Cell.encode, List.length_replicate]
      omega
    | some text =>
      -- the size that is read is negative, and the one that is published is not the cell's
      have htext : text.length < 2 ^ 31 := hfits (some text) List.mem_cons_self text rfl
      rw [List.replicate_succ, List.cons_append] at h
      generalize htail : List.replicate i 255 ++ (Cell.encode (some text) ++ encodeRow cells) =
        tail at h
      have hlen : 3 ≤ tail.length := by
        rw [← htail, List.length_append, List.length_append, Cell.encode, length_wireLongString]
        omega
      rw [← List.take_append_drop 3 tail, ← List.cons_append] at h
      obtain ⟨size, hdec, hmin, hneg⟩ := decodeInt_high h.left (by simpa using hlen)
      obtain ⟨row', rfl, -⟩ := (parseRow_succ hdec).1 hrow
      obtain ⟨⟨hsize, -⟩, -⟩ := List.forall₂_cons.1 hfound
      simp only [toSizeT] at hsize
      omega

/-- A row without NULL cells. -/
theorem parseRow_full (mark : ℤ × ℕ → Prop) (hfits : ∀ c ∈ cells, c.Fits)
    (hfull : ∀ c ∈ cells, c ≠ none)
    (h : Contains mem pos (encodeRow cells)) :
    ∃ row, parseRow mem cells.length (some pos) [] =
        .ok (row, some (pos + (encodeRow cells).length)) ∧
      List.Forall₂ (Cell.Reported mem mark) cells row := by
  induction cells generalizing pos with
  | nil =>
    refine ⟨[], ?_, .nil⟩
    simp [parseRow, encodeRow]
    rfl
  | cons c cells ih =>
    cases c with
    | none => exact absurd rfl (hfull none List.mem_cons_self)
    | some text =>
      rw [encodeRow, List.flatMap_cons, ← encodeRow] at h ⊢
      have htext : text.length < 2 ^ 31 := hfits (some text) List.mem_cons_self text rfl
      have hdec := decodeInt_nat h.left.left htext
      have hbytes := h.left.right
      obtain ⟨row, hrow, hfound⟩ := ih (fun c hc => hfits c (List.mem_cons_of_mem _ hc))
        (fun c hc => hfull c (List.mem_cons_of_mem _ hc)) h.right
      rw [length_bigEndian] at hbytes
      refine ⟨(pos + 4, text.length) :: row, ?_, .cons ⟨rfl, hbytes⟩ hfound⟩
      refine (parseRow_succ hdec).2 ⟨row, ?_, ?_⟩
      · rw [toSizeT_natCast (by omega)]
      · rw [Cell.encode, length_wireLongString, Nat.cast_add, Nat.cast_ofNat,
          ← Int.add_assoc] at hrow
        rw [hrow, Cell.encode, List.length_append, length_wireLongString, Nat.cast_add,
          Nat.cast_add, Nat.cast_ofNat, ← Int.add_assoc, ← Int.add_assoc]

/-- What a row is read as if it has a NULL cell. -/
theorem parseRow_null {row : List (ℤ × ℕ)} (hfits : ∀ c ∈ cells, c.Fits)
    (h : Contains mem pos (encodeRow cells))
    (hrow : parseRow mem cells.length (some pos) [] =
      .ok (row, some (pos + (encodeRow cells).length)))
    (hfound : List.Forall₂ (Cell.Reported mem mark) cells row) : ∀ c ∈ cells, c ≠ none := by
  induction cells generalizing pos row with
  | nil => exact List.forall_mem_nil _
  | cons c cells ih =>
    have hfits' : ∀ c ∈ cells, c.Fits := fun c hc => hfits c (List.mem_cons_of_mem _ hc)
    rw [encodeRow, List.flatMap_cons, ← encodeRow] at h hrow
    cases c with
    | none =>
      obtain ⟨row', rfl, hrow'⟩ := (parseRow_succ (decodeInt_null h.left)).1 hrow
      obtain ⟨-, hfound'⟩ := List.forall₂_cons.1 hfound
      rw [show Cell.encode none = List.replicate 3 255 ++ List.replicate 1 255 from rfl,
        List.append_assoc] at h
      have hbehind := h.right
      rw [List.length_replicate] at hbehind
      have hpos : pos + ((3 : ℕ) : ℤ) = pos + 4 - ((1 : ℕ) : ℤ) := by omega
      have hpos' : pos + 4 + -1 = pos + 4 - ((1 : ℕ) : ℤ) := by omega
      rw [hpos] at hbehind
      rw [hpos'] at hrow'
      have hlt := parseRow_behind Nat.one_pos hfits' hbehind hrow' hfound'
      rw [List.length_append, Cell.encode, List.length_replicate] at hlt
      omega
    | some text =>
      have htext : text.length < 2 ^ 31 := hfits (some text) List.mem_cons_self text rfl
      obtain ⟨row', rfl, hrow'⟩ := (parseRow_succ (decodeInt_nat h.left.left htext)).1 hrow
      obtain ⟨-, hfound'⟩ := List.forall₂_cons.1 hfound
      have hlen : pos + 4 + (text.length : ℤ) = pos + (Cell.encode (some text)).length := by
        rw [Cell.encode, length_wireLongString]
        omega
      rw [hlen, List.length_append, Nat.cast_add, ← Int.add_assoc] at hrow'
      refine List.forall_mem_cons.2 ⟨Option.some_ne_none text, ?_⟩
      exact ih hfits' h.right hrow' hfound'

/-- `parse_row` reports the cells, and returns where the row ends. -/
def BodyResult.RowRead (mem : List UInt8) (mark : ℤ × ℕ → Prop) (pos : ℤ) (cells : List Cell)
    (result : BodyResult) : Prop :=
  ∃ row, parseRow mem result.columnCount.toNat (some pos) [] =
      .ok (row, some (pos + (4 * result.columnCount + (cells.map Cell.size).sum))) ∧
    List.Forall₂ (Cell.Reported mem mark) cells row

/-- **A row** is read just if it has no NULL cell, whatever pairs stand for NULL. -/
theorem BodyResult.row_iff {result : BodyResult} (hcount : result.columnCount = cells.length)
    (hfits : ∀ c ∈ cells, c.Fits) (h : Contains mem pos (encodeRow cells)) :
    result.RowRead mem mark pos cells ↔ ∀ c ∈ cells, c ≠ none := by
  have hend : pos + (4 * result.columnCount + (cells.map Cell.size).sum) =
      pos + (encodeRow cells).length := by
    rw [length_encodeRow, hcount]
    push_cast
    rfl
  rw [RowRead, hend, hcount, Int.toNat_natCast]
  constructor
  · rintro ⟨row, hrow, hfound⟩
    exact parseRow_null hfits h hrow hfound
  · intro hfull
    exact parseRow_full mark hfits hfull h

theorem BodyResult.row_two : ({ columnCount := 2 } : BodyResult).RowRead
    (encodeRow [some [7], some []]) (fun _ => False) 0 [some [7], some []] :=
  (row_iff rfl (by simp [Cell.Fits]) (contains_self _)).2 (by simp)

/-- A row of a NULL cell is said to end a byte too early. -/
theorem BodyResult.not_row_null : ¬ ({ columnCount := 1 } : BodyResult).RowRead
    (encodeRow [none]) (fun _ => True) 0 [none] := by
  rintro ⟨row, hrow, hfound⟩
  have hfull := parseRow_null (by simp [Cell.Fits]) (contains_self _) hrow hfound
  exact hfull none List.mem_cons_self rfl

/-! ## The rows of an iterator -/

/-- The result has the rows, and they are encoded from `pos` on. -/
structure BodyResult.HasRows (mem : List UInt8) (pos : ℤ) (rows : List (List Cell))
    (b : BodyResult) : Prop where
  rowCount : b.rowCount = rows.length
  columnCount : ∀ row ∈ rows, b.columnCount = row.length
  start : b.rows = some pos
  encoded : Contains mem pos (rows.flatMap encodeRow)
  fits : ∀ row ∈ rows, ∀ c ∈ row, c.Fits
  full : ∀ row ∈ rows, ∀ c ∈ row, c ≠ none

/-- The iterator holds row `k`, which is followed by those that are left. -/
structure ResultIterator.HoldsRow (mem : List UInt8) (b : BodyResult) (pos : ℤ)
    (rows : List (List Cell)) (k : ℕ) (it : ResultIterator) : Prop where
  result : it.result = b
  row : ∀ row, rows[k]? = some row → List.Forall₂ (Cell.Reported mem fun _ => False) row it.row
  positionNext : it.positionNext = some (pos + ((rows.take (k + 1)).flatMap encodeRow).length)

section
variable {b : BodyResult} {rows : List (List Cell)} {it : ResultIterator} {k : ℕ}

/-- The row behind the first `k`. -/
theorem BodyResult.HasRows.row (h : b.HasRows mem pos rows) (hk : k < rows.length) :
    ∃ row, parseRow mem b.columnCount.toNat
        (some (pos + ((rows.take k).flatMap encodeRow).length)) [] =
        .ok (row, some (pos + ((rows.take (k + 1)).flatMap encodeRow).length)) ∧
      ∀ cells, rows[k]? = some cells →
        List.Forall₂ (Cell.Reported mem fun _ => False) cells row := by
  have hrow := List.getElem_mem hk
  have hencoded := h.encoded
  rw [← List.take_append_drop k rows, List.drop_eq_getElem_cons hk, List.flatMap_append,
    List.flatMap_cons] at hencoded
  obtain ⟨row, hparse, hfound⟩ := parseRow_full (fun _ => False)
    (h.fits _ hrow) (h.full _ hrow) hencoded.right.left
  refine ⟨row, ?_, ?_⟩
  · rw [h.columnCount _ hrow, Int.toNat_natCast, hparse, List.take_succ_eq_append_getElem hk,
      List.flatMap_append, List.length_append, List.flatMap_singleton, Nat.cast_add, Int.add_assoc]
  · intro cells hcells
    rw [List.getElem?_eq_getElem hk, Option.some.injEq] at hcells
    rwa [← hcells]

theorem ResultIterator.new_holds (h : b.HasRows mem pos rows) (hne : rows ≠ []) :
    ∃ it, ResultIterator.new mem b = .ok it ∧ it.HoldsRow mem b pos rows 0 ∧
      it.rowPosition = 0 := by
  obtain ⟨row, hparse, hfound⟩ := h.row (List.length_pos_iff.2 hne)
  have hcount := h.columnCount _ (List.head_mem hne)
  refine ⟨⟨b, 0, b.rows, _, row⟩, ?_, ⟨rfl, hfound, rfl⟩, rfl⟩
  rw [List.take_zero, List.flatMap_nil, List.length_nil, Nat.cast_zero, Int.add_zero] at hparse
  rw [ResultIterator.new, if_neg (by omega), h.start, hparse]
  rfl

/-- A call that finds one more row. -/
theorem ResultIterator.next_holds (h : b.HasRows mem pos rows) (hit : it.HoldsRow mem b pos rows k)
    (hk : k + 1 < rows.length) (hposition : toInt32 (it.rowPosition + 1) = (k + 1 : ℕ)) :
    ∃ it', it.next mem = .ok (it', true) ∧ it'.HoldsRow mem b pos rows (k + 1) ∧
      it'.rowPosition = (k + 1 : ℕ) := by
  obtain ⟨row, hparse, hfound⟩ := h.row hk
  refine ⟨{ it with rowPosition := (k + 1 : ℕ), positionNext := _, row }, ?_,
    ⟨hit.result, hfound, rfl⟩, rfl⟩
  rw [next_eq, hposition, hit.result, h.rowCount, if_neg (by omega), hit.positionNext, hparse]
  rfl

/-- A call behind the last row. -/
theorem ResultIterator.next_last (h : b.HasRows mem pos rows) (hit : it.HoldsRow mem b pos rows k)
    {position : ℤ} (hposition : toInt32 (it.rowPosition + 1) = position)
    (hlast : rows.length ≤ position) :
    it.next mem = .ok ({ it with rowPosition := position }, false) := by
  rw [next_eq, hposition, hit.result, h.rowCount, if_pos hlast]

/-- **The calls.**  The iterator holds each row in turn, and goes on holding the last. -/
theorem ResultIterator.calls_holds (h : b.HasRows mem pos rows) (hne : rows ≠ [])
    (hk : k < 2 ^ 31) :
    ∃ it, calls mem b k = .ok it ∧ it.HoldsRow mem b pos rows (min k (rows.length - 1)) ∧
      it.rowPosition = k := by
  have hpos := List.length_pos_iff.2 hne
  induction k with
  | zero =>
    rw [Nat.zero_min]
    exact new_holds h hne
  | succ k ih =>
    obtain ⟨it, hcalls, hit, hposition⟩ := ih (by omega)
    have hnext : toInt32 (it.rowPosition + 1) = (k + 1 : ℕ) := by
      rw [hposition, toInt32_eq (by omega) (by omega)]
      rfl
    rw [calls, hcalls, ok_bind]
    by_cases hmore : k + 1 < rows.length
    · rw [Nat.min_eq_left (by omega)] at hit ⊢
      obtain ⟨it', hcall, hit'⟩ := next_holds h hit hmore hnext
      rw [hcall]
      exact ⟨it', rfl, hit'⟩
    · rw [Nat.min_eq_right (by omega)] at hit ⊢
      rw [next_last h hit hnext (by omega)]
      exact ⟨_, rfl, ⟨hit.result, hit.row, hit.positionNext⟩, rfl⟩

/-- A ROWS result without NULL cells is consumed, and has its rows. -/
theorem BodyResult.consume_hasRows {m : ResultMetadata} (hm : m.Fits) (hlen : rows.length < 2 ^ 31)
    (hrows : ∀ row ∈ rows, row.length = m.columns.count) (hfits : ∀ row ∈ rows, ∀ c ∈ row, c.Fits)
    (hfull : ∀ row ∈ rows, ∀ c ∈ row, c ≠ none)
    (h : Contains mem 0 (MetadataBody.encode m (.rows rows.length (rows.flatMap encodeRow)))) :
    ∃ b, BodyResult.consume mem {} = .ok (b, true) ∧
      b.HasRows mem (0 + 4 + m.encode.length + 4) rows := by
  obtain ⟨b, metas, hconsume, hcount, hstart, hsets, -⟩ := consume_rows hm hlen h
  have hencoded := h.right.right.right
  simp only [length_bigEndian, Nat.cast_ofNat] at hencoded
  refine ⟨b, hconsume, hcount, ?_, hstart, hencoded, hfits, hfull⟩
  intro row hrow
  rw [hsets.columnCount, hrows row hrow]

/-- **The iteration.**  Call `k + 1` returns true just if there is a row `k + 1`; before it the
    iterator holds row `k`, and from the last row on nothing moves. -/
theorem ResultIterator.rows_exact {m : ResultMetadata} (hm : m.Fits) (hne : rows ≠ [])
    (hlen : rows.length < 2 ^ 31) (hrows : ∀ row ∈ rows, row.length = m.columns.count)
    (hfits : ∀ row ∈ rows, ∀ c ∈ row, c.Fits) (hfull : ∀ row ∈ rows, ∀ c ∈ row, c ≠ none)
    (h : Contains mem 0 (MetadataBody.encode m (.rows rows.length (rows.flatMap encodeRow)))) :
    ∃ b, BodyResult.consume mem {} = .ok (b, true) ∧ ∀ k, k + 1 < 2 ^ 31 →
      ∃ it it', calls mem b k = .ok it ∧
        it.next mem = .ok (it', decide (k + 1 < rows.length)) ∧
        (∀ row, rows[k]? = some row →
          List.Forall₂ (Cell.Reported mem fun _ => False) row it.row) ∧
        (rows.length ≤ k + 1 → it'.row = it.row ∧ it'.positionNext = it.positionNext ∧
          it.positionNext = some ((MetadataBody.encode m
            (.rows rows.length (rows.flatMap encodeRow))).length : ℤ)) := by
  obtain ⟨b, hconsume, hb⟩ := BodyResult.consume_hasRows hm hlen hrows hfits hfull h
  refine ⟨b, hconsume, ?_⟩
  intro k hk
  obtain ⟨it, hcalls, hit, hposition⟩ := calls_holds hb hne (k := k) (by omega)
  have hpos := List.length_pos_iff.2 hne
  have hnext : toInt32 (it.rowPosition + 1) = (k + 1 : ℕ) := by
    rw [hposition, toInt32_eq (by omega) (by omega)]
    rfl
  by_cases hmore : k + 1 < rows.length
  · rw [Nat.min_eq_left (by omega)] at hit
    obtain ⟨it', hcall, hit'⟩ := next_holds hb hit hmore hnext
    refine ⟨it, it', hcalls, ?_, hit.row, fun hlast => absurd hmore (by omega)⟩
    rw [hcall, decide_eq_true hmore]
  · rw [Nat.min_eq_right (by omega)] at hit
    refine ⟨it, { it with rowPosition := (k + 1 : ℕ) }, hcalls, ?_, ?_, fun _ => ⟨rfl, rfl, ?_⟩⟩
    · rw [next_last hb hit hnext (by omega), decide_eq_false hmore]
    · intro row hrow
      have hklt := (List.getElem?_eq_some_iff.1 hrow).1
      obtain rfl : k = rows.length - 1 := by omega
      exact hit.row row hrow
    · rw [hit.positionNext, Nat.sub_add_cancel hpos, List.take_length]
      simp only [MetadataBody.encode, List.length_append, length_bigEndian]
      push_cast
      ring_nf

/-- Two rows of one column. -/
def twoRows : List (List Cell) := [[some [7]], [some []]]

def twoRowsBody : List UInt8 :=
  MetadataBody.encode ⟨none, none, .omitted 1⟩ (.rows twoRows.length (twoRows.flatMap encodeRow))

theorem ResultIterator.rows_two : ∃ b, BodyResult.consume twoRowsBody {} = .ok (b, true) ∧
    ∀ k, k + 1 < 2 ^ 31 → ∃ it it', calls twoRowsBody b k = .ok it ∧
      it.next twoRowsBody = .ok (it', decide (k + 1 < twoRows.length)) := by
  have h : Contains twoRowsBody 0 (MetadataBody.encode ⟨none, none, .omitted 1⟩
    (.rows twoRows.length (twoRows.flatMap encodeRow))) := contains_self twoRowsBody
  obtain ⟨b, hconsume, hcalls⟩ := rows_exact
    ⟨by simp, by simp, by simp [Columns.count], by simp [Columns.list]⟩ (by simp [twoRows])
    (by simp [twoRows]) (by simp [twoRows, Columns.count]) (by simp [twoRows, Cell.Fits])
    (by simp [twoRows]) h
  refine ⟨b, hconsume, ?_⟩
  intro k hk
  obtain ⟨it, it', hit, hnext, -⟩ := hcalls k hk
  exact ⟨it, it', hit, hnext⟩

end

end CqlClient
