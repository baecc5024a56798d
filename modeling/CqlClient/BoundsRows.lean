/-
  CqlClient formalization — the rows of a RESULT, and the bounds of the decoders.

  A row is parsed from where the last one has ended.  The cells of a row lie in
  the body, one after the other, exactly as long as none has a negative size and
  none is longer than what is left; from the first other cell on, a pair that is
  not in the body is among the ones published, or the process has died.
-/
import CqlClient.BoundsResult

namespace CqlClient

open Word Wire Wire.Parser

variable {mem : List UInt8} {pos : ℤ} {o : Option (List UInt8)} {rest : List UInt8}

/-- The cells of a row that are published. -/
def RowInside (mem : List UInt8) (row : List (ℤ × ℕ)) : Prop :=
  ∀ cell ∈ row, InBody mem (some cell.1, cell.2)

/-- The iterator after its construction and `n` calls of `next()`. -/
def ResultIterator.calls (mem : List UInt8) (b : BodyResult) : ℕ → Except Crash ResultIterator
  | 0 => ResultIterator.new mem b
  | n + 1 => do
    let it ← ResultIterator.calls mem b n
    let (it, _) ← it.next mem
    return it

/-! ## One row -/

/-- The number of a pointer that can be `NULL` is read in the body, or not at all. -/
theorem decodeIntPtr_ofLength {p : Option ℤ} {e : Crash} (h : decodeIntPtr mem p = .error e) :
    e.OfLength := by
  rcases p with _ | p
  · cases h
    trivial
  · unfold decodeIntPtr decodeInt read at h
    dsimp only at h
    split at h
    · cases h
    · cases h
      trivial

/-- A cell that is not in the body stays among the published ones. -/
theorem parseRow_outside (n : ℕ) {p : Option ℤ} {output : List (ℤ × ℕ)}
    (hout : ¬ RowInside mem output) :
    Follows Crash.OfLength (parseRow mem n p output) (none : Option (Unit × List UInt8))
      fun _ r => ¬ RowInside mem r.1 := by
  induction n generalizing p output with
  | zero => exact hout
  | succ n ih =>
    rw [parseRow]
    rcases hx : decodeIntPtr mem p with e | ⟨size, next⟩
    · exact ⟨rfl, decodeIntPtr_ofLength hx⟩
    · refine ih ?_
      exact fun h => hout fun cell hc => h cell (List.mem_append_left _ hc)

/-- A cell of a negative size, or one longer than the body. -/
theorem cell_outside {size : ℤ} (hsize : -2 ^ 31 ≤ size ∧ size < 2 ^ 31)
    (hlen : mem.length < 2 ^ 31) (hpos : 0 ≤ pos) (h : size < 0 ∨ mem.length < pos + size) :
    ¬ InBody mem (some pos, toSizeT size) := by
  rintro ⟨-, hle⟩
  simp only [toSizeT] at hle
  omega

theorem Layout.cell_apply (bs : List UInt8) : Layout.cell bs = (Layout.int bs).bind fun x =>
    if 0 ≤ x.1 ∧ x.1.toNat ≤ x.2.length then some ((), x.2.drop x.1.toNat) else none := by
  unfold Layout.cell
  rw [bind_apply]
  refine congrArg _ (funext fun x => ?_)
  rw [bind_apply, guard_apply]
  by_cases h : 0 ≤ x.1
  · rw [if_pos h, Option.bind_some, skip_apply]
    exact if_congr (and_iff_right h).symm rfl rfl
  · rw [if_neg h, if_neg fun h' => h h'.1]
    rfl

/-- **A row** is inside exactly when the grammar accepts it. -/
theorem parseRow_follows (hlen : mem.length < 2 ^ 31) (n : ℕ) {output : List (ℤ × ℕ)}
    (hc : Cursor mem pos (some rest)) (hin : RowInside mem output) :
    Follows Crash.OfLength (parseRow mem n (some pos) output) (times Layout.cell n rest)
      fun y r => (RowInside mem r.1 ↔ y.isSome) ∧ ∀ x rest', y = some (x, rest') →
        ∃ next, r.2 = some next ∧ Cursor mem next (some rest') := by
  induction n generalizing pos rest output with
  | zero =>
    refine ⟨iff_of_true hin rfl, ?_⟩
    rintro _ _ ⟨⟩
    exact ⟨pos, rfl, hc⟩
  | succ n ih =>
    rw [times, bind_apply, parseRow, decodeIntPtr, Layout.cell_apply, Option.bind_assoc]
    refine (decodeInt_follows hc fun n => toInt32 n).bind ?_
    rintro ⟨size, next⟩ ⟨v, rest₁, hy, -, hsize, -, hcursor⟩
    have hrange := toInt32_range v
    have hlength := hcursor.length
    change next + (rest₁.length : ℤ) = mem.length at hlength
    rw [hy, Option.bind_some, ← show size = toInt32 v from hsize]
    rw [← show size = toInt32 v from hsize] at hrange
    by_cases hcell : 0 ≤ size ∧ size.toNat ≤ rest₁.length
    · have hcast : (size.toNat : ℤ) = size := Int.toNat_of_nonneg hcell.1
      have hnext := hcursor.drop hcell.2
      rw [hcast] at hnext
      rw [if_pos hcell, Option.bind_some]
      refine ih hnext ?_
      intro cell hcell'
      rcases List.mem_append.1 hcell' with hold | hnew
      · exact hin cell hold
      · obtain rfl := List.mem_singleton.1 hnew
        refine ⟨hcursor.1, ?_⟩
        rw [toSizeT_eq hcell.1 (by omega)]
        change next + size ≤ mem.length
        omega
    · have hout : ¬ RowInside mem (output ++ [(next, toSizeT size)]) := fun h =>
        cell_outside hrange hlen hcursor.1 (by omega)
          (h _ (List.mem_append_right _ (List.mem_singleton.2 rfl)))
      rw [if_neg hcell]
      refine (parseRow_outside n hout).mono fun r hr => ⟨iff_of_false hr (by simp), ?_⟩
      intro x rest' hy
      cases hy

/-! ## The calls -/

/-- After `n` calls of `next()` the row is inside, and the next one starts at `rest`. -/
structure ResultIterator.At (mem : List UInt8) (b : BodyResult) (n : ℕ) (rest : List UInt8)
    (it : ResultIterator) : Prop where
  result : it.result = b
  position : it.rowPosition = toInt32 (n : ℕ)
  inside : RowInside mem it.row
  next : ∃ p, it.positionNext = some p ∧ Cursor mem p (some rest)

section
variable {b : BodyResult} {columns rows : ℤ}

theorem ResultIterator.new_follows (hlen : mem.length < 2 ^ 31)
    (hb : b.Holds mem columns (some rows) rest) (hcol : 0 ≤ columns) :
    Follows Crash.OfLength (ResultIterator.new mem b) (times Layout.cell columns.toNat rest)
      fun y it => (RowInside mem it.row ↔ y.isSome) ∧
        ∀ x rest', y = some (x, rest') → it.At mem b 0 rest' := by
  obtain ⟨rfl, -, p, hp, hc⟩ := hb
  unfold new
  rw [if_neg (not_lt.2 hcol), hp]
  refine (parseRow_follows hlen b.columnCount.toNat hc (List.forall_mem_nil _)).seq ?_
  rintro ⟨row, next⟩ ⟨hin, hnext⟩
  refine ⟨hin, fun x rest' hy => ⟨rfl, rfl, hin.2 ?_, hnext x rest' hy⟩⟩
  rw [hy]
  rfl

theorem times_one (p : Parser Unit) (bs : List UInt8) : times p 1 bs = p bs := by
  rw [times, bind_apply]
  rcases p bs with _ | ⟨_, rest⟩
  · rfl
  · rfl

theorem ResultIterator.next_eq (it : ResultIterator) : it.next mem =
    if it.result.rowCount ≤ toInt32 (it.rowPosition + 1) then
      .ok ({ it with rowPosition := toInt32 (it.rowPosition + 1) }, false)
    else do
      let (row, positionNext) ← parseRow mem it.result.columnCount.toNat it.positionNext []
      return ({ it with rowPosition := toInt32 (it.rowPosition + 1), positionNext, row }, true) :=
  rfl

theorem ResultIterator.next_follows (hlen : mem.length < 2 ^ 31)
    (hb : b.Holds mem columns (some rows) rest) {n : ℕ} {it : ResultIterator}
    {rest' : List UInt8} (hit : it.At mem b n rest') :
    Follows Crash.OfLength (it.next mem)
      (times (times Layout.cell columns.toNat) (if rows ≤ toInt32 (n + 1 : ℕ) then 0 else 1) rest')
      fun y r => (RowInside mem r.1.row ↔ y.isSome) ∧
        ∀ x rest'', y = some (x, rest'') → r.1.At mem b (n + 1) rest'' := by
  obtain ⟨rfl, hrows, -, -, -⟩ := hb
  obtain ⟨rfl, hpos, hin, p, hp, hc⟩ := hit
  have hnext : toInt32 (it.rowPosition + 1) = toInt32 (n + 1 : ℕ) := by
    rw [hpos, toInt32_add]
    push_cast
    rfl
  rw [next_eq, hrows, ← hnext]
  generalize toInt32 (it.rowPosition + 1) = position at hnext
  by_cases hlast : rows ≤ position
  · rw [if_pos hlast, if_pos hlast]
    refine ⟨iff_of_true hin rfl, ?_⟩
    rintro _ _ ⟨⟩
    exact ⟨rfl, hnext, hin, p, hp, hc⟩
  · rw [if_neg hlast, if_neg hlast, hp, times_one]
    refine (parseRow_follows hlen it.result.columnCount.toNat hc (List.forall_mem_nil _)).seq ?_
    rintro ⟨row, next⟩ ⟨hin, hnext'⟩
    refine ⟨hin, fun x rest'' hy => ⟨rfl, hnext, hin.2 ?_, hnext' x rest'' hy⟩⟩
    rw [hy]
    rfl

/-- What the grammar finds in the rows that have been parsed after `n` calls. -/
def rowsAt (columns rows : ℤ) (rest : List UInt8) (n : ℕ) : Option (Unit × List UInt8) :=
  times (times Layout.cell columns.toNat) (Layout.rowsParsed rows n) rest

theorem rowsAt_succ (n : ℕ) : rowsAt columns rows rest (n + 1) =
    (rowsAt columns rows rest n).bind fun x => times (times Layout.cell columns.toNat)
      (if rows ≤ toInt32 (n + 1 : ℕ) then 0 else 1) x.2 := by
  rw [rowsAt, Layout.rowsParsed, times_add]
  push_cast
  rfl

theorem rowsParsed_mono (rows : ℤ) : Monotone (Layout.rowsParsed rows) :=
  monotone_nat_of_le_succ fun _ => Nat.le_add_right _ _

/-- Where the grammar rejects a row, it rejects all that follows. -/
theorem rowsAt_mono {k n : ℕ} (h : k ≤ n) (hn : (rowsAt columns rows rest n).isSome = true) :
    (rowsAt columns rows rest k).isSome = true := by
  obtain ⟨d, hd⟩ := Nat.exists_eq_add_of_le (rowsParsed_mono rows h)
  rw [rowsAt, hd, times_add] at hn
  exact Option.isSome_of_isSome_bind hn

/-- A step that follows the grammar either goes on as it does, or is not safe. -/
theorem row_cases {β : Type} {x : Except Crash β} {y : Option (Unit × List UInt8)}
    {row : β → List (ℤ × ℕ)} {R : List UInt8 → β → Prop}
    (h : Follows Crash.OfLength x y fun y r => (RowInside mem (row r) ↔ y.isSome) ∧
      ∀ u rest, y = some (u, rest) → R rest r) :
    (∃ r rest, x = .ok r ∧ y = some ((), rest) ∧ R rest r) ∨
      y = none ∧ ¬ Safe Crash.OfLength x fun r => RowInside mem (row r) := by
  rcases y with _ | ⟨_, rest⟩
  · right
    refine ⟨rfl, fun hsafe => ?_⟩
    exact nomatch (h.safe_iff (G := fun r => RowInside mem (row r)) fun _ hr => hr.1).1 hsafe
  · left
    rcases x with e | r
    · exact nomatch h.1
    · exact ⟨r, rest, rfl, rfl, h.2 () rest rfl⟩

/-- The calls go on as long as the grammar accepts the rows. -/
theorem ResultIterator.calls_spec (hlen : mem.length < 2 ^ 31)
    (hb : b.Holds mem columns (some rows) rest) (hcol : 0 ≤ columns) (n : ℕ) :
    (∃ it rest', calls mem b n = .ok it ∧ rowsAt columns rows rest n = some ((), rest') ∧
        it.At mem b n rest') ∨
      rowsAt columns rows rest n = none ∧
        ∃ k ≤ n, ¬ Safe Crash.OfLength (calls mem b k) fun it => RowInside mem it.row := by
  induction n with
  | zero =>
    rw [rowsAt, Layout.rowsParsed, times_one]
    rcases row_cases (new_follows hlen hb hcol) with ⟨it, rest', hok⟩ | ⟨hnone, hbad⟩
    · exact .inl ⟨it, rest', hok⟩
    · exact .inr ⟨hnone, 0, le_rfl, hbad⟩
  | succ n ih =>
    rw [rowsAt_succ]
    rcases ih with ⟨it, rest', hcalls, hrows, hit⟩ | ⟨hrows, k, hk, hbad⟩
    · have h : Follows Crash.OfLength (calls mem b (n + 1))
          (times (times Layout.cell columns.toNat) (if rows ≤ toInt32 (n + 1 : ℕ) then 0 else 1)
            rest') fun y it => (RowInside mem it.row ↔ y.isSome) ∧
            ∀ x rest'', y = some (x, rest'') → it.At mem b (n + 1) rest'' := by
        rw [calls, hcalls]
        refine (next_follows hlen hb hit).seq ?_
        intro r hr
        exact hr
      rw [hrows, Option.bind_some]
      rcases row_cases h with ⟨it', rest'', hok⟩ | ⟨hnone, hbad⟩
      · exact .inl ⟨it', rest'', hok⟩
      · exact .inr ⟨hnone, n + 1, le_rfl, hbad⟩
    · rw [hrows]
      exact .inr ⟨rfl, k, hk.trans n.le_succ, hbad⟩

/-- A negative number of columns, or columns without rows to read them from. -/
theorem ResultIterator.new_unsafe (h : b.columnCount < 0 ∨ b.columnCount ≠ 0 ∧ b.rows = none) :
    ¬ Safe Crash.OfLength (ResultIterator.new mem b) fun it => RowInside mem it.row := by
  unfold new
  by_cases hneg : b.columnCount < 0
  · rw [if_pos hneg]
    exact fun hsafe => hsafe trivial
  · obtain ⟨hne, hnull⟩ := h.resolve_left hneg
    obtain ⟨k, hk⟩ := Nat.exists_eq_succ_of_ne_zero (n := b.columnCount.toNat) (by omega)
    rw [if_neg hneg, hk, hnull]
    exact fun hsafe => hsafe trivial

/-- Without columns there is nothing to read. -/
theorem ResultIterator.calls_empty (hcol : b.columnCount = 0) (n : ℕ) :
    ∃ it, calls mem b n = .ok it ∧ it.result = b ∧ it.row = [] := by
  have hzero : ∀ p, parseRow mem b.columnCount.toNat p [] = .ok ([], p) := by
    intro p
    rw [hcol]
    rfl
  induction n with
  | zero =>
    refine ⟨⟨b, 0, b.rows, b.rows, []⟩, ?_, rfl, rfl⟩
    rw [calls, new, if_neg (by omega), hzero]
    rfl
  | succ n ih =>
    obtain ⟨it, hcalls, rfl, hrow⟩ := ih
    by_cases hlast : it.result.rowCount ≤ toInt32 (it.rowPosition + 1)
    · refine ⟨{ it with rowPosition := toInt32 (it.rowPosition + 1) }, ?_, rfl, hrow⟩
      rw [calls, hcalls]
      change (it.next mem >>= fun r => Except.ok r.1) = _
      rw [next_eq, if_pos hlast]
      rfl
    · refine ⟨{ it with rowPosition := toInt32 (it.rowPosition + 1), row := [] }, ?_, rfl, rfl⟩
      rw [calls, hcalls]
      change (it.next mem >>= fun r => Except.ok r.1) = _
      rw [next_eq, if_neg hlast, hzero]
      rfl

/-- **The calls are safe** exactly when the grammar accepts the rows. -/
theorem ResultIterator.calls_safe_iff (hlen : mem.length < 2 ^ 31) {rows : Option ℤ}
    (hb : b.Holds mem columns rows rest) (n : ℕ) :
    (∀ k ≤ n, Safe Crash.OfLength (calls mem b k) fun it => RowInside mem it.row) ↔
      (Layout.rowsRead columns rows n).Accepts rest := by
  have hnew : (∀ k ≤ n, Safe Crash.OfLength (calls mem b k) fun it => RowInside mem it.row) →
      ¬ (b.columnCount < 0 ∨ b.columnCount ≠ 0 ∧ b.rows = none) :=
    fun hsafe h => new_unsafe h (hsafe 0 n.zero_le)
  rcases rows with _ | rows
  · obtain ⟨rfl, hnone⟩ := hb
    have hread : (Layout.rowsRead b.columnCount none n).Accepts rest ↔ b.columnCount = 0 := by
      rw [Layout.rowsRead, Parser.Accepts, guard_apply]
      split
      · exact iff_of_true rfl ‹_›
      · exact iff_of_false nofun ‹_›
    rw [hread]
    constructor
    · intro hsafe
      by_contra hne
      exact hnew hsafe (.inr ⟨hne, hnone⟩)
    · intro hcol k _
      obtain ⟨it, hcalls, -, hrow⟩ := calls_empty hcol k
      rw [hcalls]
      change RowInside mem it.row
      rw [hrow]
      exact nofun
  · have hread : (Layout.rowsRead columns (some rows) n).Accepts rest ↔
        0 ≤ columns ∧ (rowsAt columns rows rest n).isSome = true := by
      rw [Layout.rowsRead, Parser.Accepts, bind_apply, guard_apply]
      split
      · exact (and_iff_right ‹_›).symm
      · exact iff_of_false nofun fun h => absurd h.1 ‹_›
    rw [hread]
    constructor
    · intro hsafe
      have hcol : 0 ≤ columns := by
        have h := hnew hsafe
        rw [hb.1] at h
        omega
      refine ⟨hcol, ?_⟩
      rcases calls_spec hlen hb hcol n with ⟨it, rest', -, hrows, -⟩ | ⟨-, k, hk, hbad⟩
      · rw [hrows]
        rfl
      · exact absurd (hsafe k hk) hbad
    · rintro ⟨hcol, hrows⟩ k hk
      have hsome := rowsAt_mono hk hrows
      rcases calls_spec hlen hb hcol k with ⟨it, rest', hcalls, -, hit⟩ | ⟨hnone, -⟩
      · rw [hcalls]
        exact hit.inside
      · rw [hnone] at hsome
        cases hsome

end

/-! ## All decoders -/

/-- The claim on RESULT: on `consume`, and on an iterator over a result it has
    returned true for, up to `n` calls of `next()`. -/
def BodyResult.BoundedRows (mem : List UInt8) (n : ℕ) : Prop :=
  Bounded mem (consume mem {}) pairs Layout.resultBody ∧
    ∀ b, consume mem {} = .ok (b, true) → ∀ k ≤ n,
      Safe Crash.OfLength (ResultIterator.calls mem b k) fun it => RowInside mem it.row

theorem BodyResult.boundedRows_iff (hlen : mem.length < 2 ^ 31) (n : ℕ) :
    BoundedRows mem n ↔ Layout.resultBody.Accepts mem ∧ (Layout.resultRead n).Accepts mem := by
  have hread : (Layout.resultRead n).Accepts mem ↔ ∃ columns rows rest,
      Layout.resultConsumed mem = some ((columns, rows), rest) ∧
        (Layout.rowsRead columns rows n).Accepts rest := by
    unfold Parser.Accepts Layout.resultRead
    rw [bind_apply]
    rcases Layout.resultConsumed mem with _ | ⟨⟨columns, rows⟩, rest⟩
    · exact iff_of_false nofun nofun
    · constructor
      · exact fun h => ⟨columns, rows, rest, rfl, h⟩
      · rintro ⟨_, _, _, ⟨⟩, h⟩
        exact h
  rw [hread]
  rcases consume_follows mem with ⟨hassert, hbody, rest, hconsumed⟩ | h
  · -- a kind outside the five announces nothing, and nothing of it is read
    refine iff_of_true ⟨⟨?_, fun hnot => absurd hbody hnot⟩, ?_⟩
      ⟨hbody, 0, none, rest, hconsumed, rfl⟩
    · rw [hassert]
      exact not_false
    · intro b hb
      rw [hassert] at hb
      cases hb
  · have hbounded : Bounded mem (consume mem {}) pairs Layout.resultBody ↔
        Layout.resultBody.Accepts mem ∧ Layout.resultConsumed.Accepts mem :=
      bounded_iff (h.mono fun r hr => ⟨hr.1, hr.2.1⟩)
    unfold BoundedRows
    rw [hbounded, and_assoc]
    refine and_congr_right fun _ => ?_
    rcases hy : Layout.resultConsumed mem with _ | ⟨⟨columns, rows⟩, rest⟩
    · refine iff_of_false ?_ nofun
      rintro ⟨haccepts, -⟩
      rw [Parser.Accepts, hy] at haccepts
      cases haccepts
    · rw [hy] at h
      rcases hx : consume mem {} with e | ⟨b, ok⟩
      · rw [hx] at h
        exact nomatch h.1
      · rw [hx] at h
        obtain ⟨rfl, -, hholds⟩ := h
        have hcalls := ResultIterator.calls_safe_iff hlen (hholds columns rows rest rfl) n
        constructor
        · rintro ⟨-, hsafe⟩
          exact ⟨columns, rows, rest, rfl, hcalls.1 (hsafe b rfl)⟩
        · rintro ⟨_, _, _, ⟨⟩, hread⟩
          refine ⟨by rw [Parser.Accepts, hy]; rfl, ?_⟩
          rintro b' ⟨⟩
          exact hcalls.2 hread

/-- **The decoders stay in the body** exactly for well-formed bodies that also fit
    the layout as it is read, up to `n` calls of `next()`. -/
theorem decoders_bounded_iff (hlen : mem.length < 2 ^ 31) (n : ℕ) :
    (Bounded mem (BodyError.consume {} mem) BodyError.pairs Layout.errorBody ↔
        Layout.errorBody.Accepts mem) ∧
      (Bounded mem (BodyStartup.consume {} mem) (fun _ => []) Layout.startupBody ↔
        Layout.startupBody.Accepts mem) ∧
      (Bounded mem (BodySupported.consume {} mem) (fun _ => []) Layout.supportedBody ↔
        Layout.supportedBody.Accepts mem ∧ Layout.supportedRead.Accepts mem) ∧
      (BodyResult.BoundedRows mem n ↔
        Layout.resultBody.Accepts mem ∧ (Layout.resultRead n).Accepts mem) := by
  refine ⟨?_, ?_, ?_, BodyResult.boundedRows_iff hlen n⟩
  · rw [bounded_iff (BodyError.consume_follows mem), and_self]
  · rw [bounded_iff (BodyStartup.consume_follows mem)]
    exact and_iff_left_of_imp Layout.startupRead_of_startupBody
  · exact bounded_iff (BodySupported.consume_follows mem)

/-- A ROWS result of one row with one cell, and calls of `next()` past its end. -/
theorem decoders_bounded_row : BodyResult.BoundedRows
    [0, 0, 0, 2, 0, 0, 0, 4, 0, 0, 0, 1, 0, 0, 0, 1, 0, 0, 0, 1, 0x2A] 5 :=
  (decoders_bounded_iff (by decide) 5).2.2.2.2 ⟨by decide, by decide⟩

/-- An ERROR that ends before its message: `consume` returns true, and publishes
    five bytes behind the body. -/
theorem decoders_unbounded_error : ¬ ∀ (mem : List UInt8) (n : ℕ), mem.length < 2 ^ 31 →
    Bounded mem (BodyError.consume {} mem) BodyError.pairs Layout.errorBody ∧
      Bounded mem (BodyStartup.consume {} mem) (fun _ => []) Layout.startupBody ∧
      Bounded mem (BodySupported.consume {} mem) (fun _ => []) Layout.supportedBody ∧
      BodyResult.BoundedRows mem n := by
  intro h
  have hsafe := (h [0, 0, 0, 0, 0, 5] 0 (by decide)).1
  have haccepts := ((bounded_iff (BodyError.consume_follows _)).1 hsafe).1
  exact absurd haccepts (by decide)

end CqlClient
