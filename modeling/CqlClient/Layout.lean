/-
  CqlClient formalization — the layout of the bodies that are received.

  `…Body` are the grammars of well-formed bodies: counts and string lengths are
  unsigned shorts, and a value of negative length is null.  `…Read` are the
  grammars as the decoders go through the bytes: a count is an `int16_t`, the
  length of the paging state is unsigned, and there are no nulls.
-/
import CqlClient.BodyResult

namespace CqlClient.Layout

open Word Wire Wire.Parser

/-- A signed number of four bytes. -/
def int : Parser ℤ := do
  let n ← number 4
  return toInt32 n

def string : Parser Unit := do
  let n ← number 2
  skip n

/-- A value: null, or its bytes. -/
def bytes : Parser Unit := do
  let n ← int
  skip n.toNat

/-- A value that is not null. -/
def cell : Parser Unit := do
  let n ← int
  guard (0 ≤ n)
  skip n.toNat

/-- A string whose length has four bytes. -/
def longString : Parser Unit := do
  let n ← number 4
  skip n

/-! ## Counts -/

/-- A count, as it is meant. -/
def count : Parser ℕ := number 2

/-- A count, as it is read: a negative one counts nothing. -/
def shortCount : Parser ℕ := do
  let n ← number 2
  return (toInt16 n).toNat

def stringMap (count : Parser ℕ) : Parser Unit := do
  let n ← count
  times (do string; string) n

def stringList (count : Parser ℕ) : Parser Unit := do
  let n ← count
  times string n

def stringMultimap (count : Parser ℕ) : Parser Unit := do
  let n ← count
  times (do string; stringList count) n

/-! ## ERROR, STARTUP and SUPPORTED -/

def errorBody : Parser Unit := do
  let _ ← int
  string

def startupBody : Parser Unit := stringMap count

def supportedBody : Parser Unit := stringMultimap count

def supportedRead : Parser Unit := stringMultimap shortCount

/-! ## RESULT -/

/-- The type of a column, with its class name if it is a custom one. -/
def option : Parser ℤ := do
  let n ← number 2
  let type := toInt16 n
  announced (type = cqlColumnTypeCustom) string
  return type

def column (globalTableSpec : Bool) : Parser Unit := do
  announced (globalTableSpec = false) (do string; string)
  string
  let type ← option
  announced (type = cqlColumnTypeSet ∨ type = cqlColumnTypeList ∨ type = cqlColumnTypeMap)
    (discard option)
  announced (type = cqlColumnTypeMap) (discard option)

/-- The metadata, with the number of columns. -/
def metadata (pagingState : Parser Unit) : Parser ℤ := do
  let flags ← int
  let columns ← int
  announced (hasFlag flags cqlResultFlagHasMorePages = true) pagingState
  announced (hasFlag flags cqlResultFlagGlobalTablespec = true) (do string; string)
  announced (hasFlag flags cqlResultFlagNoMetadata = false) do
    guard (0 ≤ columns)
    times (column (hasFlag flags cqlResultFlagGlobalTablespec)) columns.toNat
  return columns

/-- A well-formed RESULT.  A kind outside the five announces nothing. -/
def resultBody : Parser Unit := do
  let kind ← int
  if kind = cqlResultKindVoid then return ()
  else if kind = cqlResultKindRows then do
    let columns ← metadata bytes
    guard (0 ≤ columns)
    let rows ← int
    guard (0 ≤ rows)
    times (times bytes columns.toNat) rows.toNat
  else if kind = cqlResultKindSetKeyspace then string
  else if kind = cqlResultKindPrepared then do
    string
    let columns ← metadata bytes
    guard (0 ≤ columns)
  else if kind = cqlResultKindSchemaChange then (do string; string; string)
  else return ()

/-- The rows that the iterator has parsed after `n` calls of `next()`: one when it
    is constructed, and one in each call that finds its position below `row_count`. -/
def rowsParsed (rowCount : ℤ) : ℕ → ℕ
  | 0 => 1
  | n + 1 => rowsParsed rowCount n + if rowCount ≤ toInt32 (n + 1) then 0 else 1

/-- A RESULT as `consume` goes through it: the number of columns, and of the rows
    if there are any. -/
def resultConsumed : Parser (ℤ × Option ℤ) := do
  let kind ← int
  if kind = cqlResultKindVoid then return (0, none)
  else if kind = cqlResultKindRows then do
    let columns ← metadata longString
    let rows ← int
    return (columns, some rows)
  else if kind = cqlResultKindSetKeyspace then do
    string
    return (0, none)
  else if kind = cqlResultKindPrepared then do
    string
    let columns ← metadata longString
    return (columns, none)
  else if kind = cqlResultKindSchemaChange then do
    string
    string
    string
    return (0, none)
  else return (0, none)

/-- The rows, as the constructor of the iterator and `n` calls of `next()` go
    through them.  Without rows there is no place to read columns from. -/
def rowsRead (columns : ℤ) (rows : Option ℤ) (n : ℕ) : Parser Unit :=
  match rows with
  | none => guard (columns = 0)
  | some rows => do
    guard (0 ≤ columns)
    times (times cell columns.toNat) (rowsParsed rows n)

def resultRead (n : ℕ) : Parser Unit := do
  let (columns, rows) ← resultConsumed
  rowsRead columns rows n

end CqlClient.Layout
