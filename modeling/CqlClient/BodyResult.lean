/-
  CqlClient formalization — RESULT bodies and their rows (`cql_body_result.hpp`).

  `BodyResult.consume` reads the kind and parses the rest of the body by it.
  `ResultIterator` walks the rows of a ROWS result: it parses the first row
  when it is constructed and one more row each time `next` returns true.
-/
import CqlClient.Body

namespace CqlClient

open Word Wire

def cqlResultKindVoid : ℤ := 1
def cqlResultKindRows : ℤ := 2
def cqlResultKindSetKeyspace : ℤ := 3
def cqlResultKindPrepared : ℤ := 4
def cqlResultKindSchemaChange : ℤ := 5

def cqlResultFlagGlobalTablespec : ℕ := 1
def cqlResultFlagHasMorePages : ℕ := 2
def cqlResultFlagNoMetadata : ℕ := 4

/-- `flags & flag`, for the two's complement of a signed `flags`. -/
def hasFlag (flags : ℤ) (flag : ℕ) : Bool := (flags % 2 ^ 32).toNat &&& flag != 0

structure ColumnMetaData where
  type : ℤ := toInt16 cqlColumnTypeUnknown
  keyspace : Option ℤ := none
  keyspaceSize : ℕ := 0
  table : Option ℤ := none
  tableSize : ℕ := 0
  name : Option ℤ := none
  nameSize : ℕ := 0
  className : Option ℤ := none
  classNameSize : ℕ := 0
  collectionPrimaryType : ℤ := toInt16 cqlColumnTypeUnknown
  collectionPrimaryClass : Option ℤ := none
  collectionPrimaryClassSize : ℕ := 0
  collectionSecondaryType : ℤ := toInt16 cqlColumnTypeUnknown
  collectionSecondaryClass : Option ℤ := none
  collectionSecondaryClassSize : ℕ := 0
  deriving DecidableEq, Repr

instance : Inhabited ColumnMetaData := ⟨{}⟩

structure BodyResult where
  kind : ℤ := 0
  morePages : Bool := false
  noMetadata : Bool := false
  globalTableSpec : Bool := true
  columnCount : ℤ := 0
  columnMetadata : List ColumnMetaData := []
  /-- `std::unordered_map<std::string, size_t>` -/
  columnIndex : List (List UInt8 × ℕ) := []
  pageState : Option ℤ := none
  pageStateSize : ℕ := 0
  prepared : Option ℤ := none
  preparedSize : ℕ := 0
  change : Option ℤ := none
  changeSize : ℕ := 0
  keyspace : Option ℤ := none
  keyspaceSize : ℕ := 0
  table : Option ℤ := none
  tableSize : ℕ := 0
  rowCount : ℤ := 0
  rows : Option ℤ := none
  deriving DecidableEq, Repr

/-- `vector::resize(n)`; a negative count is a huge `size_t`, which throws. -/
def resizeMetadata (n : ℤ) (v : List ColumnMetaData) : Except Crash (List ColumnMetaData) :=
  if n < 0 then .error .badLength
  else .ok (v.take n.toNat ++ List.replicate (n.toNat - v.length) default)

/-- `column_index.insert`: an existing entry stays. -/
def insertIndex (name : List UInt8) (i : ℕ) (index : List (List UInt8 × ℕ)) :
    List (List UInt8 × ℕ) :=
  if (index.lookup name).isSome then index else index ++ [(name, i)]

section
variable (mem : List UInt8)

/-- One column of the metadata. -/
def parseColumn (globalTableSpec : Bool) (buffer : ℤ) : Except Crash (ColumnMetaData × ℤ) := do
  let column : ColumnMetaData := {}
  let (column, buffer) ←
    if globalTableSpec then pure (column, buffer)
    else do
      let (keyspace, keyspaceSize, buffer) ← decodeString mem buffer column.keyspaceSize
      let (table, tableSize, buffer) ← decodeString mem buffer column.tableSize
      pure ({ column with keyspace := some keyspace, keyspaceSize
                          table := some table, tableSize }, buffer)
  let (name, nameSize, buffer) ← decodeString mem buffer column.nameSize
  let (type, className, classNameSize, buffer) ←
    decodeOption mem buffer column.className column.classNameSize
  let column := { column with name := some name, nameSize, type, className, classNameSize }
  let (column, buffer) ←
    if type = cqlColumnTypeSet ∨ type = cqlColumnTypeList ∨ type = cqlColumnTypeMap then do
      let (t, c, n, buffer) ← decodeOption mem buffer column.collectionPrimaryClass
        column.collectionPrimaryClassSize
      pure ({ column with collectionPrimaryType := t, collectionPrimaryClass := c
                          collectionPrimaryClassSize := n }, buffer)
    else pure (column, buffer)
  if type = cqlColumnTypeMap then do
    let (t, c, n, buffer) ← decodeOption mem buffer column.collectionSecondaryClass
      column.collectionSecondaryClassSize
    return ({ column with collectionSecondaryType := t, collectionSecondaryClass := c
                          collectionSecondaryClassSize := n }, buffer)
  else return (column, buffer)

/-- The loop over the columns, for `n` more columns from number `i` on. -/
def parseColumns : ℕ → ℕ → BodyResult → ℤ → Except Crash (BodyResult × ℤ)
  | 0, _, b, buffer => return (b, buffer)
  | n + 1, i, b, buffer => do
    let (column, buffer) ← parseColumn mem b.globalTableSpec buffer
    let name ← read mem (column.name.getD 0) column.nameSize
    parseColumns n (i + 1) { b with
      columnMetadata := b.columnMetadata ++ [column]
      columnIndex := insertIndex name i b.columnIndex } buffer

/-- `parse_metadata`. -/
def BodyResult.parseMetadata (b : BodyResult) (input : ℤ) : Except Crash (BodyResult × ℤ) := do
  let (flags, buffer) ← decodeInt mem input
  let (columnCount, buffer) ← decodeInt mem buffer
  let b := { b with columnCount }
  let (b, buffer) ←
    if hasFlag flags cqlResultFlagHasMorePages then do
      let (p, n, buffer) ← decodeLongString mem buffer b.pageStateSize
      pure ({ b with morePages := true, pageState := some p, pageStateSize := n }, buffer)
    else pure ({ b with morePages := false }, buffer)
  let (b, buffer) ←
    if hasFlag flags cqlResultFlagGlobalTablespec then do
      let (keyspace, keyspaceSize, buffer) ← decodeString mem buffer b.keyspaceSize
      let (table, tableSize, buffer) ← decodeString mem buffer b.tableSize
      pure ({ b with globalTableSpec := true, keyspace := some keyspace, keyspaceSize
                     table := some table, tableSize }, buffer)
    else pure ({ b with globalTableSpec := false }, buffer)
  if hasFlag flags cqlResultFlagNoMetadata then
    return ({ b with noMetadata := true }, buffer)
  else do
    let columnMetadata ← resizeMetadata b.columnCount b.columnMetadata
    parseColumns mem b.columnCount.toNat 0 { b with noMetadata := false, columnMetadata } buffer

/-- `parse_rows`. -/
def BodyResult.parseRows (b : BodyResult) (input : ℤ) : Except Crash (BodyResult × Bool) := do
  let (b, buffer) ← b.parseMetadata mem input
  let (rowCount, rows) ← decodeInt mem buffer
  return ({ b with rowCount, rows := some rows }, true)

/-- `parse_set_keyspace`. -/
def BodyResult.parseSetKeyspace (b : BodyResult) (input : ℤ) :
    Except Crash (BodyResult × Bool) := do
  let (keyspace, keyspaceSize, _) ← decodeString mem input b.keyspaceSize
  return ({ b with keyspace := some keyspace, keyspaceSize }, true)

/-- `parse_prepared`. -/
def BodyResult.parsePrepared (b : BodyResult) (input : ℤ) : Except Crash (BodyResult × Bool) := do
  let (prepared, preparedSize, buffer) ← decodeString mem input b.preparedSize
  let (b, _) ← { b with prepared := some prepared, preparedSize }.parseMetadata mem buffer
  return (b, true)

/-- `parse_schema_change`. -/
def BodyResult.parseSchemaChange (b : BodyResult) (input : ℤ) :
    Except Crash (BodyResult × Bool) := do
  let (change, changeSize, buffer) ← decodeString mem input b.changeSize
  let (keyspace, keyspaceSize, buffer) ← decodeString mem buffer b.keyspaceSize
  let (table, tableSize, _) ← decodeString mem buffer b.tableSize
  return ({ b with change := some change, changeSize, keyspace := some keyspace, keyspaceSize
                   table := some table, tableSize }, true)

/-- `consume`; a kind outside the five asserts. -/
def BodyResult.consume (b : BodyResult) : Except Crash (BodyResult × Bool) := do
  let (kind, buffer) ← decodeInt mem 0
  let b := { b with kind }
  if kind = cqlResultKindVoid then return (b, true)
  else if kind = cqlResultKindRows then b.parseRows mem buffer
  else if kind = cqlResultKindSetKeyspace then b.parseSetKeyspace mem buffer
  else if kind = cqlResultKindPrepared then b.parsePrepared mem buffer
  else if kind = cqlResultKindSchemaChange then b.parseSchemaChange mem buffer
  else throw .assertFailed

/-! ## Rows -/

/-- `decode_int` at a pointer that can be `NULL`. -/
def decodeIntPtr (input : Option ℤ) : Except Crash (ℤ × ℤ) :=
  match input with
  | none => .error .nullDeref
  | some p => decodeInt mem p

/-- The loop of `parse_row`, for `n` more cells: the published (pointer, size)
    pairs and the position after them.  The size is a signed wire value: it is
    published as a `size_t`, and the position moves by it. -/
def parseRow : ℕ → Option ℤ → List (ℤ × ℕ) → Except Crash (List (ℤ × ℕ) × Option ℤ)
  | 0, buffer, output => return (output, buffer)
  | n + 1, buffer, output => do
    let (size, buffer) ← decodeIntPtr mem buffer
    parseRow n (some (buffer + size)) (output ++ [(buffer, toSizeT size)])

structure ResultIterator where
  result : BodyResult
  rowPosition : ℤ
  position : Option ℤ
  positionNext : Option ℤ
  row : List (ℤ × ℕ)
  deriving DecidableEq, Repr

/-- The constructor: `row(result->column_count)` throws on a negative count. -/
def ResultIterator.new (result : BodyResult) : Except Crash ResultIterator := do
  if result.columnCount < 0 then throw .badLength
  let (row, positionNext) ← parseRow mem result.columnCount.toNat result.rows []
  return ⟨result, 0, result.rows, positionNext, row⟩

/-- `next`. -/
def ResultIterator.next (it : ResultIterator) : Except Crash (ResultIterator × Bool) := do
  let rowPosition := toInt32 (it.rowPosition + 1)
  if it.result.rowCount ≤ rowPosition then return ({ it with rowPosition }, false)
  else
    let (row, positionNext) ← parseRow mem it.result.columnCount.toNat it.positionNext []
    return ({ it with rowPosition, positionNext, row }, true)

end

end CqlClient
