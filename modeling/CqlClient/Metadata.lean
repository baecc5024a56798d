/-
  CqlClient formalization — the metadata of a RESULT, from the grammar to the fields.

  `ResultMetadata.encode` is the grammar.  `parse_metadata` reads all of it, and sets
  every field to what it says; but it resizes the vector of the columns to their number
  and pushes them back behind the blank ones (`parseMetadata_wire`).  So the vector is
  that of the columns only if there are none (`parsed_iff`).
-/
import CqlClient.BoundsResult
import CqlClient.Decoding

namespace CqlClient

open Word Wire

/-! ## The grammar -/

/-- The type of a column or of an element: a custom one has a class name. -/
inductive TypeOption where
  | basic (type : ℕ)
  | custom (className : List UInt8)
  deriving DecidableEq, Repr

namespace TypeOption

def code : TypeOption → ℕ
  | basic type => type
  | custom _ => 0

def className : TypeOption → Option (List UInt8)
  | basic _ => none
  | custom name => some name

def encode : TypeOption → List UInt8
  | basic type => bigEndian 2 type
  | custom name => bigEndian 2 0 ++ wireString name

def Fits : TypeOption → Prop
  | basic type => 0 < type ∧ type < 2 ^ 16
  | custom name => name.length ≤ 65535

end TypeOption

/-- The type of a column, with those of its elements. -/
inductive ColumnType where
  | single (o : TypeOption)
  | list (element : TypeOption)
  | set (element : TypeOption)
  | map (key value : TypeOption)
  deriving DecidableEq, Repr

namespace ColumnType

def head : ColumnType → TypeOption
  | single o => o
  | list _ => .basic 0x20
  | map _ _ => .basic 0x21
  | set _ => .basic 0x22

def primary : ColumnType → Option TypeOption
  | single _ => none
  | list o | set o | map o _ => some o

def secondary : ColumnType → Option TypeOption
  | map _ o => some o
  | _ => none

def encode (t : ColumnType) : List UInt8 :=
  t.head.encode ++ (t.primary.elim [] TypeOption.encode ++ t.secondary.elim [] TypeOption.encode)

/-- A single type is none of the collections. -/
def Fits : ColumnType → Prop
  | single o => o.Fits ∧ o.code ≠ 0x20 ∧ o.code ≠ 0x21 ∧ o.code ≠ 0x22
  | list o | set o => o.Fits
  | map o o' => o.Fits ∧ o'.Fits

end ColumnType

/-- A column; its keyspace and table are sent only if they are not those of all columns. -/
structure Column where
  keyspace : List UInt8
  table : List UInt8
  name : List UInt8
  type : ColumnType
  deriving DecidableEq, Repr

def Column.encode (globalTableSpec : Bool) (c : Column) : List UInt8 :=
  (if globalTableSpec then [] else wireString c.keyspace ++ wireString c.table) ++
    (wireString c.name ++ c.type.encode)

structure Column.Fits (c : Column) : Prop where
  keyspace : c.keyspace.length ≤ 65535
  table : c.table.length ≤ 65535
  name : c.name.length ≤ 65535
  type : c.type.Fits

/-- The columns, or under NO_METADATA their number. -/
inductive Columns where
  | omitted (count : ℕ)
  | listed (columns : List Column)
  deriving DecidableEq, Repr

namespace Columns

def list : Columns → List Column
  | omitted _ => []
  | listed columns => columns

def count : Columns → ℕ
  | omitted count => count
  | listed columns => columns.length

def isOmitted : Columns → Bool
  | omitted _ => true
  | listed _ => false

end Columns

structure ResultMetadata where
  /-- HAS_MORE_PAGES -/
  pageState : Option (List UInt8)
  /-- GLOBAL_TABLESPEC: the keyspace and the table -/
  tableSpec : Option (List UInt8 × List UInt8)
  columns : Columns
  deriving DecidableEq, Repr

namespace ResultMetadata

def flags (m : ResultMetadata) : ℕ :=
  (if m.tableSpec.isSome then 1 else 0) + (if m.pageState.isSome then 2 else 0) +
    if m.columns.isOmitted then 4 else 0

def encode (m : ResultMetadata) : List UInt8 :=
  bigEndian 4 m.flags ++ (bigEndian 4 m.columns.count ++ (m.pageState.elim [] wireLongString ++
    (m.tableSpec.elim [] (fun spec => wireString spec.1 ++ wireString spec.2) ++
      m.columns.list.flatMap (Column.encode m.tableSpec.isSome))))

structure Fits (m : ResultMetadata) : Prop where
  pageState : ∀ p ∈ m.pageState, p.length < 2 ^ 31
  tableSpec : ∀ spec ∈ m.tableSpec, spec.1.length ≤ 65535 ∧ spec.2.length ≤ 65535
  count : m.columns.count < 2 ^ 31
  columns : ∀ c ∈ m.columns.list, c.Fits

end ResultMetadata

/-! ## What the fields say -/

/-- The pointer and the size are those of the text, or were not set. -/
def Denotes (mem : List UInt8) (p : Option ℤ) (n : ℕ) : Option (List UInt8) → Prop
  | none => p = none ∧ n = 0
  | some text => ∃ pos, p = some pos ∧ n = text.length ∧ Contains mem pos text

/-- The fields of an element type. -/
def TypeOption.Described (mem : List UInt8) (o : Option TypeOption) (type : ℤ) (p : Option ℤ)
    (n : ℕ) : Prop :=
  type = toInt16 (o.elim cqlColumnTypeUnknown fun o => o.code) ∧
    Denotes mem p n (o.bind TypeOption.className)

/-- The entry describes the column. -/
structure Column.Described (mem : List UInt8) (globalTableSpec : Bool) (c : Column)
    (m : ColumnMetaData) : Prop where
  keyspace : Denotes mem m.keyspace m.keyspaceSize (if globalTableSpec then none else c.keyspace)
  table : Denotes mem m.table m.tableSize (if globalTableSpec then none else c.table)
  name : Denotes mem m.name m.nameSize c.name
  type : TypeOption.Described mem c.type.head m.type m.className m.classNameSize
  primary : TypeOption.Described mem c.type.primary m.collectionPrimaryType
    m.collectionPrimaryClass m.collectionPrimaryClassSize
  secondary : TypeOption.Described mem c.type.secondary m.collectionSecondaryType
    m.collectionSecondaryClass m.collectionSecondaryClassSize

/-- The fields are set to what the metadata says; the index has the first position of each
    name. -/
structure ResultMetadata.Sets (mem : List UInt8) (m : ResultMetadata) (b : BodyResult) : Prop where
  morePages : b.morePages = m.pageState.isSome
  pageState : Denotes mem b.pageState b.pageStateSize m.pageState
  globalTableSpec : b.globalTableSpec = m.tableSpec.isSome
  keyspace : Denotes mem b.keyspace b.keyspaceSize (m.tableSpec.map Prod.fst)
  table : Denotes mem b.table b.tableSize (m.tableSpec.map Prod.snd)
  noMetadata : b.noMetadata = m.columns.isOmitted
  columnCount : b.columnCount = m.columns.count
  columnIndex : ∀ name, b.columnIndex.lookup name =
    (m.columns.list.map Column.name).findIdx? (· == name)

variable {mem bytes : List UInt8} {pos : ℤ}

/-! ## Types -/

/-- The types that are told from the others, by their codes. -/
theorem toInt16_code {n : ℕ} (hn : n < 2 ^ 16) :
    (toInt16 n = cqlColumnTypeCustom ↔ n = 0) ∧ (toInt16 n = cqlColumnTypeList ↔ n = 0x20) ∧
    (toInt16 n = cqlColumnTypeMap ↔ n = 0x21) ∧ (toInt16 n = cqlColumnTypeSet ↔ n = 0x22) := by
  have hmod := toInt16_emod (n : ℤ)
  have hrange := toInt16_range (n : ℤ)
  simp only [cqlColumnTypeCustom, cqlColumnTypeList, cqlColumnTypeMap, cqlColumnTypeSet]
  omega

theorem TypeOption.Fits.code_lt {o : TypeOption} (h : o.Fits) : o.code < 2 ^ 16 := by
  cases o with
  | basic type => exact h.2
  | custom name => exact Nat.two_pow_pos 16

/-- `decode_option` -/
theorem decodeOption_wire {o : TypeOption} (h : Contains mem pos o.encode) (ho : o.Fits) :
    ∃ p n, decodeOption mem pos none 0 = .ok (toInt16 o.code, p, n, pos + o.encode.length) ∧
      Denotes mem p n o.className := by
  cases o with
  | basic type =>
    have hne : toInt16 type ≠ cqlColumnTypeCustom := by
      rw [Ne, (toInt16_code ho.2).1]
      exact ho.1.ne'
    refine ⟨none, 0, ?_, rfl, rfl⟩
    rw [decodeOption, decodeShort_wire h ho.2, ok_bind]
    simp only [if_neg hne, TypeOption.encode, length_bigEndian]
    rfl
  | custom name =>
    have hright := h.right
    simp only [length_bigEndian, Nat.cast_ofNat] at hright
    obtain ⟨hdec, hname⟩ := decodeString_wire hright ho
    refine ⟨some (pos + 2 + 2), name.length, ?_, pos + 2 + 2, rfl, rfl, hname⟩
    rw [decodeOption, decodeShort_wire h.left (Nat.two_pow_pos 16), ok_bind]
    have hcustom := (toInt16_code (Nat.two_pow_pos 16)).1.2 rfl
    simp only [if_pos hcustom]
    rw [hdec, ok_bind]
    simp only [TypeOption.encode, TypeOption.code, List.length_append, length_bigEndian,
      Nat.cast_add, Nat.cast_ofNat, Int.add_assoc]
    rfl

/-- An element type, if the column's type has one. -/
theorem collection_wire {o : Option TypeOption} {P : Prop} [Decidable P] (hP : P ↔ o.isSome)
    (h : Contains mem pos (o.elim [] TypeOption.encode)) (ho : ∀ x ∈ o, x.Fits)
    (column : ColumnMetaData) (set : ℤ → Option ℤ → ℕ → ColumnMetaData)
    (hset : set (toInt16 cqlColumnTypeUnknown) none 0 = column) :
    ∃ t p n, (if P then do
        let (t, p, n, buffer) ← decodeOption mem pos none 0
        return (set t p n, buffer)
      else return (column, pos)) = .ok (set t p n, pos + (o.elim [] TypeOption.encode).length) ∧
      TypeOption.Described mem o t p n := by
  rcases o with _ | o
  · rw [if_neg fun hp => nomatch hP.1 hp]
    refine ⟨toInt16 cqlColumnTypeUnknown, none, 0, ?_, rfl, rfl, rfl⟩
    rw [hset, Option.elim_none, List.length_nil, Nat.cast_zero, Int.add_zero]
    rfl
  · obtain ⟨p, n, hdec, hp⟩ := decodeOption_wire (o := o) h (ho o rfl)
    rw [if_pos (hP.2 rfl), hdec, ok_bind]
    exact ⟨_, p, n, rfl, rfl, hp⟩

/-- The kinds of the types, by their codes. -/
theorem ColumnType.kinds {t : ColumnType} (h : t.Fits) :
    (toInt16 t.head.code = cqlColumnTypeSet ∨ toInt16 t.head.code = cqlColumnTypeList ∨
      toInt16 t.head.code = cqlColumnTypeMap ↔ t.primary.isSome) ∧
    (toInt16 t.head.code = cqlColumnTypeMap ↔ t.secondary.isSome) ∧
    t.head.Fits ∧ (∀ o ∈ t.primary, o.Fits) ∧ ∀ o ∈ t.secondary, o.Fits := by
  have hcode : t.head.code < 2 ^ 16 ∧ t.head.Fits := by
    cases t with
    | single o => exact ⟨h.1.code_lt, h.1⟩
    | list | set | map => exact ⟨by norm_num [head, TypeOption.code], by
        norm_num [head, TypeOption.Fits]⟩
  obtain ⟨-, hlist, hmap, hset⟩ := toInt16_code hcode.1
  rw [hlist, hmap, hset]
  cases t with
  | single o =>
    obtain ⟨-, hlist, hmap, hset⟩ := h
    refine ⟨iff_of_false ?_ nofun, iff_of_false hmap nofun, hcode.2, nofun, nofun⟩
    rintro (heq | heq | heq)
    · exact hset heq
    · exact hlist heq
    · exact hmap heq
  | list o =>
    refine ⟨iff_of_true (.inr (.inl rfl)) rfl, ?_, hcode.2, ?_, nofun⟩
    · simp [head, secondary, TypeOption.code]
    · simpa [primary, Fits] using h
  | set o =>
    refine ⟨iff_of_true (.inl rfl) rfl, ?_, hcode.2, ?_, nofun⟩
    · simp [head, secondary, TypeOption.code]
    · simpa [primary, Fits] using h
  | map o o' =>
    refine ⟨iff_of_true (.inr (.inr rfl)) rfl, iff_of_true rfl rfl, hcode.2, ?_, ?_⟩
    · simpa [primary] using h.1
    · simpa [secondary] using h.2

/-! ## Columns -/

/-- The keyspace and the table of a column. -/
theorem columnTable_wire {g : Bool} {c : Column} (hc : c.Fits) (h : Contains mem pos
      (if g then [] else wireString c.keyspace ++ wireString c.table)) :
    ∃ k m t n, columnTable mem g pos =
        .ok ({ keyspace := k, keyspaceSize := m, table := t, tableSize := n }, pos +
          (if g then [] else wireString c.keyspace ++ wireString c.table : List UInt8).length) ∧
      Denotes mem k m (if g then none else c.keyspace) ∧
      Denotes mem t n (if g then none else c.table) := by
  cases g with
  | true =>
    refine ⟨none, 0, none, 0, ?_, ⟨rfl, rfl⟩, rfl, rfl⟩
    rw [columnTable, if_pos rfl, if_pos rfl, List.length_nil, Nat.cast_zero, Int.add_zero]
    rfl
  | false =>
    simp only [Bool.false_eq_true, if_false] at h ⊢
    obtain ⟨hdec, hkeyspace⟩ := decodeString_wire h.left hc.keyspace
    obtain ⟨hdec', htable⟩ := decodeString_wire h.right hc.table
    refine ⟨some (pos + 2), c.keyspace.length, some (pos + (wireString c.keyspace).length + 2),
      c.table.length, ?_, ⟨_, rfl, rfl, hkeyspace⟩, _, rfl, rfl, htable⟩
    rw [columnTable, if_neg Bool.false_ne_true, hdec, ok_bind]
    simp only
    rw [hdec', ok_bind, List.length_append, Nat.cast_add, ← Int.add_assoc]
    rfl

/-- **A column.** -/
theorem parseColumn_wire {g : Bool} {c : Column} (hc : c.Fits)
    (h : Contains mem pos (c.encode g)) :
    ∃ m, parseColumn mem g pos = .ok (m, pos + (c.encode g).length) ∧ c.Described mem g m := by
  obtain ⟨hprimary, hsecondary, hhead, hfirst, hsecond⟩ := ColumnType.kinds hc.type
  obtain ⟨k, m, t, n, htable, hkeyspace, htable'⟩ := columnTable_wire hc h.left
  obtain ⟨hname, hname'⟩ := decodeString_wire h.right.left hc.name
  obtain ⟨p, s, hoption, hclass⟩ := decodeOption_wire h.right.right.left hhead
  generalize hp : pos + _ + 2 = position at hname hname'
  generalize hcode : toInt16 (c.type.head.code : ℤ) = type at hprimary hsecondary hoption
  obtain ⟨column, hcolumn⟩ : ∃ column : ColumnMetaData, column = {
      type, className := p, classNameSize := s, name := some position, nameSize := c.name.length
      keyspace := k, keyspaceSize := m, table := t, tableSize := n } := ⟨_, rfl⟩
  obtain ⟨t₁, p₁, s₁, hfirst', hdescribed⟩ := collection_wire hprimary h.right.right.right.left
    hfirst column (fun t p s => { column with
      collectionPrimaryType := t, collectionPrimaryClass := p, collectionPrimaryClassSize := s })
    (by rw [hcolumn])
  obtain ⟨t₂, p₂, s₂, hsecond', hdescribed'⟩ := collection_wire hsecondary
    h.right.right.right.right hsecond { column with
      collectionPrimaryType := t₁, collectionPrimaryClass := p₁, collectionPrimaryClassSize := s₁ }
    (fun t p s => { column with
      collectionPrimaryType := t₁, collectionPrimaryClass := p₁, collectionPrimaryClassSize := s₁
      collectionSecondaryType := t, collectionSecondaryClass := p
      collectionSecondaryClassSize := s })
    (by rw [hcolumn])
  subst hcolumn
  simp only at hfirst' hsecond'
  refine ⟨{
    type, className := p, classNameSize := s, name := some position, nameSize := c.name.length
    keyspace := k, keyspaceSize := m, table := t, tableSize := n
    collectionPrimaryType := t₁, collectionPrimaryClass := p₁, collectionPrimaryClassSize := s₁
    collectionSecondaryType := t₂, collectionSecondaryClass := p₂
    collectionSecondaryClassSize := s₂ }, ?_, hkeyspace, htable', ⟨position, rfl, rfl, hname'⟩,
    ⟨?_, hclass⟩, hdescribed, hdescribed'⟩
  · rw [parseColumn_eq, htable, ok_bind]
    simp only
    rw [hname, ok_bind]
    simp only
    rw [hoption, ok_bind]
    simp only
    rw [hfirst', ok_bind]
    simp only
    rw [hsecond']
    simp only [Column.encode, ColumnType.encode, List.length_append, Nat.cast_add, Int.add_assoc]
  · rw [← hcode, Option.elim_some]

/-- `column_index.insert` -/
theorem lookup_insertIndex (name x : List UInt8) (i : ℕ) (index : List (List UInt8 × ℕ)) :
    (insertIndex name i index).lookup x =
      (index.lookup x).or (if name == x then some i else none) := by
  unfold insertIndex
  by_cases hx : name = x
  · subst hx
    rcases hlookup : index.lookup name with _ | j
    · simp [List.lookup_append, hlookup]
    · simp [hlookup]
  · have hne : (x == name) = false := by simpa using Ne.symm hx
    split
    · simp [hx]
    · simp [List.lookup_append, List.lookup, hne, hx]

/-- What the loop over the columns makes of the columns that are left. -/
theorem parseColumns_wire (i : ℕ) {b : BodyResult} {columns : List Column}
    (hfits : ∀ c ∈ columns, c.Fits)
    (h : Contains mem pos (columns.flatMap (Column.encode b.globalTableSpec))) :
    ∃ metas index, parseColumns mem columns.length i b pos =
        .ok ({ b with columnMetadata := b.columnMetadata ++ metas, columnIndex := index },
          pos + (columns.flatMap (Column.encode b.globalTableSpec)).length) ∧
      List.Forall₂ (Column.Described mem b.globalTableSpec) columns metas ∧
      ∀ name, index.lookup name = (b.columnIndex.lookup name).or
        (((columns.map Column.name).findIdx? (· == name)).map (· + i)) := by
  induction columns generalizing i b pos with
  | nil =>
    refine ⟨[], b.columnIndex, ?_, .nil, fun name => by simp⟩
    simp [parseColumns]
    rfl
  | cons c columns ih =>
    rw [List.flatMap_cons] at h
    obtain ⟨m, hcolumn, hdescribed⟩ := parseColumn_wire (hfits c List.mem_cons_self) h.left
    obtain ⟨position, hposition, hsize, hname⟩ := hdescribed.name
    obtain ⟨metas, index, hloop, hdescribed', hindex⟩ := ih (i + 1) (b := { b with
      columnMetadata := b.columnMetadata ++ [m]
      columnIndex := insertIndex c.name i b.columnIndex })
      (fun c' hc' => hfits c' (List.mem_cons_of_mem c hc')) h.right
    refine ⟨m :: metas, index, ?_, .cons hdescribed hdescribed', ?_⟩
    · have hread := hname.read
      rw [List.length_cons, parseColumns, hcolumn, ok_bind]
      simp only
      rw [hposition, hsize, Option.getD_some, hread, ok_bind, hloop]
      simp only [List.flatMap_cons, List.length_append, Nat.cast_add, Int.add_assoc,
        List.append_assoc, List.singleton_append]
    · intro name
      rw [hindex, lookup_insertIndex, Option.or_assoc, List.map_cons, List.findIdx?_cons]
      congr 1
      by_cases hc : c.name == name
      · simp [hc]
      · simp [hc, Nat.add_assoc, Nat.add_comm 1 i, Function.comp_def]

/-! ## Metadata -/

theorem ResultMetadata.hasFlag_flags (m : ResultMetadata) :
    toInt32 m.flags = m.flags ∧
    hasFlag m.flags cqlResultFlagHasMorePages = m.pageState.isSome ∧
    hasFlag m.flags cqlResultFlagGlobalTablespec = m.tableSpec.isSome ∧
    hasFlag m.flags cqlResultFlagNoMetadata = m.columns.isOmitted := by
  unfold flags
  generalize m.pageState.isSome = paging, m.tableSpec.isSome = table, m.columns.isOmitted = omitted
  refine ⟨toInt32_eq (by omega) ?_, ?_⟩
  · split <;> split <;> split <;> norm_num
  · revert paging table omitted
    decide

theorem BodyResult.pagingStage_wire {b : BodyResult} {flags : ℤ} {p : Option (List UInt8)}
    (hb : b.pageState = none ∧ b.pageStateSize = 0)
    (hflag : hasFlag flags cqlResultFlagHasMorePages = p.isSome)
    (h : Contains mem pos (p.elim [] wireLongString)) (hp : ∀ text ∈ p, text.length < 2 ^ 31) :
    ∃ pageState pageStateSize, b.pagingStage mem flags pos =
        .ok ({ b with morePages := p.isSome, pageState, pageStateSize },
          pos + (p.elim [] wireLongString).length) ∧
      Denotes mem pageState pageStateSize p := by
  unfold pagingStage
  rw [hflag]
  rcases p with _ | text
  · refine ⟨b.pageState, b.pageStateSize, ?_, hb⟩
    simp
    rfl
  · have hlen : text.length < 2 ^ 32 := (hp text rfl).trans (by norm_num)
    obtain ⟨hdec, htext⟩ := decodeLongString_wire h hlen
    refine ⟨some (pos + 4), text.length, ?_, pos + 4, rfl, rfl, htext⟩
    rw [Option.isSome_some, if_pos rfl, hb.2, hdec, ok_bind]
    rfl

theorem BodyResult.tableStage_wire {b : BodyResult} {flags : ℤ}
    {spec : Option (List UInt8 × List UInt8)}
    (hkeyspace : b.keyspace = none ∧ b.keyspaceSize = 0)
    (htable : b.table = none ∧ b.tableSize = 0)
    (hflag : hasFlag flags cqlResultFlagGlobalTablespec = spec.isSome)
    (h : Contains mem pos (spec.elim [] fun s => wireString s.1 ++ wireString s.2))
    (hspec : ∀ s ∈ spec, s.1.length ≤ 65535 ∧ s.2.length ≤ 65535) :
    ∃ keyspace keyspaceSize table tableSize, b.tableStage mem flags pos =
        .ok ({ b with globalTableSpec := spec.isSome, keyspace, keyspaceSize, table, tableSize },
          pos + (spec.elim [] fun s => wireString s.1 ++ wireString s.2).length) ∧
      Denotes mem keyspace keyspaceSize (spec.map Prod.fst) ∧
      Denotes mem table tableSize (spec.map Prod.snd) := by
  unfold tableStage
  rw [hflag]
  rcases spec with _ | ⟨keyspace, table⟩
  · refine ⟨b.keyspace, b.keyspaceSize, b.table, b.tableSize, ?_, hkeyspace, htable⟩
    simp
    rfl
  · obtain ⟨hk, ht⟩ := hspec _ rfl
    obtain ⟨hdec, htext⟩ := decodeString_wire h.left hk
    obtain ⟨hdec', htext'⟩ := decodeString_wire h.right ht
    refine ⟨_, _, _, _, ?_, ⟨_, rfl, rfl, htext⟩, _, rfl, rfl, htext'⟩
    rw [Option.isSome_some, if_pos rfl, hkeyspace.2, hdec, ok_bind]
    simp only
    rw [htable.2, hdec', ok_bind, Option.elim_some, List.length_append, Nat.cast_add,
      ← Int.add_assoc]
    rfl

/-- The entries of the columns are behind as many blank ones. -/
theorem BodyResult.columnsStage_wire {b : BodyResult} {flags : ℤ} {cs : Columns}
    (hb : b.columnMetadata = [] ∧ b.columnIndex = [])
    (hcount : b.columnCount = cs.count)
    (hflag : hasFlag flags cqlResultFlagNoMetadata = cs.isOmitted)
    (hfits : ∀ c ∈ cs.list, c.Fits)
    (h : Contains mem pos (cs.list.flatMap (Column.encode b.globalTableSpec))) :
    ∃ metas columnIndex, b.columnsStage mem flags pos =
        .ok ({ b with noMetadata := cs.isOmitted, columnIndex
                      columnMetadata := List.replicate cs.list.length default ++ metas },
          pos + (cs.list.flatMap (Column.encode b.globalTableSpec)).length) ∧
      List.Forall₂ (Column.Described mem b.globalTableSpec) cs.list metas ∧
      ∀ name, columnIndex.lookup name = (cs.list.map Column.name).findIdx? (· == name) := by
  obtain ⟨hcolumns, hindex⟩ := hb
  unfold columnsStage
  rw [hflag]
  cases cs with
  | omitted count =>
    refine ⟨[], b.columnIndex, ?_, .nil, fun name => by rw [hindex]; rfl⟩
    simp [Columns.isOmitted, Columns.list, hcolumns]
    rfl
  | listed columns =>
    have hresize : resizeMetadata b.columnCount b.columnMetadata =
        .ok (List.replicate columns.length default) := by
      rw [resizeMetadata, if_neg (by rw [hcount]; omega), hcolumns, hcount]
      simp [Columns.count]
    have hlength : b.columnCount.toNat = columns.length := by
      rw [hcount]
      rfl
    obtain ⟨metas, index, hloop, hdescribed, hlookup⟩ := parseColumns_wire 0 (b := { b with
      noMetadata := false, columnMetadata := List.replicate columns.length default }) hfits h
    refine ⟨metas, index, ?_, hdescribed, ?_⟩
    · rw [Columns.isOmitted, if_neg Bool.false_ne_true, hresize, ok_bind, hlength]
      exact hloop
    · intro name
      rw [hlookup, hindex]
      simp [Columns.list]

/-- **The metadata.**  All of it is read and every field is set, but the entries of the
    columns are behind as many blank ones. -/
theorem BodyResult.parseMetadata_wire {b : BodyResult} {m : ResultMetadata}
    (hb : b.NoMetadata) (hindex : b.columnIndex = []) (hm : m.Fits)
    (h : Contains mem pos m.encode) :
    ∃ b' metas, b.parseMetadata mem pos = .ok (b', pos + m.encode.length) ∧ m.Sets mem b' ∧
      b'.columnMetadata = List.replicate m.columns.list.length default ++ metas ∧
      List.Forall₂ (Column.Described mem m.tableSpec.isSome) m.columns.list metas := by
  obtain ⟨hflags, hpaging, htable, homitted⟩ := m.hasFlag_flags
  have hflagsInt := decodeInt_wire h.left (by
    unfold ResultMetadata.flags
    split <;> split <;> split <;> norm_num)
  have hcount := decodeInt_nat h.right.left hm.count
  obtain ⟨pageState, pageStateSize, hpaging', hpage⟩ := pagingStage_wire
    (b := { b with columnCount := m.columns.count }) hb.pageState hpaging h.right.right.left
    hm.pageState
  obtain ⟨keyspace, keyspaceSize, table, tableSize, htable', hk, ht⟩ := tableStage_wire
    (b := { b with columnCount := m.columns.count, morePages := m.pageState.isSome
                   pageState, pageStateSize })
    hb.keyspace hb.table htable h.right.right.right.left hm.tableSpec
  obtain ⟨metas, index, hcolumns, hdescribed, hlookup⟩ := columnsStage_wire
    (b := { b with columnCount := m.columns.count, morePages := m.pageState.isSome
                   pageState, pageStateSize
                   globalTableSpec := m.tableSpec.isSome
                   keyspace, keyspaceSize, table, tableSize })
    ⟨hb.columns, hindex⟩ rfl homitted hm.columns h.right.right.right.right
  refine ⟨{ b with columnCount := m.columns.count, morePages := m.pageState.isSome
                   pageState, pageStateSize
                   globalTableSpec := m.tableSpec.isSome
                   keyspace, keyspaceSize, table, tableSize
                   noMetadata := m.columns.isOmitted, columnIndex := index
                   columnMetadata := List.replicate m.columns.list.length default ++ metas },
    metas, ?_, ⟨rfl, hpage, rfl, hk, ht, rfl, rfl, hlookup⟩, rfl, hdescribed⟩
  rw [length_bigEndian, Nat.cast_ofNat] at hcount
  simp only [length_bigEndian, Nat.cast_ofNat] at hpaging' htable' hcolumns
  rw [parseMetadata_eq, hflagsInt, ok_bind]
  simp only
  rw [hcount, ok_bind, hflags]
  simp only
  rw [hpaging', ok_bind]
  simp only
  rw [htable', ok_bind]
  simp only
  rw [hcolumns]
  simp only [ResultMetadata.encode, List.length_append, length_bigEndian, Nat.cast_add,
    Nat.cast_ofNat, Int.add_assoc]

namespace ResultMetadata

/-- `parse_metadata` inverts the encoding, and `parse_rows` goes on right behind it. -/
def Parsed (mem : List UInt8) (pos : ℤ) (m : ResultMetadata) : Prop :=
  ∃ b, ({} : BodyResult).parseMetadata mem pos = .ok (b, pos + m.encode.length) ∧ m.Sets mem b ∧
    List.Forall₂ (Column.Described mem m.tableSpec.isSome) m.columns.list b.columnMetadata ∧
    ∀ rowCount : ℤ, -2 ^ 31 ≤ rowCount ∧ rowCount < 2 ^ 31 →
      Contains mem pos (m.encode ++ encodeInt rowCount) →
      ({} : BodyResult).parseRows mem pos =
        .ok ({ b with rowCount, rows := some (pos + m.encode.length + 4) }, true)

variable {m : ResultMetadata}

theorem noMetadata_new : ({} : BodyResult).NoMetadata := ⟨⟨rfl, rfl⟩, ⟨rfl, rfl⟩, ⟨rfl, rfl⟩, rfl⟩

/-- The vector of the columns has an entry for each only if there are none. -/
theorem eq_nil_of_entries {columns : List Column} {metas : List ColumnMetaData} {g : Bool}
    (hmetas : List.Forall₂ (Column.Described mem g) columns metas)
    (hentries : List.Forall₂ (Column.Described mem g) columns
      (List.replicate columns.length default ++ metas)) : columns = [] := by
  have hlen := hmetas.length_eq
  have hlen' := hentries.length_eq
  rw [List.length_append, List.length_replicate] at hlen'
  exact List.eq_nil_of_length_eq_zero (by omega)

theorem Parsed.columns_nil (hparsed : m.Parsed mem pos) (hm : m.Fits)
    (h : Contains mem pos m.encode) : m.columns.list = [] := by
  obtain ⟨b, hparse, -, hentries, -⟩ := hparsed
  obtain ⟨b', metas, hparse', -, hmetadata, hmetas⟩ :=
    BodyResult.parseMetadata_wire noMetadata_new rfl hm h
  obtain rfl : b = b' := (Prod.mk.inj (Except.ok.inj (hparse.symm.trans hparse'))).1
  rw [hmetadata] at hentries
  exact eq_nil_of_entries hmetas hentries

/-- The metadata is parsed as it was encoded just if it has no columns. -/
theorem parsed_iff (hm : m.Fits) (h : Contains mem pos m.encode) :
    m.Parsed mem pos ↔ m.columns.list = [] := by
  constructor
  · intro hparsed
    exact hparsed.columns_nil hm h
  · intro hnil
    obtain ⟨b, metas, hparse, hsets, hmetadata, hmetas⟩ :=
      BodyResult.parseMetadata_wire noMetadata_new rfl hm h
    rw [hnil] at hmetas hmetadata
    obtain rfl : metas = [] := List.forall₂_nil_left_iff.1 hmetas
    refine ⟨b, hparse, hsets, ?_, ?_⟩
    · rw [hnil, hmetadata]
      exact .nil
    · intro rowCount hrange hrows
      have hdec := decodeInt_contains hrows.right hrange
      rw [BodyResult.parseRows, hparse, ok_bind]
      simp only
      rw [hdec]
      rfl

/-- Three columns that are not listed, and a page state. -/
theorem parsed_omitted :
    (⟨some [7], none, .omitted 3⟩ : ResultMetadata).Parsed
      (encode ⟨some [7], none, .omitted 3⟩) 0 :=
  (parsed_iff ⟨by simp, by simp, by simp [Columns.count], by simp [Columns.list]⟩
    (contains_self _)).2 rfl

/-- One column `c` of type 1. -/
def oneColumn : ResultMetadata :=
  ⟨none, some ([107], [116]), .listed [⟨[107], [116], [99], .single (.basic 1)⟩]⟩

theorem fits_oneColumn : oneColumn.Fits := by
  constructor
  · simp [oneColumn]
  · simp [oneColumn]
  · simp [oneColumn, Columns.count]
  · intro c hc
    obtain rfl : c = ⟨[107], [116], [99], .single (.basic 1)⟩ := by
      simpa [oneColumn, Columns.list] using hc
    constructor <;> simp [ColumnType.Fits, TypeOption.Fits, TypeOption.code]

theorem not_parsed_oneColumn :
    oneColumn.Fits ∧ Contains oneColumn.encode 0 oneColumn.encode ∧
      ¬ oneColumn.Parsed oneColumn.encode 0 := by
  refine ⟨fits_oneColumn, contains_self _, ?_⟩
  intro hparsed
  have hnil := hparsed.columns_nil fits_oneColumn (contains_self _)
  simp [oneColumn, Columns.list] at hnil

end ResultMetadata

/-! ## Results with metadata -/

/-- What is around the metadata in a ROWS and in a PREPARED result. -/
inductive MetadataBody where
  | rows (rowCount : ℕ) (cells : List UInt8)
  | prepared (id rest : List UInt8)
  deriving DecidableEq, Repr

namespace MetadataBody

def encode (m : ResultMetadata) : MetadataBody → List UInt8
  | rows rowCount cells => bigEndian 4 2 ++ (m.encode ++ (bigEndian 4 rowCount ++ cells))
  | prepared id rest => bigEndian 4 4 ++ (wireString id ++ (m.encode ++ rest))

def Fits : MetadataBody → Prop
  | rows rowCount _ => rowCount < 2 ^ 31
  | prepared id _ => id.length ≤ 65535

end MetadataBody

/-- The entries describe the columns, and the index leads to the entries of the names. -/
structure BodyResult.Aligned (mem : List UInt8) (globalTableSpec : Bool) (columns : List Column)
    (b : BodyResult) : Prop where
  entries : List.Forall₂ (Column.Described mem globalTableSpec) columns b.columnMetadata
  index : ∀ name i, b.columnIndex.lookup name = some i →
    ∃ c, b.columnMetadata[i]? = some c ∧ Denotes mem c.name c.nameSize (some name)

variable {m : ResultMetadata}

/-- `parse_rows` -/
theorem BodyResult.parseRows_wire (kind : ℤ) {rowCount : ℕ} {cells : List UInt8} (hm : m.Fits)
    (hrows : rowCount < 2 ^ 31)
    (h : Contains mem pos (m.encode ++ (bigEndian 4 rowCount ++ cells))) :
    ∃ b metas, (ofKind kind).parseRows mem pos = .ok (b, true) ∧ b.rowCount = rowCount ∧
      b.rows = some (pos + m.encode.length + 4) ∧ m.Sets mem b ∧
      b.columnMetadata = List.replicate m.columns.list.length default ++ metas ∧
      List.Forall₂ (Column.Described mem m.tableSpec.isSome) m.columns.list metas := by
  obtain ⟨b, metas, hparse, hsets, hmetadata, hmetas⟩ := parseMetadata_wire (b := ofKind kind)
    ⟨⟨rfl, rfl⟩, ⟨rfl, rfl⟩, ⟨rfl, rfl⟩, rfl⟩ rfl hm h.left
  refine ⟨{ b with rowCount, rows := some (pos + m.encode.length + 4) }, metas, ?_, rfl, rfl,
    ?_, hmetadata, hmetas⟩
  · rw [parseRows, hparse, ok_bind]
    simp only
    rw [decodeInt_nat h.right.left hrows]
    rfl
  · exact ⟨hsets.1, hsets.2, hsets.3, hsets.4, hsets.5, hsets.6, hsets.7, hsets.8⟩

/-- `parse_prepared` -/
theorem BodyResult.parsePrepared_wire (kind : ℤ) {id rest : List UInt8} (hm : m.Fits)
    (hid : id.length ≤ 65535) (h : Contains mem pos (wireString id ++ (m.encode ++ rest))) :
    ∃ b metas, (ofKind kind).parsePrepared mem pos = .ok (b, true) ∧ m.Sets mem b ∧
      b.columnMetadata = List.replicate m.columns.list.length default ++ metas ∧
      List.Forall₂ (Column.Described mem m.tableSpec.isSome) m.columns.list metas := by
  obtain ⟨hdec, -⟩ := decodeString_wire h.left hid
  obtain ⟨b, metas, hparse, hsets, hmetadata, hmetas⟩ := parseMetadata_wire
    (b := { ofKind kind with prepared := some (pos + 2), preparedSize := id.length })
    ⟨⟨rfl, rfl⟩, ⟨rfl, rfl⟩, ⟨rfl, rfl⟩, rfl⟩ rfl hm h.right.left
  refine ⟨b, metas, ?_, hsets, hmetadata, hmetas⟩
  rw [parsePrepared, show (ofKind kind).preparedSize = 0 from rfl, hdec, ok_bind]
  simp only
  rw [hparse]
  rfl

/-- `consume`, of a ROWS result -/
theorem BodyResult.consume_rows {rowCount : ℕ} {cells : List UInt8} (hm : m.Fits)
    (hrows : rowCount < 2 ^ 31)
    (h : Contains mem 0 (MetadataBody.encode m (.rows rowCount cells))) :
    ∃ b metas, BodyResult.consume mem {} = .ok (b, true) ∧ b.rowCount = rowCount ∧
      b.rows = some (0 + 4 + m.encode.length + 4) ∧ m.Sets mem b ∧
      b.columnMetadata = List.replicate m.columns.list.length default ++ metas ∧
      List.Forall₂ (Column.Described mem m.tableSpec.isSome) m.columns.list metas := by
  have hkind := decodeInt_nat h.left (by norm_num)
  obtain ⟨b, metas, hparse, hwire⟩ := parseRows_wire 2 hm hrows h.right
  refine ⟨b, metas, ?_, hwire⟩
  rw [consume, hkind, ok_bind]
  exact hparse

/-- `consume` -/
theorem MetadataBody.consume_wire {body : MetadataBody} (hm : m.Fits) (hbody : body.Fits)
    (h : Contains mem 0 (body.encode m)) :
    ∃ b metas, BodyResult.consume mem {} = .ok (b, true) ∧ m.Sets mem b ∧
      b.columnMetadata = List.replicate m.columns.list.length default ++ metas ∧
      List.Forall₂ (Column.Described mem m.tableSpec.isSome) m.columns.list metas := by
  cases body with
  | rows rowCount cells =>
    obtain ⟨b, metas, hconsume, -, -, hwire⟩ := BodyResult.consume_rows hm hbody h
    exact ⟨b, metas, hconsume, hwire⟩
  | prepared id rest =>
    have hkind := decodeInt_nat h.left (by norm_num)
    obtain ⟨b, metas, hparse, hwire⟩ := BodyResult.parsePrepared_wire 4 hm hbody h.right
    refine ⟨b, metas, ?_, hwire⟩
    rw [BodyResult.consume, hkind, ok_bind]
    exact hparse

theorem MetadataBody.columns_nil {body : MetadataBody} {columns : List Column} {b : BodyResult}
    (hm : m.Fits) (hbody : body.Fits) (hlisted : m.columns = .listed columns)
    (h : Contains mem 0 (body.encode m)) (hconsume : BodyResult.consume mem {} = .ok (b, true))
    (haligned : b.Aligned mem m.tableSpec.isSome columns) : columns = [] := by
  obtain ⟨b', metas, hconsume', -, hmetadata, hmetas⟩ := consume_wire hm hbody h
  obtain rfl : b = b' := (Prod.mk.inj (Except.ok.inj (hconsume.symm.trans hconsume'))).1
  have hentries := haligned.entries
  rw [hlisted] at hmetadata hmetas
  rw [hmetadata] at hentries
  exact ResultMetadata.eq_nil_of_entries hmetas hentries

/-- `consume` aligns the entries with the columns just if there are none. -/
theorem MetadataBody.aligned_iff {body : MetadataBody} {columns : List Column} (hm : m.Fits)
    (hbody : body.Fits) (hlisted : m.columns = .listed columns)
    (h : Contains mem 0 (body.encode m)) :
    (∃ b, BodyResult.consume mem {} = .ok (b, true) ∧
      b.Aligned mem m.tableSpec.isSome columns) ↔ columns = [] := by
  constructor
  · rintro ⟨b, hconsume, haligned⟩
    exact columns_nil hm hbody hlisted h hconsume haligned
  · rintro rfl
    obtain ⟨b, metas, hconsume, hsets, hmetadata, hmetas⟩ := consume_wire hm hbody h
    rw [hlisted] at hmetadata hmetas
    obtain rfl : metas = [] := List.forall₂_nil_left_iff.1 hmetas
    refine ⟨b, hconsume, ?_, ?_⟩
    · rw [hmetadata]
      exact .nil
    · intro name i hlookup
      rw [hsets.columnIndex, hlisted] at hlookup
      nomatch hlookup

/-- A prepared statement without columns. -/
theorem MetadataBody.aligned_none : ∃ b, BodyResult.consume
      (encode ⟨none, none, .listed []⟩ (.prepared [5] [])) {} = .ok (b, true) ∧
    b.Aligned (encode ⟨none, none, .listed []⟩ (.prepared [5] [])) false [] :=
  (aligned_iff ⟨by simp, by simp, by simp [Columns.count], by simp [Columns.list]⟩
    (by simp [Fits]) rfl (contains_self _)).2 rfl

theorem MetadataBody.not_aligned_oneColumn :
    ResultMetadata.oneColumn.Fits ∧
    ¬ ∃ b, BodyResult.consume (encode ResultMetadata.oneColumn (.rows 0 [])) {} = .ok (b, true) ∧
      b.Aligned (encode ResultMetadata.oneColumn (.rows 0 [])) true
        [⟨[107], [116], [99], .single (.basic 1)⟩] := by
  refine ⟨ResultMetadata.fits_oneColumn, ?_⟩
  rintro ⟨b, hconsume, haligned⟩
  have hbody : (rows 0 []).Fits := Nat.two_pow_pos 31
  have hnil := columns_nil ResultMetadata.fits_oneColumn hbody rfl (contains_self _) hconsume
    haligned
  nomatch hnil

end CqlClient
