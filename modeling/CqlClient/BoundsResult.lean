/-
  CqlClient formalization — RESULT bodies, their rows, and the end of the body.
-/
import CqlClient.Bounds

namespace CqlClient

open Word Wire Wire.Parser

variable {mem : List UInt8} {pos : ℤ} {o : Option (List UInt8)}

/-- The pairs of a pointer and a size that a column has. -/
def ColumnMetaData.pairs (c : ColumnMetaData) : List (Option ℤ × ℕ) :=
  [(c.keyspace, c.keyspaceSize), (c.table, c.tableSize), (c.name, c.nameSize),
    (c.className, c.classNameSize), (c.collectionPrimaryClass, c.collectionPrimaryClassSize),
    (c.collectionSecondaryClass, c.collectionSecondaryClassSize)]

/-- The pairs of a pointer and a size that a RESULT has. -/
def BodyResult.pairs (b : BodyResult) : List (Option ℤ × ℕ) :=
  [(b.pageState, b.pageStateSize), (b.prepared, b.preparedSize), (b.change, b.changeSize),
    (b.keyspace, b.keyspaceSize), (b.table, b.tableSize)] ++
    b.columnMetadata.flatMap ColumnMetaData.pairs

def ColumnMetaData.Inside (mem : List UInt8) (c : ColumnMetaData) : Prop :=
  ∀ pair ∈ c.pairs, InBody mem pair

def BodyResult.Inside (mem : List UInt8) (b : BodyResult) : Prop :=
  ∀ pair ∈ b.pairs, InBody mem pair

/-! ## Columns -/

theorem decodeOption_follows (hc : Cursor mem pos o) :
    Follows Crash.OfLength (decodeOption mem pos none 0) (o.bind Layout.option) fun y r =>
      Cursor mem r.2.2.2 (y.map Prod.snd) ∧ (InBody mem (r.2.1, r.2.2.1) ↔ y.isSome) ∧
        ∀ type rest, y = some (type, rest) → r.1 = type := by
  unfold decodeOption Layout.option
  rw [bind_bind]
  have hshort := decodeShort_follows hc id
  simp only [id_eq, bind_pure] at hshort
  refine hshort.bind ?_
  rintro ⟨type, next⟩ ⟨v, rest, hy, -, htype, -, hrest⟩
  rw [hy, Option.bind_some, ← show type = toInt16 v from htype]
  simp only
  rw [bind_apply]
  by_cases hcustom : type = cqlColumnTypeCustom
  · rw [if_pos hcustom, announced, if_pos hcustom]
    refine (decodeString_follows hrest).bind ?_
    rintro ⟨name, size, next'⟩ hspan
    have hiff := hspan.inBody_iff
    have hcursor := hspan.cursor
    change Cursor mem next' _ at hcursor
    rw [Option.bind_some] at hiff hcursor ⊢
    rcases hs : Layout.string rest with _ | ⟨_, rest'⟩
    · rw [hs] at hiff hcursor
      exact ⟨hcursor, hiff, nofun⟩
    · rw [hs] at hiff hcursor
      refine ⟨hcursor, hiff, ?_⟩
      intro type' rest'' hsome
      cases hsome
      rfl
  · rw [if_neg hcustom, announced, if_neg hcustom]
    refine ⟨hrest, iff_of_true trivial rfl, ?_⟩
    intro type' rest'' hsome
    cases hsome
    rfl

theorem ColumnMetaData.inside_primary {c : ColumnMetaData} (h : c.collectionPrimaryClass = none)
    (t : ℤ) (p : Option ℤ) (n : ℕ) :
    Inside mem { c with collectionPrimaryType := t, collectionPrimaryClass := p
                        collectionPrimaryClassSize := n } ↔ c.Inside mem ∧ InBody mem (p, n) := by
  simp only [Inside, pairs, List.forall_mem_cons, h, InBody]
  tauto

theorem ColumnMetaData.inside_secondary {c : ColumnMetaData}
    (h : c.collectionSecondaryClass = none) (t : ℤ) (p : Option ℤ) (n : ℕ) :
    Inside mem { c with collectionSecondaryType := t, collectionSecondaryClass := p
                        collectionSecondaryClassSize := n } ↔ c.Inside mem ∧ InBody mem (p, n) := by
  simp only [Inside, pairs, List.forall_mem_cons, h, InBody]
  tauto

/-- A type of a collection, if the column has it. -/
theorem collection_follows (P : Prop) [Decidable P] (hc : Cursor mem pos o)
    {column : ColumnMetaData} (hin : column.Inside mem ↔ o.isSome)
    {set : ℤ → Option ℤ → ℕ → ColumnMetaData}
    (hset : ∀ t c n, (set t c n).Inside mem ↔ column.Inside mem ∧ InBody mem (c, n)) :
    Follows Crash.OfLength
      (if P then do
        let (t, c, n, buffer) ← decodeOption mem pos none 0
        return (set t c n, buffer)
      else return (column, pos))
      (o.bind (announced P (discard Layout.option))) fun y r =>
        Cursor mem r.2 (y.map Prod.snd) ∧ (r.1.Inside mem ↔ y.isSome) ∧
          (r.1 = column ∨ ∃ t c n, r.1 = set t c n) := by
  rcases o with _ | rest
  · -- the column is not inside, whatever else is set
    have hout : ¬ column.Inside mem := fun h => nomatch hin.1 h
    by_cases hp : P
    · have h := decodeOption_follows hc
      rw [if_pos hp]
      rcases hx : decodeOption mem pos none 0 with e | ⟨t, c, n, next⟩
      · rw [hx] at h
        exact ⟨rfl, h.2⟩
      · rw [hx] at h
        refine Follows.ok ⟨h.1, iff_of_false ?_ nofun, .inr ⟨t, c, n, rfl⟩⟩
        rw [hset t c n]
        exact fun hin' => hout hin'.1
    · rw [if_neg hp]
      exact ⟨hc, hin, .inl rfl⟩
  · have hcol : column.Inside mem := hin.2 rfl
    by_cases hp : P
    · rw [if_pos hp, announced, if_pos hp, Option.bind_some, discard_apply]
      have h := decodeOption_follows hc
      rw [Option.bind_some] at h
      rcases hx : decodeOption mem pos none 0 with e | ⟨t, c, n, next⟩
      · rw [hx] at h
        obtain ⟨hnone, he⟩ := h
        exact ⟨by rw [hnone]; rfl, he⟩
      · rw [hx] at h
        obtain ⟨hcursor, hiff, -⟩ := h
        refine Follows.ok ⟨?_, ?_, .inr ⟨t, c, n, rfl⟩⟩
        · rwa [Option.map_map]
        · rw [hset t c n, Option.isSome_map, ← hiff]
          exact and_iff_right hcol
    · rw [if_neg hp, announced, if_neg hp]
      exact ⟨hc, iff_of_true hcol rfl, .inl rfl⟩

/-- Two strings, from which the decoder makes `set`. -/
theorem strings_follows {β : Type} (hc : Cursor mem pos o) (set : ℤ → ℕ → ℤ → ℕ → β) :
    Follows Crash.OfLength
      (do
        let (k, m, buffer) ← decodeString mem pos 0
        let (t, n, buffer) ← decodeString mem buffer 0
        return (set k m t n, buffer))
      (o.bind (do Layout.string; Layout.string : Parser Unit)) fun y r =>
        Cursor mem r.2 (y.map Prod.snd) ∧ ∃ k m t n, r.1 = set k m t n ∧
          (InBody mem (some k, m) ∧ InBody mem (some t, n) ↔ y.isSome) := by
  rw [bind_bind]
  refine (decodeString_follows hc).bind ?_
  rintro ⟨k, m, next⟩ hk
  rw [bind_snd]
  refine (decodeString_follows hk.cursor).seq ?_
  rintro ⟨t, n, next'⟩ ht
  have hkin := hk.inBody_iff
  have htin := ht.inBody_iff
  rw [Option.isSome_map] at htin
  refine Follows.ok ⟨ht.cursor, k, m, t, n, rfl, ?_⟩
  rw [hkin, htin]
  refine and_iff_right_of_imp fun hsome => ?_
  rcases hy : (o.bind Layout.string).map Prod.snd with _ | rest
  · rw [hy] at hsome
    cases hsome
  · rfl

/-- The first step of `parseColumn`: the keyspace and the table. -/
def columnTable (mem : List UInt8) (globalTableSpec : Bool) (buffer : ℤ) :
    Except Crash (ColumnMetaData × ℤ) :=
  if globalTableSpec then return ({}, buffer)
  else do
    let (keyspace, keyspaceSize, buffer) ← decodeString mem buffer 0
    let (table, tableSize, buffer) ← decodeString mem buffer 0
    return ({ keyspace := some keyspace, keyspaceSize, table := some table, tableSize }, buffer)

theorem ite_bind {P : Prop} [Decidable P] {α β : Type} (x y : Except Crash α)
    (f : α → Except Crash β) : (if P then x else y) >>= f = if P then x >>= f else y >>= f := by
  split <;> rfl

/-- `parseColumn`, step by step. -/
theorem parseColumn_eq (g : Bool) (buffer : ℤ) : parseColumn mem g buffer = (do
    let (column, buffer) ← columnTable mem g buffer
    let (name, nameSize, buffer) ← decodeString mem buffer column.nameSize
    let (type, className, classNameSize, buffer) ←
      decodeOption mem buffer column.className column.classNameSize
    let column := { column with name := some name, nameSize, type, className, classNameSize }
    let (column, buffer) ← (
      if type = cqlColumnTypeSet ∨ type = cqlColumnTypeList ∨ type = cqlColumnTypeMap then do
        let (t, c, n, buffer) ← decodeOption mem buffer column.collectionPrimaryClass
          column.collectionPrimaryClassSize
        return ({ column with collectionPrimaryType := t, collectionPrimaryClass := c
                              collectionPrimaryClassSize := n }, buffer)
      else return (column, buffer))
    if type = cqlColumnTypeMap then do
      let (t, c, n, buffer) ← decodeOption mem buffer column.collectionSecondaryClass
        column.collectionSecondaryClassSize
      return ({ column with collectionSecondaryType := t, collectionSecondaryClass := c
                            collectionSecondaryClassSize := n }, buffer)
    else return (column, buffer)) := by
  unfold parseColumn columnTable
  simp only [ite_bind, bind_assoc, pure_bind]

theorem columnTable_follows (g : Bool) (hc : Cursor mem pos o) :
    Follows Crash.OfLength (columnTable mem g pos)
      (o.bind (announced (g = false) (do Layout.string; Layout.string))) fun y r =>
        Cursor mem r.2 (y.map Prod.snd) ∧ ∃ k m t n,
          r.1 = { keyspace := k, keyspaceSize := m, table := t, tableSize := n } ∧
          (y.isSome = true → InBody mem (k, m) ∧ InBody mem (t, n)) := by
  unfold columnTable
  by_cases hg : g = true
  · rw [if_pos hg, announced, if_neg (by rw [hg]; decide)]
    refine Follows.ok ⟨?_, none, 0, none, 0, rfl, fun _ => ⟨trivial, trivial⟩⟩
    rcases o with _ | rest
    · exact hc
    · exact hc
  · rw [if_neg hg, announced, if_pos (Bool.eq_false_iff.2 hg)]
    refine (strings_follows hc fun k m t n => ({
      keyspace := some k, keyspaceSize := m, table := some t, tableSize := n } :
      ColumnMetaData)).mono ?_
    rintro ⟨column, next⟩ ⟨hcursor, k, m, t, n, hcolumn, hiff⟩
    exact ⟨hcursor, some k, m, some t, n, hcolumn, hiff.2⟩

theorem parseColumn_follows (g : Bool) (hc : Cursor mem pos o) :
    Follows Crash.OfLength (parseColumn mem g pos) (o.bind (Layout.column g)) fun y r =>
      Cursor mem r.2 (y.map Prod.snd) ∧ (r.1.Inside mem ↔ y.isSome) ∧
        ∃ name, r.1.name = some name := by
  rw [parseColumn_eq]
  unfold Layout.column
  rw [bind_bind]
  refine (columnTable_follows g hc).bind ?_
  generalize o.bind (announced (g = false) _) = y₁
  rintro ⟨column, next⟩ ⟨hcursor, k, m, t, n, hcolumn, htable⟩
  obtain rfl : column = _ := hcolumn
  rw [bind_snd, bind_bind]
  refine (decodeString_follows hcursor).bind ?_
  generalize hy₂ : (y₁.map Prod.snd).bind Layout.string = y₂
  rintro ⟨name, nameSize, next⟩ hname
  rw [bind_snd, bind_bind]
  refine (decodeOption_follows hname.cursor).bind ?_
  generalize hy₃ : (y₂.map Prod.snd).bind Layout.option = y₃
  rintro ⟨type, className, classNameSize, next⟩ ⟨hcursor, hclass, htype⟩
  have h₂ : y₃.isSome = true → y₂.isSome = true := fun h => by
    rw [← hy₃] at h
    simpa using Option.isSome_of_isSome_bind h
  have h₁ : y₂.isSome = true → y₁.isSome = true := fun h => by
    rw [← hy₂] at h
    simpa using Option.isSome_of_isSome_bind h
  have hin : ColumnMetaData.Inside mem {
      type, className, classNameSize
      keyspace := k, keyspaceSize := m
      table := t, tableSize := n
      name := some name, nameSize } ↔ y₃.isSome := by
    constructor
    · exact fun h => hclass.1 (h (className, classNameSize) (by simp [ColumnMetaData.pairs]))
    · intro h
      have hn : InBody mem (some name, nameSize) :=
        hname.inBody_iff.2 (by rw [Option.isSome_map]; exact h₂ h)
      obtain ⟨hk, ht⟩ := htable (h₁ (h₂ h))
      intro pair hpair
      simp only [ColumnMetaData.pairs, List.mem_cons, List.not_mem_nil, or_false] at hpair
      rcases hpair with rfl | rfl | rfl | rfl | rfl | rfl
      · exact hk
      · exact ht
      · exact hn
      · exact hclass.2 h
      · trivial
      · trivial
  have hy : (y₃.bind fun x => (announced (x.1 = cqlColumnTypeSet ∨ x.1 = cqlColumnTypeList ∨
      x.1 = cqlColumnTypeMap) (discard Layout.option) >>= fun _ =>
      announced (x.1 = cqlColumnTypeMap) (discard Layout.option)) x.2) =
      (((y₃.map Prod.snd).bind (announced (type = cqlColumnTypeSet ∨ type = cqlColumnTypeList ∨
        type = cqlColumnTypeMap) (discard Layout.option))).map Prod.snd).bind
        (announced (type = cqlColumnTypeMap) (discard Layout.option)) := by
    rcases y₃ with _ | ⟨type', rest⟩
    · rfl
    · obtain rfl : type = type' := htype type' rest rfl
      exact bind_snd _ _
  rw [hy, ← bind_snd]
  rw [← Option.isSome_map] at hin
  refine (collection_follows (type = cqlColumnTypeSet ∨ type = cqlColumnTypeList ∨
    type = cqlColumnTypeMap) hcursor hin (ColumnMetaData.inside_primary rfl)).bind ?_
  rintro ⟨column, next⟩ ⟨hcursor, hin, hcolumn⟩
  rw [bind_snd]
  rw [← Option.isSome_map] at hin
  obtain ⟨hclass, hsize, hname⟩ : column.collectionSecondaryClass = none ∧
      column.collectionSecondaryClassSize = 0 ∧ column.name = some name := by
    rcases hcolumn with h | ⟨t, c, n, h⟩
    · obtain rfl : column = _ := h
      exact ⟨rfl, rfl, rfl⟩
    · obtain rfl : column = _ := h
      exact ⟨rfl, rfl, rfl⟩
  simp only [hclass, hsize]
  refine (collection_follows (type = cqlColumnTypeMap) hcursor hin
    (ColumnMetaData.inside_secondary hclass)).mono ?_
  rintro ⟨column', next'⟩ ⟨hcursor, hin, hcolumn⟩
  refine ⟨hcursor, hin, name, ?_⟩
  rcases hcolumn with h | ⟨t, c, n, h⟩
  · exact (congrArg _ h).trans hname
  · exact (congrArg _ h).trans hname

/-! ## Metadata -/

theorem BodyResult.inside_column (b : BodyResult) (c : ColumnMetaData)
    (index : List (List UInt8 × ℕ)) :
    Inside mem { b with columnMetadata := b.columnMetadata ++ [c], columnIndex := index } ↔
      b.Inside mem ∧ c.Inside mem := by
  simp only [Inside, ColumnMetaData.Inside, pairs, List.flatMap_append, List.flatMap_cons,
    List.flatMap_nil, List.append_nil, ← List.append_assoc, List.forall_mem_append]

/-- What the loop over the columns keeps. -/
theorem parseColumns_follows (n i : ℕ) {b : BodyResult} (hc : Cursor mem pos o)
    (hin : b.Inside mem ↔ o.isSome) :
    Follows Crash.OfLength (parseColumns mem n i b pos)
      (o.bind (times (Layout.column b.globalTableSpec) n)) fun y r =>
        Cursor mem r.2 (y.map Prod.snd) ∧ (r.1.Inside mem ↔ y.isSome) ∧
          r.1.columnCount = b.columnCount ∧ r.1.rows = b.rows := by
  induction n generalizing i b pos o with
  | zero =>
    rcases o with _ | rest
    · exact ⟨hc, hin, rfl, rfl⟩
    · exact ⟨hc, hin, rfl, rfl⟩
  | succ n ih =>
    rw [times, bind_bind, parseColumns]
    refine (parseColumn_follows _ hc).bind ?_
    generalize hy : o.bind (Layout.column b.globalTableSpec) = y
    rintro ⟨column, next⟩ ⟨hcursor, hcol, name, hname⟩
    rw [bind_snd]
    have hname' :
        ((y.map Prod.snd).bind (times (Layout.column b.globalTableSpec) n)).isSome = true →
        InBody mem (some (column.name.getD 0), column.nameSize) := fun h => by
      have hsome := Option.isSome_of_isSome_bind h
      rw [Option.isSome_map] at hsome
      have hpair := hcol.2 hsome (column.name, column.nameSize) (by simp [ColumnMetaData.pairs])
      rw [show column.name = some name from hname] at hpair ⊢
      exact hpair
    refine (readIn_follows hname').seq ?_
    intro string _
    refine ih (i + 1) (b := _) hcursor ?_
    rw [Option.isSome_map, ← hcol]
    refine (b.inside_column column _).trans (and_iff_right_of_imp fun h => ?_)
    have hsome := hcol.1 h
    rw [← hy] at hsome
    exact hin.2 (Option.isSome_of_isSome_bind hsome)

/-- `parse_metadata`, the page state. -/
def BodyResult.pagingStage (mem : List UInt8) (b : BodyResult) (flags buffer : ℤ) :
    Except Crash (BodyResult × ℤ) :=
  if hasFlag flags cqlResultFlagHasMorePages then do
    let (p, n, buffer) ← decodeLongString mem buffer b.pageStateSize
    return ({ b with morePages := true, pageState := some p, pageStateSize := n }, buffer)
  else return ({ b with morePages := false }, buffer)

/-- `parse_metadata`, the keyspace and the table. -/
def BodyResult.tableStage (mem : List UInt8) (b : BodyResult) (flags buffer : ℤ) :
    Except Crash (BodyResult × ℤ) :=
  if hasFlag flags cqlResultFlagGlobalTablespec then do
    let (keyspace, keyspaceSize, buffer) ← decodeString mem buffer b.keyspaceSize
    let (table, tableSize, buffer) ← decodeString mem buffer b.tableSize
    return ({ b with globalTableSpec := true, keyspace := some keyspace, keyspaceSize
                     table := some table, tableSize }, buffer)
  else return ({ b with globalTableSpec := false }, buffer)

/-- `parse_metadata`, the columns. -/
def BodyResult.columnsStage (mem : List UInt8) (b : BodyResult) (flags buffer : ℤ) :
    Except Crash (BodyResult × ℤ) :=
  if hasFlag flags cqlResultFlagNoMetadata then return ({ b with noMetadata := true }, buffer)
  else do
    let columnMetadata ← resizeMetadata b.columnCount b.columnMetadata
    parseColumns mem b.columnCount.toNat 0 { b with noMetadata := false, columnMetadata } buffer

theorem BodyResult.parseMetadata_eq (b : BodyResult) (input : ℤ) :
    b.parseMetadata mem input = (do
      let (flags, buffer) ← decodeInt mem input
      let (columnCount, buffer) ← decodeInt mem buffer
      let (b, buffer) ← { b with columnCount }.pagingStage mem flags buffer
      let (b, buffer) ← b.tableStage mem flags buffer
      b.columnsStage mem flags buffer) := by
  unfold parseMetadata pagingStage tableStage columnsStage
  simp only [ite_bind, bind_assoc, pure_bind]

/-- Before the metadata nothing of it is set. -/
structure BodyResult.NoMetadata (b : BodyResult) : Prop where
  pageState : b.pageState = none ∧ b.pageStateSize = 0
  keyspace : b.keyspace = none ∧ b.keyspaceSize = 0
  table : b.table = none ∧ b.tableSize = 0
  columns : b.columnMetadata = []

theorem announced_true {P : Prop} [Decidable P] (h : P) (p : Parser Unit) : announced P p = p :=
  if_pos h

theorem bind_announced_false {P : Prop} [Decidable P] (h : ¬ P) (p : Parser Unit)
    (o : Option (List UInt8)) : o.bind (announced P p) = o.map fun rest => ((), rest) := by
  rw [announced, if_neg h]
  cases o <;> rfl

theorem BodyResult.pagingStage_follows {b : BodyResult} (hc : Cursor mem pos o)
    (hin : b.Inside mem ↔ o.isSome) (hb : b.pageState = none ∧ b.pageStateSize = 0)
    (flags : ℤ) :
    Follows Crash.OfLength (b.pagingStage mem flags pos)
      (o.bind (announced (hasFlag flags cqlResultFlagHasMorePages = true) Layout.longString))
      fun y r => Cursor mem r.2 (y.map Prod.snd) ∧ (r.1.Inside mem ↔ y.isSome) ∧
        ∃ more p n, r.1 = { b with morePages := more, pageState := p, pageStateSize := n } := by
  obtain ⟨hp, hn⟩ := hb
  unfold pagingStage
  by_cases hflag : hasFlag flags cqlResultFlagHasMorePages = true
  · rw [if_pos hflag, announced_true hflag, hn]
    refine (decodeLongString_follows hc).seq ?_
    rintro ⟨p, n, next⟩ hspan
    have hiff := hspan.inBody_iff
    rw [Option.isSome_map] at hiff
    refine Follows.ok ⟨hspan.cursor, ?_, _, _, _, rfl⟩
    have hset : Inside mem { b with morePages := true, pageState := some p, pageStateSize := n } ↔
        b.Inside mem ∧ InBody mem (some p, n) := by
      simp only [Inside, pairs, List.cons_append, List.nil_append, List.forall_mem_cons, hp, InBody]
      tauto
    rw [hset, hin, hiff]
    exact and_iff_right_of_imp Option.isSome_of_isSome_bind
  · rw [if_neg hflag, bind_announced_false hflag]
    refine Follows.ok ⟨?_, ?_, false, b.pageState, b.pageStateSize, rfl⟩
    · rw [Option.map_map]
      simpa using hc
    · rw [Option.isSome_map]
      exact hin

theorem BodyResult.tableStage_follows {b : BodyResult} (hc : Cursor mem pos o)
    (hin : b.Inside mem ↔ o.isSome) (hk : b.keyspace = none ∧ b.keyspaceSize = 0)
    (ht : b.table = none ∧ b.tableSize = 0) (flags : ℤ) :
    Follows Crash.OfLength (b.tableStage mem flags pos)
      (o.bind (announced (hasFlag flags cqlResultFlagGlobalTablespec = true)
        (do Layout.string; Layout.string)))
      fun y r => Cursor mem r.2 (y.map Prod.snd) ∧ (r.1.Inside mem ↔ y.isSome) ∧
        ∃ k m t n, r.1 = { b with
          globalTableSpec := hasFlag flags cqlResultFlagGlobalTablespec
          keyspace := k, keyspaceSize := m, table := t, tableSize := n } := by
  unfold tableStage
  by_cases hflag : hasFlag flags cqlResultFlagGlobalTablespec = true
  · rw [if_pos hflag, announced_true hflag, hk.2, ht.2]
    refine (strings_follows hc fun k m t n => { b with
      globalTableSpec := true, keyspace := some k, keyspaceSize := m
      table := some t, tableSize := n }).mono ?_
    rintro ⟨b', next⟩ ⟨hcursor, k, m, t, n, hb', hiff⟩
    obtain rfl : b' = _ := hb'
    refine ⟨hcursor, ?_, some k, m, some t, n, by rw [hflag]⟩
    have hset : Inside mem { b with
        globalTableSpec := true, keyspace := some k, keyspaceSize := m
        table := some t, tableSize := n } ↔
        b.Inside mem ∧ InBody mem (some k, m) ∧ InBody mem (some t, n) := by
      simp only [Inside, pairs, List.cons_append, List.nil_append, List.forall_mem_cons, hk.1,
        ht.1, InBody]
      tauto
    rw [hset, hin, hiff]
    exact and_iff_right_of_imp Option.isSome_of_isSome_bind
  · rw [if_neg hflag, bind_announced_false hflag]
    refine Follows.ok ⟨?_, ?_, b.keyspace, b.keyspaceSize, b.table, b.tableSize,
      by rw [Bool.eq_false_iff.2 hflag]⟩
    · rw [Option.map_map]
      simpa using hc
    · rw [Option.isSome_map]
      exact hin

/-- The columns that `resize` puts first are empty. -/
theorem BodyResult.inside_resized {b : BodyResult} (hcolumns : b.columnMetadata = []) (n : ℕ) :
    Inside mem { b with
      noMetadata := false
      columnMetadata := b.columnMetadata.take n ++
        List.replicate (n - b.columnMetadata.length) default } ↔ b.Inside mem := by
  have hdefault : ∀ k, ∀ pair ∈ (List.replicate k (default : ColumnMetaData)).flatMap
      ColumnMetaData.pairs, InBody mem pair := by
    intro k pair hpair
    obtain ⟨c, hc, hpair⟩ := List.mem_flatMap.1 hpair
    obtain rfl := List.eq_of_mem_replicate hc
    simp only [ColumnMetaData.pairs, List.mem_cons, List.not_mem_nil, or_false, or_self,
      show (default : ColumnMetaData) = {} from rfl] at hpair
    exact hpair ▸ trivial
  simp only [Inside, pairs, hcolumns, List.take_nil, List.nil_append, List.forall_mem_append,
    List.flatMap_nil]
  exact and_congr_right fun _ => iff_of_true (hdefault _) nofun

theorem BodyResult.columnsStage_follows {b : BodyResult} (hc : Cursor mem pos o)
    (hin : b.Inside mem ↔ o.isSome) (hcolumns : b.columnMetadata = []) (flags : ℤ) :
    Follows Crash.OfLength (b.columnsStage mem flags pos)
      (o.bind (announced (hasFlag flags cqlResultFlagNoMetadata = false) do
        guard (0 ≤ b.columnCount)
        times (Layout.column b.globalTableSpec) b.columnCount.toNat))
      fun y r => Cursor mem r.2 (y.map Prod.snd) ∧ (r.1.Inside mem ↔ y.isSome) ∧
        r.1.columnCount = b.columnCount ∧ r.1.rows = b.rows := by
  unfold columnsStage
  by_cases hflag : hasFlag flags cqlResultFlagNoMetadata = true
  · rw [if_pos hflag, bind_announced_false (by rw [hflag]; decide)]
    refine Follows.ok ⟨?_, ?_, rfl, rfl⟩
    · rw [Option.map_map]
      simpa using hc
    · rw [Option.isSome_map]
      exact hin
  · rw [if_neg hflag, announced_true (Bool.eq_false_iff.2 hflag), resizeMetadata]
    by_cases hneg : b.columnCount < 0
    · rw [if_pos hneg]
      refine ⟨?_, trivial⟩
      rcases o with _ | rest
      · rfl
      · rw [Option.bind_some, bind_apply, guard_apply, if_neg (not_le.2 hneg)]
        rfl
    · rw [if_neg hneg]
      have hy : o.bind (do
          guard (0 ≤ b.columnCount)
          times (Layout.column b.globalTableSpec) b.columnCount.toNat : Parser Unit) =
          o.bind (times (Layout.column b.globalTableSpec) b.columnCount.toNat) := by
        rcases o with _ | rest
        · rfl
        · rw [Option.bind_some, bind_apply, guard_apply, if_pos (not_lt.1 hneg)]
          rfl
      rw [hy]
      refine parseColumns_follows _ 0 (b := _) hc ?_
      rw [← hin, ← BodyResult.inside_resized (b := b) hcolumns b.columnCount.toNat]

/-- **The metadata** is inside exactly when the grammar accepts it. -/
theorem BodyResult.parseMetadata_follows {b : BodyResult} (hc : Cursor mem pos o)
    (hin : b.Inside mem ↔ o.isSome) (hb : b.NoMetadata) :
    Follows Crash.OfLength (b.parseMetadata mem pos) (o.bind (Layout.metadata Layout.longString))
      fun y r => Cursor mem r.2 (y.map Prod.snd) ∧ (r.1.Inside mem ↔ y.isSome) ∧
        (∀ columns rest, y = some (columns, rest) → r.1.columnCount = columns) ∧
        r.1.rows = b.rows := by
  rw [parseMetadata_eq]
  unfold Layout.metadata
  rw [bind_bind]
  refine (decodeInt_follows hc fun n => toInt32 n).bind ?_
  rintro ⟨flags, next⟩ ⟨v, rest, hy, -, hflags, -, hcursor⟩
  have ho : o.isSome = true := by
    have hsome := congrArg Option.isSome hy
    exact Option.isSome_of_isSome_bind hsome
  rw [hy, Option.bind_some, bind_apply, ← show flags = toInt32 v from hflags]
  refine (decodeInt_follows hcursor fun n => toInt32 n).bind ?_
  rintro ⟨columns, next⟩ ⟨v, rest, hy, -, hcolumns, -, hcursor⟩
  rw [hy, Option.bind_some, bind_apply, ← show columns = toInt32 v from hcolumns]
  have hin₀ : Inside mem { b with columnCount := columns } ↔ (some rest).isSome :=
    iff_of_true (hin.2 ho) rfl
  refine (pagingStage_follows hcursor hin₀ hb.pageState flags).bind ?_
  generalize (some rest).bind (announced (hasFlag flags cqlResultFlagHasMorePages = true) _) = y₁
  rintro ⟨b₁, next⟩ ⟨hcursor, hin₁, more, p, n, hb₁⟩
  obtain rfl : b₁ = _ := hb₁
  rw [bind_snd, bind_bind]
  rw [← Option.isSome_map] at hin₁
  refine (tableStage_follows hcursor hin₁ hb.keyspace hb.table flags).bind ?_
  generalize (y₁.map Prod.snd).bind
    (announced (hasFlag flags cqlResultFlagGlobalTablespec = true) _) = y₂
  rintro ⟨b₂, next⟩ ⟨hcursor, hin₂, k, m, t, n, hb₂⟩
  obtain rfl : b₂ = _ := hb₂
  rw [bind_snd, bind_bind]
  rw [← Option.isSome_map] at hin₂
  refine (columnsStage_follows hcursor hin₂ hb.columns flags).then ?_
  generalize (y₂.map Prod.snd).bind
    (announced (hasFlag flags cqlResultFlagNoMetadata = false) _) = y₃
  rintro ⟨b₃, next⟩ ⟨hcursor, hin₃, hcount, hrows⟩
  rcases y₃ with _ | ⟨_, rest⟩
  · exact ⟨hcursor, hin₃, nofun, hrows⟩
  · refine ⟨hcursor, hin₃, ?_, hrows⟩
    rintro _ _ ⟨⟩
    exact hcount

/-! ## The five kinds -/

/-- The columns and the rows of the result are the ones that the grammar found, and
    the rows start at `rest`. -/
def BodyResult.Holds (mem : List UInt8) (b : BodyResult) (columns : ℤ) (rows : Option ℤ)
    (rest : List UInt8) : Prop :=
  b.columnCount = columns ∧
    match rows with
    | none => b.rows = none
    | some m => b.rowCount = m ∧ ∃ p, b.rows = some p ∧ Cursor mem p (some rest)

/-- What a consumed result is, by what the grammar says of it. -/
def BodyResult.Consumed (mem : List UInt8) (y : Option ((ℤ × Option ℤ) × List UInt8))
    (r : BodyResult × Bool) : Prop :=
  r.2 = true ∧ (r.1.Inside mem ↔ y.isSome) ∧
    ∀ columns rows rest, y = some ((columns, rows), rest) → r.1.Holds mem columns rows rest

/-- A result of this kind, of which nothing has been read. -/
def BodyResult.ofKind (kind : ℤ) : BodyResult := { kind }

theorem BodyResult.inside_ofKind (kind : ℤ) : (ofKind kind).Inside mem := by
  simp [Inside, pairs, ofKind, InBody]

variable {rest : List UInt8}

theorem BodyResult.parseRows_follows (kind : ℤ) (hc : Cursor mem pos (some rest)) :
    Follows Crash.OfLength ((ofKind kind).parseRows mem pos)
      ((do
        let columns ← Layout.metadata Layout.longString
        let rows ← Layout.int
        return (columns, some rows) : Parser (ℤ × Option ℤ)) rest) (Consumed mem) := by
  rw [bind_apply]
  unfold parseRows
  have hin : (ofKind kind).Inside mem ↔ (some rest).isSome := iff_of_true (inside_ofKind kind) rfl
  refine (parseMetadata_follows hc hin ⟨⟨rfl, rfl⟩, ⟨rfl, rfl⟩, ⟨rfl, rfl⟩, rfl⟩).bind ?_
  rw [Option.bind_some]
  generalize Layout.metadata Layout.longString rest = y
  rintro ⟨b, next⟩ ⟨hcursor, hin, hcolumns, hrows⟩
  have hint := decodeInt_follows hcursor fun n => toInt32 n
  have hy : (y.bind fun x => (Layout.int >>= fun rows => pure (x.1, some rows)) x.2) =
      ((y.map Prod.snd).bind Layout.int).bind fun z => y.bind fun x =>
        some ((x.1, some z.1), z.2) := by
    cases y <;> rfl
  rw [hy]
  refine hint.bind ?_
  rintro ⟨rows, next'⟩ ⟨v, rest', hint, -, hrows, -, hnext⟩
  rw [hint, Option.bind_some, ← show rows = toInt32 v from hrows]
  rcases y with _ | ⟨columns, rest⟩
  · -- behind the body there is no row count to read
    cases hint
  · refine ⟨rfl, hin, ?_⟩
    rintro _ _ _ ⟨⟩
    exact ⟨hcolumns columns rest rfl, rfl, next', rfl, hnext⟩

theorem BodyResult.parseSetKeyspace_follows (kind : ℤ) (hc : Cursor mem pos (some rest)) :
    Follows Crash.OfLength ((ofKind kind).parseSetKeyspace mem pos)
      ((do
        Layout.string
        return (0, none) : Parser (ℤ × Option ℤ)) rest) (Consumed mem) := by
  rw [bind_apply]
  refine (decodeString_follows hc).bind ?_
  rw [Option.bind_some]
  generalize Layout.string rest = y
  rintro ⟨keyspace, keyspaceSize, next⟩ hspan
  have hiff := hspan.inBody_iff
  have hset : Inside mem { ofKind kind with keyspace := some keyspace, keyspaceSize } ↔
      InBody mem (some keyspace, keyspaceSize) := by
    simp [Inside, pairs, ofKind, InBody]
  rw [Option.isSome_map, ← hset] at hiff
  rcases y with _ | ⟨_, rest'⟩
  · exact ⟨rfl, hiff, nofun⟩
  · refine ⟨rfl, hiff, ?_⟩
    rintro _ _ _ ⟨⟩
    exact ⟨rfl, rfl⟩

theorem BodyResult.parsePrepared_follows (kind : ℤ) (hc : Cursor mem pos (some rest)) :
    Follows Crash.OfLength ((ofKind kind).parsePrepared mem pos)
      ((do
        Layout.string
        let columns ← Layout.metadata Layout.longString
        return (columns, none) : Parser (ℤ × Option ℤ)) rest) (Consumed mem) := by
  rw [bind_apply]
  refine (decodeString_follows hc).bind ?_
  rw [Option.bind_some]
  generalize Layout.string rest = y
  rintro ⟨prepared, preparedSize, next⟩ hspan
  have hiff := hspan.inBody_iff
  have hset : Inside mem { ofKind kind with prepared := some prepared, preparedSize } ↔
      InBody mem (some prepared, preparedSize) := by
    simp [Inside, pairs, ofKind, InBody]
  rw [← hset] at hiff
  have hmeta := parseMetadata_follows hspan.cursor hiff ⟨⟨rfl, rfl⟩, ⟨rfl, rfl⟩, ⟨rfl, rfl⟩, rfl⟩
  rw [bind_snd y (Layout.metadata Layout.longString >>= fun columns => pure (columns, none)),
    bind_bind]
  refine hmeta.bind ?_
  generalize (y.map Prod.snd).bind (Layout.metadata Layout.longString) = y
  rintro ⟨b, next'⟩ ⟨hcursor, hin, hcolumns, hrows⟩
  rcases y with _ | ⟨columns, rest'⟩
  · exact ⟨rfl, hin, nofun⟩
  · refine ⟨rfl, hin, ?_⟩
    rintro _ _ _ ⟨⟩
    exact ⟨hcolumns columns rest' rfl, hrows⟩

theorem BodyResult.parseSchemaChange_follows (kind : ℤ) (hc : Cursor mem pos (some rest)) :
    Follows Crash.OfLength ((ofKind kind).parseSchemaChange mem pos)
      ((do
        Layout.string
        Layout.string
        Layout.string
        return (0, none) : Parser (ℤ × Option ℤ)) rest) (Consumed mem) := by
  rw [bind_apply]
  refine (decodeString_follows hc).bind ?_
  rw [Option.bind_some]
  generalize Layout.string rest = y₁
  rintro ⟨change, changeSize, next⟩ h₁
  rw [bind_snd y₁ (Layout.string >>= fun _ => Layout.string >>= fun _ => pure (0, none)), bind_bind]
  refine (decodeString_follows h₁.cursor).bind ?_
  generalize hy₂ : (y₁.map Prod.snd).bind Layout.string = y₂
  rintro ⟨keyspace, keyspaceSize, next⟩ h₂
  rw [bind_snd y₂ (Layout.string >>= fun _ => pure (0, none)), bind_bind]
  refine (decodeString_follows h₂.cursor).bind ?_
  generalize hy₃ : (y₂.map Prod.snd).bind Layout.string = y₃
  rintro ⟨table, tableSize, next⟩ h₃
  have hset : Inside mem { ofKind kind with
      change := some change, changeSize, keyspace := some keyspace, keyspaceSize
      table := some table, tableSize } ↔ InBody mem (some change, changeSize) ∧
      InBody mem (some keyspace, keyspaceSize) ∧ InBody mem (some table, tableSize) := by
    simp [Inside, pairs, ofKind, InBody]
  have h₂₃ : (y₃.map Prod.snd).isSome = true → (y₂.map Prod.snd).isSome = true := fun h => by
    rw [Option.isSome_map, ← hy₃] at h
    exact Option.isSome_of_isSome_bind h
  have h₁₂ : (y₂.map Prod.snd).isSome = true → (y₁.map Prod.snd).isSome = true := fun h => by
    rw [Option.isSome_map, ← hy₂] at h
    exact Option.isSome_of_isSome_bind h
  rw [h₁.inBody_iff, h₂.inBody_iff, h₃.inBody_iff] at hset
  have hin := hset.trans ⟨fun h => h.2.2, fun h => ⟨h₁₂ (h₂₃ h), h₂₃ h, h⟩⟩
  rw [Option.isSome_map] at hin
  rcases y₃ with _ | ⟨_, rest'⟩
  · exact ⟨rfl, hin, nofun⟩
  · refine ⟨rfl, hin, ?_⟩
    rintro _ _ _ ⟨⟩
    exact ⟨rfl, rfl⟩

/-- **A RESULT is consumed as the grammar goes through it**, if its kind is one of
    the five; otherwise `consume` asserts, and the grammar announces nothing. -/
theorem BodyResult.consume_follows (mem : List UInt8) :
    (BodyResult.consume mem {} = .error .assertFailed ∧ Layout.resultBody.Accepts mem ∧
        ∃ rest, Layout.resultConsumed mem = some ((0, none), rest)) ∨
      Follows Crash.OfLength (BodyResult.consume mem {}) (Layout.resultConsumed mem)
        (Consumed mem) := by
  have h := decodeInt_follows (.start mem) fun n => toInt32 n
  unfold consume Layout.resultConsumed
  rw [bind_apply]
  rcases hx : decodeInt mem 0 with e | ⟨kind, next⟩
  · rw [hx] at h
    obtain ⟨hnone, he⟩ := h
    right
    exact ⟨by rw [show Layout.int mem = none from hnone]; rfl, he⟩
  · rw [hx] at h
    obtain ⟨v, rest, hy, -, hkind, -, hc⟩ := h
    have hint : Layout.int mem = some (kind, rest) := by
      rw [show kind = toInt32 v from hkind]
      exact hy
    rw [hint, Option.bind_some]
    change _ ∨ Follows Crash.OfLength (if kind = cqlResultKindVoid then _ else _) _ _
    by_cases h₁ : kind = cqlResultKindVoid
    · right
      rw [if_pos h₁, if_pos h₁]
      refine ⟨rfl, iff_of_true (inside_ofKind kind) rfl, ?_⟩
      rintro _ _ _ ⟨⟩
      exact ⟨rfl, rfl⟩
    rw [if_neg h₁, if_neg h₁]
    by_cases h₂ : kind = cqlResultKindRows
    · right
      rw [if_pos h₂, if_pos h₂]
      exact parseRows_follows kind hc
    rw [if_neg h₂, if_neg h₂]
    by_cases h₃ : kind = cqlResultKindSetKeyspace
    · right
      rw [if_pos h₃, if_pos h₃]
      exact parseSetKeyspace_follows kind hc
    rw [if_neg h₃, if_neg h₃]
    by_cases h₄ : kind = cqlResultKindPrepared
    · right
      rw [if_pos h₄, if_pos h₄]
      exact parsePrepared_follows kind hc
    rw [if_neg h₄, if_neg h₄]
    by_cases h₅ : kind = cqlResultKindSchemaChange
    · right
      rw [if_pos h₅, if_pos h₅]
      exact parseSchemaChange_follows kind hc
    left
    refine ⟨?_, ?_, rest, ?_⟩
    · change (if kind = cqlResultKindVoid then _ else _) = _
      rw [if_neg h₁, if_neg h₂, if_neg h₃, if_neg h₄, if_neg h₅]
      rfl
    · unfold Parser.Accepts Layout.resultBody
      rw [bind_apply, hint, Option.bind_some, if_neg h₁, if_neg h₂, if_neg h₃, if_neg h₄, if_neg h₅]
      rfl
    · rw [if_neg h₅]
      rfl

end CqlClient
