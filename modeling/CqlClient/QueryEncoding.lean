/-
  CqlClient formalization — the encoding of QUERY.

  A QUERY body says its configuration: the query, the consistency, and the
  optional sections that its flags announce.  `Layout.queryBodyWith` is the grammar
  that a receiver reads it with, up to the paging state; lengths of four bytes and
  the page size are signed, and a negative one is rejected.  The encoder writes the
  paging state with a length of two bytes (`Layout.queryBody`), and the protocol has
  one of four, as in a RESULT (`Layout.queryAsked`).
-/
import CqlClient.Body

namespace CqlClient

open Word Wire Wire.Parser

/-- What a QUERY says. -/
structure QueryConfig where
  query : List UInt8
  consistency : ℤ
  values : List (List UInt8)
  pageSize : Option ℕ
  pagingState : List UInt8
  serialConsistency : Option ℤ
  deriving DecidableEq, Repr

/-- The configuration of a QUERY that is sent. -/
def BodyQuery.config (b : BodyQuery) : QueryConfig where
  query := b.query
  consistency := b.consistency
  values := b.values
  pageSize := if b.pageSizeSet then some b.pageSize else none
  pagingState := b.pagingState
  serialConsistency := if b.serialConsistent then some b.serialConsistency else none

/-- Every length and number is in the range of its field. -/
structure QueryConfig.Fits (c : QueryConfig) : Prop where
  query : c.query.length < 2 ^ 31
  count : c.values.length ≤ 65535
  values : ∀ value ∈ c.values, value.length < 2 ^ 31
  pageSize : ∀ n, c.pageSize = some n → n < 2 ^ 31
  pagingState : c.pagingState.length ≤ 65535

/-! ## The grammar of the receiver -/

namespace Layout

/-- A number of four bytes, read as signed; a negative one is rejected. -/
def natural : Parser ℕ := do
  let n ← number 4
  guard (0 ≤ toInt32 n)
  return (toInt32 n).toNat

def longBytes : Parser (List UInt8) := do
  let n ← natural
  take n

def short : Parser ℤ := do
  let n ← number 2
  return toInt16 n

def shortBytes : Parser (List UInt8) := do
  let n ← number 2
  take n

def valueList : Parser (List (List UInt8)) := do
  let n ← number 2
  many longBytes n

/-- A section that a flag announces, or else `absent`. -/
def flagged {α : Type} (flags flag : ℕ) (absent : α) (p : Parser α) : Parser α :=
  if flags &&& flag = 0 then return absent else p

/-- A QUERY, with the layout of its paging state. -/
def queryBodyWith (state : Parser (List UInt8)) : Parser QueryConfig := do
  let query ← longBytes
  let consistency ← short
  let flags ← number 1
  let values ← flagged flags cqlQueryFlagValues [] valueList
  let pageSize ← flagged flags cqlQueryFlagPageSize none (some <$> natural)
  let pagingState ← flagged flags cqlQueryFlagPagingState [] state
  let serialConsistency ← flagged flags cqlQueryFlagSerialConsistency none (some <$> short)
  return ⟨query, consistency, values, pageSize, pagingState, serialConsistency⟩

/-- A QUERY as it is encoded. -/
def queryBody : Parser QueryConfig := queryBodyWith shortBytes

/-- A QUERY as the protocol has it. -/
def queryAsked : Parser QueryConfig := queryBodyWith longBytes

/-! ## The fields -/

/-- A length that fits is not changed by the conversion to `int32_t`. -/
theorem reads_natural {n : ℕ} (h : n < 2 ^ 31) : Reads natural (encodeInt (toInt32 n)) n := by
  have heq : toInt32 n = n := toInt32_eq (by omega) (by omega)
  have hnat : ((n : ℤ) % 2 ^ 32).toNat = n := by omega
  rw [heq, encodeInt, hnat]
  refine (reads_number (by norm_num; omega)).last (reads_guard (by omega) ?_)
  rw [heq, Int.toNat_natCast]
  exact reads_pure n

theorem reads_longBytes {bytes : List UInt8} (h : bytes.length < 2 ^ 31) :
    Reads longBytes (encodeLongString bytes) bytes :=
  (reads_natural h).bind (reads_take bytes)

theorem reads_short {v : ℤ} (h₁ : -2 ^ 15 ≤ v) (h₂ : v < 2 ^ 15) :
    Reads short (encodeShort v) v := by
  refine (reads_number (by norm_num; omega)).last ?_
  have hcast : (((v % 2 ^ 16).toNat : ℕ) : ℤ) = v % 2 ^ 16 := Int.toNat_of_nonneg (by omega)
  rw [hcast, toInt16_of_emod h₁ h₂]
  exact reads_pure v

/-- A count or a length of two bytes is read as unsigned. -/
theorem reads_count {n : ℕ} (h : n ≤ 65535) : Reads (number 2) (encodeShort (toInt16 n)) n := by
  have hnat : (toInt16 n % 2 ^ 16).toNat = n := by
    rw [toInt16_emod]
    omega
  rw [encodeShort, hnat]
  exact reads_number (by norm_num; omega)

theorem reads_shortBytes {bytes : List UInt8} (h : bytes.length ≤ 65535) :
    Reads shortBytes (encodeString bytes) bytes :=
  (reads_count h).bind (reads_take bytes)

theorem reads_valueList {values : List (List UInt8)} (hcount : values.length ≤ 65535)
    (hvalues : ∀ value ∈ values, value.length < 2 ^ 31) :
    Reads valueList (encodeShort (toInt16 values.length) ++ values.flatMap encodeLongString)
      values :=
  (reads_count hcount).bind (reads_many values fun value hv => reads_longBytes (hvalues value hv))

/-- A section is read back, if it is empty exactly when its flag is not set. -/
theorem reads_flagged {α : Type} {flags flag : ℕ} {absent a : α} {p : Parser α}
    {bytes : List UInt8} (hclear : flags &&& flag = 0 → bytes = [] ∧ a = absent)
    (hset : flags &&& flag ≠ 0 → Reads p bytes a) :
    Reads (flagged flags flag absent p) bytes a := by
  unfold flagged
  by_cases h : flags &&& flag = 0
  · obtain ⟨rfl, rfl⟩ := hclear h
    rw [if_pos h]
    exact reads_pure a
  · rw [if_neg h]
    exact hset h

theorem reads_some {α : Type} {p : Parser α} {bytes : List UInt8} {a : α} (h : Reads p bytes a) :
    Reads (some <$> p) bytes (some a) := by
  intro rest
  change (p (bytes ++ rest)).bind _ = _
  rw [h rest]
  rfl

end Layout

/-! ## The flags -/

/-- The flags of a QUERY, by the sections that it lacks or has. -/
def flagsOf (noValues pageSize noState serial : Bool) : ℕ :=
  (if noValues then 0 else cqlQueryFlagValues) |||
    (if pageSize then cqlQueryFlagPageSize else 0) |||
    (if noState then 0 else cqlQueryFlagPagingState) |||
    (if serial then cqlQueryFlagSerialConsistency else 0)

theorem BodyQuery.flags_eq (b : BodyQuery) (reserved : ℕ) : (b.sizeAndFlags reserved).2 =
    flagsOf b.values.isEmpty b.pageSizeSet b.pagingState.isEmpty b.serialConsistent := by
  unfold sizeAndFlags
  generalize b.values.isEmpty = noValues, b.pageSizeSet = pageSize,
    b.pagingState.isEmpty = noState, b.serialConsistent = serial
  cases noValues <;> cases pageSize <;> cases noState <;> cases serial <;> rfl

/-- The flags announce the sections. -/
theorem flagsOf_spec : ∀ noValues pageSize noState serial,
    flagsOf noValues pageSize noState serial < 256 ∧
      (flagsOf noValues pageSize noState serial &&& cqlQueryFlagValues = 0 ↔ noValues = true) ∧
      (flagsOf noValues pageSize noState serial &&& cqlQueryFlagPageSize = 0 ↔ pageSize = false) ∧
      (flagsOf noValues pageSize noState serial &&& cqlQueryFlagPagingState = 0 ↔
        noState = true) ∧
      (flagsOf noValues pageSize noState serial &&& cqlQueryFlagSerialConsistency = 0 ↔
        serial = false) := by
  decide

/-! ## The encoding -/

/-- The bytes that `prepare` writes say the configuration, to a receiver that reads the
    paging state if there is one.  A serial consistency that is not set may be any. -/
theorem BodyQuery.reads_encode_with {b : BodyQuery} {state : Parser (List UInt8)}
    (h : b.config.Fits) (hcons : -2 ^ 15 ≤ b.consistency ∧ b.consistency < 2 ^ 15)
    (hserial : b.serialConsistent = true →
      -2 ^ 15 ≤ b.serialConsistency ∧ b.serialConsistency < 2 ^ 15)
    (hreads : b.pagingState ≠ [] → Reads state (encodeString b.pagingState) b.pagingState)
    (reserved : ℕ) :
    Reads (Layout.queryBodyWith state) (b.encode (b.sizeAndFlags reserved).2) b.config := by
  obtain ⟨hlt, hvalues, hpage, hstate, hser⟩ :=
    flagsOf_spec b.values.isEmpty b.pageSizeSet b.pagingState.isEmpty b.serialConsistent
  rw [b.flags_eq]
  generalize flagsOf _ _ _ _ = flags at *
  unfold encode Layout.queryBodyWith
  simp only [List.append_assoc]
  refine (Layout.reads_longBytes h.query).bind ?_
  refine (Layout.reads_short hcons.1 hcons.2).bind ?_
  have hbyte : encodeByte (UInt8.ofNat flags) = bigEndian 1 flags := by
    simp [encodeByte, bigEndian]
  rw [hbyte]
  refine (reads_number (by norm_num; omega)).bind ?_
  refine (Layout.reads_flagged (a := b.config.values) ?_ ?_).bind ?_
  · intro hclear
    have hempty := hvalues.1 hclear
    rw [if_pos hempty]
    exact ⟨rfl, List.isEmpty_iff.1 hempty⟩
  · intro hset
    rw [if_neg fun hempty => hset (hvalues.2 hempty)]
    exact Layout.reads_valueList h.count h.values
  refine (Layout.reads_flagged (a := b.config.pageSize) ?_ ?_).bind ?_
  · intro hclear
    have hunset := hpage.1 hclear
    exact ⟨by rw [hunset]; rfl, by rw [config, hunset]; rfl⟩
  · intro hset
    have hpageSet : b.pageSizeSet = true := Bool.eq_true_of_not_eq_false fun h => hset (hpage.2 h)
    have hsize : b.config.pageSize = some b.pageSize := by rw [config, hpageSet]; rfl
    rw [hsize, if_pos hpageSet]
    exact Layout.reads_some (Layout.reads_natural (h.pageSize _ hsize))
  refine (Layout.reads_flagged (a := b.config.pagingState) ?_ ?_).bind ?_
  · intro hclear
    have hempty := hstate.1 hclear
    rw [if_pos hempty]
    exact ⟨rfl, List.isEmpty_iff.1 hempty⟩
  · intro hset
    have hne : ¬ b.pagingState.isEmpty = true := fun hempty => hset (hstate.2 hempty)
    rw [if_neg hne]
    exact hreads fun hnil => hne (List.isEmpty_iff.2 hnil)
  refine (Layout.reads_flagged (a := b.config.serialConsistency) ?_ ?_).last ?_
  · intro hclear
    have hunset := hser.1 hclear
    exact ⟨by rw [hunset]; rfl, by rw [config, hunset]; rfl⟩
  · intro hset
    have hserialSet : b.serialConsistent = true :=
      Bool.eq_true_of_not_eq_false fun h => hset (hser.2 h)
    have hvalue : b.config.serialConsistency = some b.serialConsistency := by
      rw [config, hserialSet]; rfl
    rw [hvalue, if_pos hserialSet]
    obtain ⟨hge, hlt⟩ := hserial hserialSet
    exact Layout.reads_some (Layout.reads_short hge hlt)
  exact reads_pure _

/-- So they do to a receiver that reads them as they are encoded. -/
theorem BodyQuery.reads_encode {b : BodyQuery} (h : b.config.Fits)
    (hcons : -2 ^ 15 ≤ b.consistency ∧ b.consistency < 2 ^ 15)
    (hserial : -2 ^ 15 ≤ b.serialConsistency ∧ b.serialConsistency < 2 ^ 15) (reserved : ℕ) :
    Reads Layout.queryBody (b.encode (b.sizeAndFlags reserved).2) b.config :=
  reads_encode_with h hcons (fun _ => hserial) (fun _ => Layout.reads_shortBytes h.pagingState)
    reserved

/-! ## The limits -/

namespace Layout

theorem yields_natural : Yields natural fun n => n < 2 ^ 31 := by
  refine (yields_number 4).bind fun n _ => yields_guard fun hn => yields_pure ?_
  have hrange := toInt32_range n
  omega

theorem yields_longBytes : Yields longBytes fun bytes => bytes.length < 2 ^ 31 :=
  yields_natural.bind fun n hn bs bytes rest h => (yields_take n bs bytes rest h).trans_lt hn

theorem yields_shortBytes : Yields shortBytes fun bytes => bytes.length ≤ 65535 :=
  (yields_number 2).bind fun n hn bs bytes rest h =>
    (yields_take n bs bytes rest h).trans_le (by norm_num at hn; omega)

theorem yields_valueList : Yields valueList fun values =>
    values.length ≤ 65535 ∧ ∀ value ∈ values, value.length < 2 ^ 31 := by
  refine (yields_number 2).bind fun n hn bs values rest h => ?_
  obtain ⟨hlen, hvalues⟩ := yields_many yields_longBytes n bs values rest h
  exact ⟨hlen.trans_le (by norm_num at hn; omega), hvalues⟩

theorem yields_flagged {α : Type} {flags flag : ℕ} {absent : α} {p : Parser α} {P : α → Prop}
    (habsent : P absent) (hp : Yields p P) : Yields (flagged flags flag absent p) P := by
  unfold flagged
  split
  · exact yields_pure habsent
  · exact hp

theorem yields_some {α : Type} {p : Parser α} {P : α → Prop} (hp : Yields p P) :
    Yields (some <$> p) fun o => ∀ a, o = some a → P a := by
  intro bs o rest h
  change (p bs).bind _ = _ at h
  obtain ⟨⟨a, rest'⟩, ha, ho⟩ := Option.bind_eq_some_iff.1 h
  cases ho
  rintro _ ⟨⟩
  exact hp bs a _ ha

/-- Whatever is read fits. -/
theorem yields_queryBody : Yields queryBody QueryConfig.Fits := by
  refine yields_longBytes.bind fun query hquery => ?_
  refine (yields_true short).bind fun consistency _ => ?_
  refine (yields_true (number 1)).bind fun flags _ => ?_
  refine (yields_flagged ⟨Nat.zero_le _, List.forall_mem_nil _⟩ yields_valueList).bind
    fun values hvalues => ?_
  refine (yields_flagged nofun (yields_some yields_natural)).bind fun pageSize hpage => ?_
  refine (yields_flagged (P := fun state : List UInt8 => state.length ≤ 65535) (Nat.zero_le _)
    yields_shortBytes).bind fun pagingState hstate => ?_
  refine (yields_true _).bind fun serialConsistency _ => yields_pure ?_
  exact ⟨hquery, hvalues.1, hvalues.2, hpage, hstate⟩

end Layout

/-- **The encoding of a QUERY is faithful** exactly when its configuration fits. -/
theorem BodyQuery.faithful_iff (b : BodyQuery) (reserved : ℕ)
    (hcons : -2 ^ 15 ≤ b.consistency ∧ b.consistency < 2 ^ 15)
    (hserial : -2 ^ 15 ≤ b.serialConsistency ∧ b.serialConsistency < 2 ^ 15) :
    ∃ size bytes, (b.prepare reserved).output = some (size, bytes) ∧
      (Layout.queryBody bytes = some (b.config, []) ↔
        b.query.length < 2 ^ 31 ∧ (∀ value ∈ b.values, value.length < 2 ^ 31) ∧
          b.values.length ≤ 65535 ∧ (b.pageSizeSet = true → b.pageSize < 2 ^ 31) ∧
          b.pagingState.length ≤ 65535) := by
  refine ⟨_, _, rfl, ?_⟩
  constructor
  · intro h
    obtain ⟨hquery, hcount, hvalues, hpage, hstate⟩ := Layout.yields_queryBody _ _ _ h
    refine ⟨hquery, hvalues, hcount, ?_, hstate⟩
    intro hset
    exact hpage _ (by rw [config, hset]; rfl)
  · rintro ⟨hquery, hvalues, hcount, hpage, hstate⟩
    have hfits : b.config.Fits := by
      refine ⟨hquery, hcount, hvalues, ?_, hstate⟩
      intro n hn
      unfold config at hn
      split at hn
      · rw [← Option.some.inj hn]
        exact hpage ‹_›
      · cases hn
    have h := BodyQuery.reads_encode hfits hcons hserial reserved []
    rwa [List.append_nil] at h

/-- A QUERY with a value and a page size. -/
theorem BodyQuery.faithful_values : ∃ size bytes,
    (BodyQuery.prepare { query := ascii "SELECT", values := [[0x2A]]
                         pageSizeSet := true, pageSize := 100 } 8).output = some (size, bytes) ∧
      Layout.queryBody bytes = some (BodyQuery.config {
        query := ascii "SELECT", values := [[0x2A]]
        pageSizeSet := true, pageSize := 100 }, []) := by
  obtain ⟨size, bytes, hout, hiff⟩ := BodyQuery.faithful_iff {
    query := ascii "SELECT", values := [[0x2A]], pageSizeSet := true, pageSize := 100 } 8
    (by decide) (by decide)
  exact ⟨size, bytes, hout, hiff.2 (by decide)⟩

end CqlClient
