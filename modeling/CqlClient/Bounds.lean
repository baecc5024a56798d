/-
  CqlClient formalization — decoders and the end of the body.

  The decoders are given no bound.  A decoder that starts in the body, or behind
  it where a length of its own has led it, follows the grammar of what it reads:
  it reads in the body, and what it publishes lies in the body, exactly as long
  as the grammar accepts.
-/
import CqlClient.Layout

namespace CqlClient

open Word Wire Wire.Parser

/-- The process died of a length or a count of the body. -/
def Crash.OfLength : Crash → Prop
  | .outOfBounds | .nullDeref | .badLength => True
  | _ => False

variable {mem : List UInt8} {pos : ℤ} {o : Option (List UInt8)}

/-- The position has this rest of the body before it, or is behind the body. -/
def Cursor (mem : List UInt8) (pos : ℤ) : Option (List UInt8) → Prop
  | some rest => 0 ≤ pos ∧ pos ≤ mem.length ∧ mem.drop pos.toNat = rest
  | none => mem.length < pos

/-- The pair of a pointer and a size, if it was published, lies in the body. -/
def InBody (mem : List UInt8) : Option ℤ × ℕ → Prop
  | (none, _) => True
  | (some p, n) => 0 ≤ p ∧ p + n ≤ mem.length

theorem Cursor.start (mem : List UInt8) : Cursor mem 0 (some mem) :=
  ⟨le_rfl, Int.natCast_nonneg _, rfl⟩

theorem Cursor.le_iff (h : Cursor mem pos o) : pos ≤ mem.length ↔ o.isSome := by
  rcases o with _ | rest
  · exact iff_of_false (not_le.2 h) nofun
  · exact iff_of_true h.2.1 rfl

/-- What is left of the body. -/
theorem Cursor.length {rest : List UInt8} (h : Cursor mem pos (some rest)) :
    pos + rest.length = mem.length := by
  obtain ⟨hpos, hle, rfl⟩ := h
  rw [List.length_drop]
  omega

theorem Cursor.drop {rest : List UInt8} (h : Cursor mem pos (some rest)) {n : ℕ}
    (hn : n ≤ rest.length) : Cursor mem (pos + n) (some (rest.drop n)) := by
  have hlen := h.length
  obtain ⟨hpos, hle, rfl⟩ := h
  refine ⟨by omega, by omega, ?_⟩
  rw [List.drop_drop, Int.toNat_add hpos (Int.natCast_nonneg n), Int.toNat_natCast]

/-- One grammar after another, where the second does not use what the first says. -/
theorem bind_snd {α β : Type} (y : Option (α × List UInt8)) (p : Parser β) :
    (y.bind fun x => p x.2) = (y.map Prod.snd).bind p := by
  cases y <;> rfl

/-! ## Numbers and strings -/

theorem read_follows (hc : Cursor mem pos o) (n : ℕ) :
    Follows Crash.OfLength (read mem pos n) (o.bind (take n)) fun y bs =>
      ∃ rest, y = some (bs, rest) ∧ bs.length = n ∧ Cursor mem (pos + n) (some rest) := by
  rcases o with _ | rest
  · have hlt : (mem.length : ℤ) < pos := hc
    rw [read, if_neg (by omega)]
    exact ⟨rfl, trivial⟩
  · have hlen := hc.length
    obtain ⟨hpos, hle, hdrop⟩ := id hc
    rw [Option.bind_some, take, read]
    by_cases hn : n ≤ rest.length
    · rw [if_pos hn, if_pos ⟨hpos, by omega⟩, hdrop]
      exact ⟨_, rfl, by simp [hn], hc.drop hn⟩
    · rw [if_neg hn, if_neg (by omega)]
      exact ⟨rfl, trivial⟩

/-- Bytes in the body can be read. -/
theorem read_ok {p : ℤ} {n : ℕ} (h : InBody mem (some p, n)) :
    read mem p n = .ok ((mem.drop p.toNat).take n) := by
  obtain ⟨h₀, hle⟩ := h
  rw [read, if_pos ⟨h₀, hle⟩]

/-- A number of `k` bytes, of which the decoder makes `f` and the grammar `g`. -/
theorem number_follows {α : Type} (hc : Cursor mem pos o) (k : ℕ) {next : ℤ}
    (hnext : next = pos + k) (f : ℕ → ℤ) (g : ℕ → α) :
    Follows Crash.OfLength (do let bytes ← read mem pos k; return (f (ofBigEndian bytes), next))
      (o.bind (number k >>= fun n => pure (g n))) fun y r =>
        ∃ v rest, y = some (g v, rest) ∧ v < 256 ^ k ∧ r.1 = f v ∧ r.2 = next ∧
          Cursor mem r.2 (some rest) := by
  rw [number, bind_bind, bind_bind, Option.bind_assoc]
  refine (read_follows hc k).bind ?_
  rintro bs ⟨rest, hy, hlen, hrest⟩
  rw [hy]
  exact ⟨_, rest, rfl, hlen ▸ ofBigEndian_lt bs, rfl, rfl, hnext ▸ hrest⟩

theorem decodeShort_follows {α : Type} (hc : Cursor mem pos o) (g : ℕ → α) :
    Follows Crash.OfLength (decodeShort mem pos) (o.bind (number 2 >>= fun n => pure (g n)))
      fun y r => ∃ v rest, y = some (g v, rest) ∧ v < 256 ^ 2 ∧ r.1 = toInt16 v ∧
        r.2 = pos + 2 ∧ Cursor mem r.2 (some rest) :=
  number_follows hc 2 rfl (fun v => toInt16 v) g

theorem decodeInt_follows {α : Type} (hc : Cursor mem pos o) (g : ℕ → α) :
    Follows Crash.OfLength (decodeInt mem pos) (o.bind (number 4 >>= fun n => pure (g n)))
      fun y r => ∃ v rest, y = some (g v, rest) ∧ v < 256 ^ 4 ∧ r.1 = toInt32 v ∧
        r.2 = pos + 4 ∧ Cursor mem r.2 (some rest) :=
  number_follows hc 4 rfl (fun v => toInt32 v) g

/-- A string from one position to another, and where the grammar is after it. -/
structure Spans (mem : List UInt8) (o : Option (List UInt8)) (r : ℤ × ℕ × ℤ) : Prop where
  next : r.2.2 = r.1 + r.2.1
  nonneg : 0 ≤ r.1
  cursor : Cursor mem r.2.2 o

/-- A string lies in the body exactly when the grammar accepts it. -/
theorem Spans.inBody_iff {r : ℤ × ℕ × ℤ} (h : Spans mem o r) :
    InBody mem (some r.1, r.2.1) ↔ o.isSome := by
  rw [← h.cursor.le_iff, h.next]
  exact ⟨fun hb => hb.2, fun hle => ⟨h.nonneg, hle⟩⟩

/-- The bytes after a length. -/
theorem spans_of_length {v : ℕ} {rest : List UInt8} (h : Cursor mem pos (some rest)) :
    Spans mem ((skip v rest).map Prod.snd) (pos, v, pos + v) := by
  refine ⟨rfl, h.1, ?_⟩
  rw [skip_apply]
  have hlen := h.length
  split
  · exact h.drop ‹_›
  · change (mem.length : ℤ) < pos + v
    omega

theorem decodeString_follows (hc : Cursor mem pos o) :
    Follows Crash.OfLength (decodeString mem pos 0) (o.bind Layout.string) fun y r =>
      Spans mem (y.map Prod.snd) r := by
  rw [Layout.string, bind_bind]
  have hlen := decodeShort_follows hc id
  simp only [id_eq, bind_pure] at hlen
  refine hlen.bind ?_
  rintro ⟨len, output⟩ ⟨v, rest, hy, hv, hlen, -, hrest⟩
  rw [hy]
  have hsize : (len % 2 ^ 16).toNat = v := by
    rw [show len = toInt16 v from hlen, toInt16_emod]
    omega
  simp only [Nat.zero_mod, Nat.sub_zero, Nat.zero_add, hsize]
  exact spans_of_length hrest

theorem decodeLongString_follows (hc : Cursor mem pos o) :
    Follows Crash.OfLength (decodeLongString mem pos 0) (o.bind Layout.longString) fun y r =>
      Spans mem (y.map Prod.snd) r := by
  rw [Layout.longString, bind_bind]
  have hlen := decodeInt_follows hc id
  simp only [id_eq, bind_pure] at hlen
  refine hlen.bind ?_
  rintro ⟨len, output⟩ ⟨v, rest, hy, hv, hlen, -, hrest⟩
  rw [hy]
  have hsize : (len % 2 ^ 32).toNat = v := by
    rw [show len = toInt32 v from hlen, toInt32_emod]
    omega
  simp only [Nat.zero_mod, Nat.sub_zero, Nat.zero_add, hsize]
  exact spans_of_length hrest

/-- Bytes that lie in the body if the grammar has come to `y`. -/
theorem readIn_follows {α : Type} {y : Option α} {p : ℤ} {n : ℕ}
    (h : y.isSome = true → InBody mem (some p, n)) :
    Follows Crash.OfLength (read mem p n) y fun _ _ => InBody mem (some p, n) := by
  by_cases hb : InBody mem (some p, n)
  · rw [read_ok hb]
    exact hb
  · have hout : ¬ (0 ≤ p ∧ p + n ≤ mem.length) := hb
    rw [read, if_neg hout]
    exact ⟨Option.not_isSome_iff_eq_none.1 fun hy => hb (h hy), trivial⟩

/-- A string that is copied, when the grammar has come to `o'`. -/
theorem copy_follows {r : ℤ × ℕ × ℤ} {o' : Option (List UInt8)} (h : Spans mem o r)
    (ho : o'.isSome = true → o.isSome = true) :
    Follows Crash.OfLength (read mem r.1 r.2.1) o' fun _ _ => o.isSome = true := by
  rw [← h.inBody_iff] at ho ⊢
  exact readIn_follows ho

theorem isSome_of_bind {α β : Type} {p : Parser β} {o : Option (List UInt8)}
    {f : β × List UInt8 → α} (h : ((o.bind p).map f).isSome = true) : o.isSome = true := by
  rcases o with _ | rest
  · exact h
  · rfl

/-! ## Maps and lists -/

theorem decodeStringlistLoop_follows (n : ℕ) (hc : Cursor mem pos o) (ho : o.isSome = true)
    (output : List (List UInt8)) :
    Follows Crash.OfLength (decodeStringlistLoop mem n pos output)
      (o.bind (times Layout.string n)) fun y r =>
        y.isSome = true ∧ Cursor mem r.2 (y.map Prod.snd) := by
  induction n generalizing pos o output with
  | zero =>
    obtain ⟨rest, rfl⟩ := Option.isSome_iff_exists.1 ho
    exact ⟨rfl, hc⟩
  | succ n ih =>
    rw [times, bind_bind, decodeStringlistLoop]
    refine (decodeString_follows hc).bind ?_
    rintro ⟨s, size, next⟩ hspan
    rw [bind_snd]
    refine (copy_follows hspan id).bind ?_
    intro string hstring
    exact ih hspan.cursor hstring _

theorem decodeStringlist_follows (hc : Cursor mem pos o) :
    Follows Crash.OfLength (decodeStringlist mem pos)
      (o.bind (Layout.stringList Layout.shortCount)) fun y r =>
        y.isSome = true ∧ Cursor mem r.2 (y.map Prod.snd) := by
  rw [Layout.stringList, bind_bind]
  refine (decodeShort_follows hc fun n => (toInt16 n).toNat).bind ?_
  rintro ⟨len, next⟩ ⟨v, rest, hy, -, hlen, -, hrest⟩
  rw [hy, ← show len = toInt16 v from hlen]
  exact decodeStringlistLoop_follows len.toNat hrest rfl []

theorem decodeStringMapLoop_follows (n : ℕ) (hc : Cursor mem pos o) (ho : o.isSome = true)
    (map : StringMap (List UInt8)) :
    Follows Crash.OfLength (decodeStringMapLoop mem n pos map)
      (o.bind (times (do Layout.string; Layout.string) n)) fun y _ => y.isSome = true := by
  induction n generalizing pos o map with
  | zero =>
    obtain ⟨rest, rfl⟩ := Option.isSome_iff_exists.1 ho
    exact rfl
  | succ n ih =>
    rw [times, bind_bind, decodeStringMapLoop, bind_bind, Option.bind_assoc]
    refine (decodeString_follows hc).bind ?_
    rintro ⟨key, keySize, next⟩ hkey
    rw [bind_snd _ fun bs => (Layout.string bs).bind fun x => times _ n x.2,
      ← Option.bind_assoc]
    refine (decodeString_follows hkey.cursor).bind ?_
    rintro ⟨value, valueSize, next'⟩ hvalue
    rw [bind_snd]
    refine (copy_follows hkey isSome_of_bind).bind ?_
    intro k _
    refine (copy_follows hvalue id).bind ?_
    intro v hv
    exact ih hvalue.cursor hv _

theorem decodeStringMap_follows (mem : List UInt8) :
    Follows Crash.OfLength (decodeStringMap mem 0) (Layout.stringMap Layout.shortCount mem)
      fun y _ => y.isSome = true := by
  refine (decodeShort_follows (.start mem) fun n => (toInt16 n).toNat).bind ?_
  rintro ⟨len, next⟩ ⟨v, rest, hy, -, hlen, -, hrest⟩
  rw [hy, ← show len = toInt16 v from hlen]
  exact decodeStringMapLoop_follows len.toNat hrest rfl []

theorem decodeStringMultimapLoop_follows (n : ℕ) (hc : Cursor mem pos o) (ho : o.isSome = true)
    (output : StringMap (List (List UInt8))) :
    Follows Crash.OfLength (decodeStringMultimapLoop mem n pos output)
      (o.bind (times (do Layout.string; Layout.stringList Layout.shortCount) n))
      fun y _ => y.isSome = true := by
  induction n generalizing pos o output with
  | zero =>
    obtain ⟨rest, rfl⟩ := Option.isSome_iff_exists.1 ho
    exact rfl
  | succ n ih =>
    rw [times, bind_bind, decodeStringMultimapLoop, bind_bind, Option.bind_assoc]
    refine (decodeString_follows hc).bind ?_
    rintro ⟨key, keySize, next⟩ hkey
    rw [bind_snd _ fun bs =>
        (Layout.stringList Layout.shortCount bs).bind fun x => times _ n x.2,
      ← Option.bind_assoc]
    refine (decodeStringlist_follows hkey.cursor).bind ?_
    rintro ⟨value, next'⟩ ⟨hsome, hvalue⟩
    rw [bind_snd]
    refine (copy_follows hkey isSome_of_bind).bind ?_
    intro k _
    exact ih hvalue (by rw [Option.isSome_map]; exact hsome) _

theorem decodeStringMultimap_follows (mem : List UInt8) :
    Follows Crash.OfLength (decodeStringMultimap mem 0)
      (Layout.stringMultimap Layout.shortCount mem) fun y _ => y.isSome = true := by
  refine (decodeShort_follows (.start mem) fun n => (toInt16 n).toNat).bind ?_
  rintro ⟨len, next⟩ ⟨v, rest, hy, -, hlen, -, hrest⟩
  rw [hy, ← show len = toInt16 v from hlen]
  exact decodeStringMultimapLoop_follows len.toNat hrest rfl []

/-! ## ERROR, STARTUP and SUPPORTED -/

/-- **The claim on a decoder**, run on the body `mem`: it does not die of a length
    or a count, the pairs that it publishes lie in the body, and it returns false
    for a body that is not well-formed. -/
structure Bounded {β : Type} (mem : List UInt8) (run : Except Crash (β × Bool))
    (pairs : β → List (Option ℤ × ℕ)) (wellFormed : Parser Unit) : Prop where
  safe : Safe Crash.OfLength run fun r => ∀ pair ∈ pairs r.1, InBody mem pair
  rejects : ¬ wellFormed.Accepts mem → ∃ b, run = .ok (b, false)

/-- A decoder that follows the grammar `reads`, and never returns false. -/
theorem bounded_iff {α β : Type} {run : Except Crash (β × Bool)}
    {pairs : β → List (Option ℤ × ℕ)} {wellFormed : Parser Unit} {reads : Parser α}
    (h : Follows Crash.OfLength run (reads mem) fun y r =>
      r.2 = true ∧ ((∀ pair ∈ pairs r.1, InBody mem pair) ↔ y.isSome)) :
    Bounded mem run pairs wellFormed ↔ wellFormed.Accepts mem ∧ reads.Accepts mem := by
  have hsafe := h.safe_iff (G := fun r => ∀ pair ∈ pairs r.1, InBody mem pair)
    fun _ hr => hr.2
  constructor
  · rintro ⟨hs, hrej⟩
    refine ⟨?_, hsafe.1 hs⟩
    by_contra hnot
    obtain ⟨b, hb⟩ := hrej hnot
    rw [hb] at h
    cases h.1
  · rintro ⟨hwf, hreads⟩
    exact ⟨hsafe.2 hreads, fun hnot => absurd hwf hnot⟩

/-- The pair of a pointer and a size that an ERROR publishes. -/
def BodyError.pairs (b : BodyError) : List (Option ℤ × ℕ) :=
  match b.message with
  | .inBody pos => [(some pos, b.messageSize)]
  | _ => []

theorem BodyError.consume_follows (mem : List UInt8) :
    Follows Crash.OfLength (BodyError.consume {} mem) (Layout.errorBody mem) fun y r =>
      r.2 = true ∧ ((∀ pair ∈ r.1.pairs, InBody mem pair) ↔ y.isSome) := by
  refine (decodeInt_follows (.start mem) fun n => toInt32 n).bind ?_
  rintro ⟨code, next⟩ ⟨v, rest, hy, -, -, -, hrest⟩
  rw [hy]
  refine (decodeString_follows hrest).seq ?_
  rintro ⟨message, size, next'⟩ hspan
  have hiff := hspan.inBody_iff
  rw [Option.isSome_map] at hiff
  refine Follows.ok ⟨rfl, ?_⟩
  simp only [BodyError.pairs, List.forall_mem_singleton]
  exact hiff

/-- Nothing that is copied is published. -/
theorem copied_iff {y : Option (Unit × List UInt8)} (h : y.isSome = true) :
    (∀ pair ∈ ([] : List (Option ℤ × ℕ)), InBody mem pair) ↔ y.isSome = true :=
  iff_of_true nofun h

theorem BodyStartup.consume_follows (mem : List UInt8) :
    Follows Crash.OfLength (BodyStartup.consume {} mem) (Layout.stringMap Layout.shortCount mem)
      fun y r => r.2 = true ∧ ((∀ pair ∈ ([] : List (Option ℤ × ℕ)), InBody mem pair) ↔
        y.isSome) := by
  refine (decodeStringMap_follows mem).seq ?_
  rintro ⟨options, next⟩ hsome
  exact ⟨rfl, copied_iff hsome⟩

theorem BodySupported.consume_follows (mem : List UInt8) :
    Follows Crash.OfLength (BodySupported.consume {} mem) (Layout.supportedRead mem)
      fun y r => r.2 = true ∧ ((∀ pair ∈ ([] : List (Option ℤ × ℕ)), InBody mem pair) ↔
        y.isSome) := by
  refine (decodeStringMultimap_follows mem).seq ?_
  rintro ⟨supported, next⟩ hsome
  exact ⟨rfl, copied_iff hsome⟩

/-- A negative count is read as none. -/
theorem shortCount_or (v : ℕ) (hv : v < 2 ^ 16) :
    (toInt16 v).toNat = v ∨ (toInt16 v).toNat = 0 := by
  by_cases hneg : v < 2 ^ 15
  · left
    rw [toInt16_eq (by omega) (by omega), Int.toNat_natCast]
  · right
    have hmod := toInt16_emod v
    have hrange := toInt16_range v
    omega

theorem Layout.shortCount_apply (bs : List UInt8) : Layout.shortCount bs =
    (Layout.count bs).map fun x => ((toInt16 x.1).toNat, x.2) := by
  unfold Layout.shortCount Layout.count
  rw [bind_apply]
  rcases number 2 bs with _ | ⟨v, rest⟩ <;> rfl

/-- A well-formed STARTUP is read. -/
theorem Layout.startupRead_of_startupBody (h : Layout.startupBody.Accepts mem) :
    (Layout.stringMap Layout.shortCount).Accepts mem := by
  unfold Parser.Accepts Layout.startupBody Layout.stringMap at h
  unfold Parser.Accepts Layout.stringMap
  rw [bind_apply] at h ⊢
  rw [shortCount_apply]
  rcases hcount : Layout.count mem with _ | ⟨v, rest⟩
  · rw [hcount] at h
    cases h
  · rw [hcount] at h
    have hv : v < 2 ^ 16 := by
      rw [Layout.count, number_apply] at hcount
      split at hcount
      · rw [Option.some.injEq, Prod.mk.injEq] at hcount
        have hlt := ofBigEndian_lt (mem.take 2)
        rw [hcount.1, List.length_take, min_eq_left ‹_›] at hlt
        exact hlt.trans_eq (by norm_num)
      · cases hcount
    rw [Option.map_some, Option.bind_some]
    rcases shortCount_or v hv with hn | hn
    · rw [hn]
      exact h
    · rw [hn]
      rfl

end CqlClient
