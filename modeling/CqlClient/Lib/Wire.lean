/-
  Wire formats — big-endian numbers and byte-string grammars.

  * `bigEndian k n` are the `k` bytes of `n`, most significant first, and
    `ofBigEndian` the number a byte string stands for; they are inverse to
    each other up to `256 ^ k`.
  * A grammar is a `Parser`: it takes a prefix off a byte string and returns
    what it says with the rest, or fails when the string is too short.  It
    never looks past the end: what a grammar accepts is a statement about the
    given bytes only.
-/
import CqlClient.Lib.Word

namespace Wire

/-! ## Big-endian numbers -/

/-- The `k` low bytes of `n`, most significant first. -/
def bigEndian : ℕ → ℕ → List UInt8
  | 0, _ => []
  | k + 1, n => UInt8.ofNat (n / 256 ^ k) :: bigEndian k n

/-- The number a big-endian byte string stands for. -/
def ofBigEndian : List UInt8 → ℕ
  | [] => 0
  | b :: bs => b.toNat * 256 ^ bs.length + ofBigEndian bs

@[simp] theorem length_bigEndian (n : ℕ) : ∀ k, (bigEndian k n).length = k
  | 0 => rfl
  | k + 1 => by simp [bigEndian, length_bigEndian n k]

theorem ofBigEndian_lt : ∀ bs : List UInt8, ofBigEndian bs < 256 ^ bs.length
  | [] => by simp [ofBigEndian]
  | b :: bs => by
    have ih := ofBigEndian_lt bs
    have hb : b.toNat < 256 := b.toNat_lt
    simp only [ofBigEndian, List.length_cons, pow_succ]
    nlinarith

/-- **The bytes of `n` stand for `n`**, cut to `k` bytes. -/
theorem ofBigEndian_bigEndian_mod (n : ℕ) : ∀ k, ofBigEndian (bigEndian k n) = n % 256 ^ k
  | 0 => by simp [bigEndian, ofBigEndian, Nat.mod_one]
  | k + 1 => by
    have ih := ofBigEndian_bigEndian_mod n k
    have hd : (UInt8.ofNat (n / 256 ^ k)).toNat = n / 256 ^ k % 256 := UInt8.toNat_ofNat'
    rw [bigEndian, ofBigEndian, length_bigEndian, ih, hd, pow_succ, Nat.mod_mul]
    ring

theorem ofBigEndian_bigEndian {k n : ℕ} (h : n < 256 ^ k) : ofBigEndian (bigEndian k n) = n := by
  rw [ofBigEndian_bigEndian_mod, Nat.mod_eq_of_lt h]

/-! ## Grammars -/

/-- A grammar of byte strings: what a prefix says, and the rest. -/
abbrev Parser := StateT (List UInt8) Option

namespace Parser
variable {α β : Type}

/-- The next `n` bytes. -/
def take (n : ℕ) : Parser (List UInt8) := fun bs =>
  if n ≤ bs.length then some (bs.take n, bs.drop n) else none

/-- Any `n` bytes. -/
def skip (n : ℕ) : Parser Unit := do
  let _ ← take n

/-- An unsigned number of `k` bytes. -/
def number (k : ℕ) : Parser ℕ := do
  let bytes ← take k
  return ofBigEndian bytes

/-- The grammar `p`, if it is announced. -/
def announced (c : Prop) [Decidable c] (p : Parser Unit) : Parser Unit :=
  if c then p else pure ()

/-- The grammar `p`, `n` times. -/
def times (p : Parser Unit) : ℕ → Parser Unit
  | 0 => return ()
  | n + 1 => do
    p
    times p n

/-- The bytes start with a string of the grammar. -/
def Accepts (p : Parser α) (bs : List UInt8) : Prop := (p bs).isSome

instance (p : Parser α) (bs : List UInt8) : Decidable (p.Accepts bs) :=
  inferInstanceAs (Decidable ((p bs).isSome))

theorem bind_apply (p : Parser α) (f : α → Parser β) (bs : List UInt8) :
    (p >>= f) bs = (p bs).bind fun x => f x.1 x.2 := rfl

/-- A grammar on what another one has left, if that one has accepted. -/
theorem bind_bind (p : Parser α) (f : α → Parser β) (o : Option (List UInt8)) :
    o.bind (p >>= f) = (o.bind p).bind fun x => f x.1 x.2 := by
  cases o <;> rfl

theorem guard_apply (c : Prop) [Decidable c] (bs : List UInt8) :
    (guard c : Parser Unit) bs = if c then some ((), bs) else none := by
  unfold guard
  split <;> rfl

theorem discard_apply (p : Parser α) (bs : List UInt8) :
    (discard p : Parser Unit) bs = (p bs).map fun x => ((), x.2) := by
  change (p bs).bind _ = _
  rcases p bs with _ | ⟨a, rest⟩ <;> rfl

theorem skip_apply (n : ℕ) (bs : List UInt8) :
    skip n bs = if n ≤ bs.length then some ((), bs.drop n) else none := by
  change (take n bs).bind _ = _
  unfold take
  split <;> rfl

theorem number_apply (k : ℕ) (bs : List UInt8) : number k bs =
    if k ≤ bs.length then some (ofBigEndian (bs.take k), bs.drop k) else none := by
  change (take k bs).bind _ = _
  unfold take
  split <;> rfl

/-- Repetitions add up. -/
theorem times_add (p : Parser Unit) (m n : ℕ) (bs : List UInt8) :
    times p (m + n) bs = (times p m bs).bind fun x => times p n x.2 := by
  induction m generalizing bs with
  | zero => rw [Nat.zero_add]; rfl
  | succ m ih =>
    rw [Nat.succ_add, times, times, bind_apply, bind_apply, Option.bind_assoc]
    exact congrArg _ (funext fun x => ih x.2)

end Parser

/-! ## Encoders that a grammar reads back -/

section
variable {α β : Type}

namespace Parser

/-- The grammar `p`, `n` times, with what it says each time. -/
def many (p : Parser α) : ℕ → Parser (List α)
  | 0 => return []
  | n + 1 => do
    let a ← p
    let as ← many p n
    return a :: as

/-- The next `n` bytes, all of which are of the grammar `p`. -/
def whole (p : Parser α) (n : ℕ) : Parser α := do
  let bytes ← take n
  match p bytes with
  | some (a, []) => return a
  | _ => failure

/-- The grammar reads `a` off these bytes, whatever follows them. -/
def Reads (p : Parser α) (bytes : List UInt8) (a : α) : Prop :=
  ∀ rest, p (bytes ++ rest) = some (a, rest)

/-- Whatever the grammar reads, it is as `P` says. -/
def Yields (p : Parser α) (P : α → Prop) : Prop :=
  ∀ bs a rest, p bs = some (a, rest) → P a

variable {p : Parser α} {f : α → Parser β} {bytes bytes' : List UInt8} {a : α} {b : β}

theorem reads_pure (a : α) : Reads (pure a) [] a := fun _ => rfl

theorem Reads.bind (hp : Reads p bytes a) (hf : Reads (f a) bytes' b) :
    Reads (p >>= f) (bytes ++ bytes') b := by
  intro rest
  rw [bind_apply, List.append_assoc, hp, Option.bind_some]
  exact hf rest

/-- A step that takes no bytes. -/
theorem Reads.last (hp : Reads p bytes a) (hf : Reads (f a) [] b) : Reads (p >>= f) bytes b := by
  have h := hp.bind hf
  rwa [List.append_nil] at h

theorem reads_take (bytes : List UInt8) : Reads (take bytes.length) bytes bytes := by
  intro rest
  rw [take, if_pos (by simp), List.take_left, List.drop_left]

theorem reads_number {k n : ℕ} (h : n < 256 ^ k) : Reads (number k) (bigEndian k n) n := by
  have hread : Reads (number k) (bigEndian k n) (ofBigEndian (bigEndian k n)) := by
    have htake := reads_take (bigEndian k n)
    rw [length_bigEndian] at htake
    exact htake.last (reads_pure _)
  rwa [ofBigEndian_bigEndian h] at hread

theorem reads_guard {c : Prop} [Decidable c] (h : c) (hf : Reads p bytes a) :
    Reads (guard c >>= fun _ => p) bytes a := by
  intro rest
  rw [bind_apply, guard_apply, if_pos h]
  exact hf rest

theorem reads_many {g : α → List UInt8} (as : List α) (h : ∀ a ∈ as, Reads p (g a) a) :
    Reads (many p as.length) (as.flatMap g) as := by
  induction as with
  | nil => exact reads_pure []
  | cons a as ih =>
    have has := ih fun a' ha' => h a' (List.mem_cons_of_mem _ ha')
    exact (h a List.mem_cons_self).bind (has.last (reads_pure _))

/-- What is read off each of the strings is read off all of them. -/
theorem reads_many_forall₂ {γ : Type} {g : γ → List UInt8} {cs : List γ} {as : List α}
    (h : List.Forall₂ (fun c a => Reads p (g c) a) cs as) :
    Reads (many p cs.length) (cs.flatMap g) as := by
  induction h with
  | nil => exact reads_pure []
  | cons hc _ ih => exact hc.bind (ih.last (reads_pure _))

/-- Some of the strings, read off all of them: the first ones. -/
theorem many_forall₂ {γ : Type} {g : γ → List UInt8} {cs : List γ} {as l : List α}
    {n : ℕ} {rest : List UInt8} (h : List.Forall₂ (fun c a => Reads p (g c) a) cs as)
    (hempty : p [] = none) (hread : many p n (cs.flatMap g) = some (l, rest)) :
    l = as.take n := by
  induction h generalizing n l rest with
  | nil =>
    cases n with
    | zero =>
      cases hread
      rfl
    | succ n =>
      rw [List.flatMap_nil, many, bind_apply, hempty] at hread
      cases hread
  | cons hc _ ih =>
    cases n with
    | zero =>
      cases hread
      rfl
    | succ n =>
      rw [List.flatMap_cons, many, bind_apply, hc, Option.bind_some] at hread
      obtain ⟨⟨l', rest'⟩, hl', hl⟩ := Option.bind_eq_some_iff.1 hread
      cases hl
      rw [ih hl', List.take_succ_cons]

theorem reads_skip (bytes : List UInt8) : Reads (skip bytes.length) bytes () :=
  (reads_take bytes).last (reads_pure ())

theorem Reads.map (g : α → β) (h : Reads p bytes a) : Reads (g <$> p) bytes (g a) := by
  intro rest
  change (p (bytes ++ rest)).bind _ = _
  rw [h rest]
  rfl

theorem Reads.nil (h : Reads p bytes a) : p bytes = some (a, []) := by
  have hread := h []
  rwa [List.append_nil] at hread

theorem reads_whole (h : p bytes = some (a, [])) : Reads (whole p bytes.length) bytes a := by
  refine (reads_take bytes).last ?_
  rw [h]
  exact reads_pure a

theorem Yields.bind {P : α → Prop} {Q : β → Prop} (hp : Yields p P)
    (hf : ∀ a, P a → Yields (f a) Q) : Yields (p >>= f) Q := by
  intro bs b rest h
  obtain ⟨⟨a, rest'⟩, ha, hb⟩ := Option.bind_eq_some_iff.1 h
  exact hf a (hp bs a rest' ha) rest' b rest hb

theorem yields_pure {P : α → Prop} (h : P a) : Yields (pure a) P := by
  rintro bs _ _ ⟨⟩
  exact h

theorem yields_true (p : Parser α) : Yields p fun _ => True := fun _ _ _ _ => trivial

theorem yields_take (n : ℕ) : Yields (take n) fun bytes => bytes.length = n := by
  intro bs bytes rest h
  rw [take] at h
  split at h
  · cases h
    simpa
  · cases h

theorem yields_number (k : ℕ) : Yields (number k) fun n => n < 256 ^ k :=
  (yields_take k).bind fun bytes h => yields_pure (h ▸ ofBigEndian_lt bytes)

theorem yields_guard {c : Prop} [Decidable c] {P : α → Prop} (h : c → Yields p P) :
    Yields (guard c >>= fun _ => p) P := by
  intro bs a rest hread
  rw [bind_apply, guard_apply] at hread
  split at hread
  · exact h ‹_› bs a rest hread
  · cases hread

theorem yields_many {P : α → Prop} (hp : Yields p P) (n : ℕ) :
    Yields (many p n) fun as => as.length = n ∧ ∀ a ∈ as, P a := by
  induction n with
  | zero => exact yields_pure ⟨rfl, List.forall_mem_nil _⟩
  | succ n ih =>
    refine hp.bind fun a ha => ih.bind fun as has => yields_pure ?_
    exact ⟨congrArg _ has.1, List.forall_mem_cons.2 ⟨ha, has.2⟩⟩

end Parser

end

/-! ## Decoders that follow a grammar -/

section
variable {ε α β γ δ : Type} {fails : ε → Prop}

/-- A decoder's outcome `x` against a grammar's outcome `y`: the decoder ends only
    where the grammar rejects, and in a way that `fails` allows; a result it has is
    related to what the grammar says. -/
def Follows (fails : ε → Prop) (x : Except ε β) (y : Option α) (R : Option α → β → Prop) : Prop :=
  match x with
  | .ok r => R y r
  | .error e => y = none ∧ fails e

theorem Follows.ok {y : Option α} {R : Option α → β → Prop} {r : β} (h : R y r) :
    Follows fails (.ok r) y R := h

/-- What follows a grammar step by step follows it. -/
theorem Follows.bind {x : Except ε β} {y : Option α} {R : Option α → β → Prop}
    {f : β → Except ε δ} {g : α → Option γ} {R' : Option γ → δ → Prop}
    (h : Follows fails x y R) (hf : ∀ r, R y r → Follows fails (f r) (y.bind g) R') :
    Follows fails (x >>= f) (y.bind g) R' := by
  rcases x with e | r
  · obtain ⟨rfl, he⟩ := h
    exact ⟨rfl, he⟩
  · exact hf r h

/-- A step that the grammar does not see. -/
theorem Follows.seq {x : Except ε β} {y : Option α} {R : Option α → β → Prop}
    {f : β → Except ε δ} {R' : Option α → δ → Prop} (h : Follows fails x y R)
    (hf : ∀ r, R y r → Follows fails (f r) y R') : Follows fails (x >>= f) y R' := by
  rcases x with e | r
  · exact h
  · exact hf r h

theorem Follows.mono {x : Except ε β} {y : Option α} {R R' : Option α → β → Prop}
    (h : Follows fails x y R) (hR : ∀ r, R y r → R' y r) : Follows fails x y R' := by
  rcases x with e | r
  · exact h
  · exact hR r h

/-- A step of the grammar that the decoder does not take. -/
theorem Follows.then {x : Except ε β} {y : Option α} {R : Option α → β → Prop}
    {g : α → Option γ} {R' : Option γ → β → Prop} (h : Follows fails x y R)
    (hR : ∀ r, R y r → R' (y.bind g) r) : Follows fails x (y.bind g) R' := by
  rcases x with e | r
  · obtain ⟨rfl, he⟩ := h
    exact ⟨rfl, he⟩
  · exact hR r h

/-- The decoder does not end as `fails` says, and its result is good. -/
def Safe (fails : ε → Prop) (x : Except ε β) (G : β → Prop) : Prop :=
  match x with
  | .ok r => G r
  | .error e => ¬ fails e

/-- **Safe is what the grammar accepts.** -/
theorem Follows.safe_iff {x : Except ε β} {y : Option α} {R : Option α → β → Prop}
    {G : β → Prop} (h : Follows fails x y R) (hR : ∀ r, R y r → (G r ↔ y.isSome)) :
    Safe fails x G ↔ y.isSome := by
  rcases x with e | r
  · obtain ⟨rfl, he⟩ := h
    exact iff_of_false (fun hs => hs he) nofun
  · exact hR r h

end

end Wire
