/-
  CqlClient formalization — when the SSL loop of `on_read` ends.

  The loop is followed iteration by iteration (`loop`) for any sequence of what
  the calls of `read_write` do.  It is left once these have taken all of the
  input; an error that is returned is ignored, and takes nothing.  Iteration `n`
  gets what the `n` calls before have not taken (`loop_reading`), so that the
  loop goes on forever exactly when from some call on all return an error
  (`ends_iff`).
-/
import CqlClient.Client

namespace CqlClient

variable {σ : Type}

/-- Natural numbers with bounded sums are zero from some point on. -/
theorem eventually_zero {f : ℕ → ℕ} {b : ℕ} (h : ∀ n, ∑ j ∈ Finset.range n, f j ≤ b) :
    ∃ N, ∀ n ≥ N, f n = 0 := by
  have hanti : Antitone fun n => b - ∑ j ∈ Finset.range n, f j := by
    refine antitone_nat_of_succ_le ?_
    intro n
    rw [Finset.sum_range_succ]
    omega
  obtain ⟨N, hN⟩ := WellFoundedLT.antitone_chain_condition hanti
  refine ⟨N, ?_⟩
  intro n hn
  have h₁ := hN n hn
  have h₂ := hN (n + 1) (by omega)
  have hle := h (n + 1)
  rw [Finset.sum_range_succ] at h₂ hle
  omega

/-- What a call of `read_write` does: the session it leaves, its out parameters and the
    error that it returns. -/
abbrev Outcome (σ : Type) := σ × ReadWrite × Option Error

/-- A call with this input returns an error and takes nothing, or it returns `NULL` and
    takes some of the input, if there is any. -/
def Outcome.Legal (input : List UInt8) (rw : Outcome σ) : Prop :=
  match rw.2.2 with
  | some _ => rw.2.1.readSize = 0
  | none => rw.2.1.readSize ≤ input.length ∧ (input ≠ [] → 1 ≤ rw.2.1.readSize)

namespace Client

/-! ## Iterations -/

section
variable (api : OpenSsl σ)

/-- One round of the SSL loop in which `read_write` does `rw`. -/
def roundWith (rw : Outcome σ) (input : List UInt8) (c : Client σ) : Client σ × Option Crash :=
  match ({ c with session := rw.1 } : Client σ).consumeOutput rw.2.1 with
  | (c, some e) => (c, some e)
  | (c, none) => (c.sendOutput rw.2.1).nextInput api input rw.2.1.readSize

/-- A round of `on_read` is one in which `read_write` does what it does on the input that
    is left. -/
theorem sslRound_eq (input : List UInt8) (c : Client σ) :
    c.sslRound api input = c.roundWith api (api.readWrite input [] c.session) input := rfl

variable (rws : ℕ → Outcome σ) (c : Client σ) (input : List UInt8)

/-- The client after `n` iterations of `on_read`, in which `read_write` does `rws 0`,
    `rws 1` and so on; `none` when there are not that many. -/
def loop : ℕ → Option (Client σ)
  | 0 => some (c.onRead input).1
  | n + 1 =>
    match loop n with
    | none => none
    | some c =>
      match c.conn.reading with
      | none => none
      | some rest =>
        match c.roundWith api (rws n) rest with
        | (c, none) => some c
        | (_, some _) => none

/-- Iteration `n` begins, with this client and this rest of the input. -/
def Begins (n : ℕ) (c' : Client σ) (rest : List UInt8) : Prop :=
  loop api rws c input n = some c' ∧ c'.conn.reading = some rest

/-- There are finitely many iterations. -/
def Ends : Prop := ∃ n, ∀ c' rest, ¬ Begins api rws c input n c' rest

/-- The process dies in an iteration. -/
def Dies : Prop :=
  ∃ n c' rest, Begins api rws c input n c' rest ∧ (c'.roundWith api (rws n) rest).2 ≠ none

/-- What the first `n` calls take. -/
def taken (n : ℕ) : ℕ := ∑ j ∈ Finset.range n, (rws j).2.1.readSize

/-- From some call on, with input left, every call returns an error. -/
def Stuck : Prop := ∃ N, taken rws N < input.length ∧ ∀ n ≥ N, (rws n).2.2 ≠ none

end

variable {api : OpenSsl σ} {rws : ℕ → Outcome σ} {c c' : Client σ} {input rest : List UInt8}

/-- What a round leaves of its input. -/
theorem roundWith_reading {rw : Outcome σ} (h : c.roundWith api rw input = (c', none)) :
    c'.conn.reading =
      if rw.2.1.readSize < input.length then some (input.drop rw.2.1.readSize) else none := by
  unfold roundWith at h
  split at h
  · cases h
  · exact (nextInput_spec h).2

theorem loop_zero (hssl : c.conn.ssl = true) : Begins api rws c input 0
    { c with conn := { c.conn with reading := some input } } input := by
  refine ⟨?_, rfl⟩
  rw [loop, onRead, if_pos hssl]

theorem taken_succ (rws : ℕ → Outcome σ) (n : ℕ) :
    taken rws (n + 1) = taken rws n + (rws n).2.1.readSize := Finset.sum_range_succ _ n

theorem taken_mono (rws : ℕ → Outcome σ) {m n : ℕ} (h : m ≤ n) : taken rws m ≤ taken rws n := by
  induction h with
  | refl => exact le_rfl
  | @step n _ ih =>
    rw [taken_succ]
    omega

/-- The iteration after one that begins. -/
theorem Begins.succ {n : ℕ} {c'' : Client σ} (h : Begins api rws c input n c' rest)
    (hround : c'.roundWith api (rws n) rest = (c'', none)) :
    loop api rws c input (n + 1) = some c'' := by
  simp only [loop, h.1, h.2, hround]

/-- Where `read_write` does what it does on the input that is left, the iterations are the
    rounds of the client. -/
theorem Begins.round_iff {n : ℕ} {c'' : Client σ} (h : Begins api rws c input n c' rest)
    (hrw : rws n = api.readWrite rest [] c'.session) :
    step api c' .round c'' ↔ loop api rws c input (n + 1) = some c'' := by
  constructor
  · rintro ⟨rest', hreading, hround⟩
    obtain rfl := Option.some.inj (h.2.symm.trans hreading)
    rw [sslRound_eq, ← hrw] at hround
    exact h.succ hround
  · intro hloop
    refine ⟨rest, h.2, ?_⟩
    rw [sslRound_eq, ← hrw]
    simp only [loop, h.1, h.2] at hloop
    split at hloop
    · rename_i c₂ hround
      cases hloop
      exact hround
    · cases hloop

/-- The iteration before one that begins. -/
theorem Begins.pred {n : ℕ} (h : Begins api rws c input (n + 1) c' rest) :
    ∃ c₁ rest₁, Begins api rws c input n c₁ rest₁ ∧
      c₁.roundWith api (rws n) rest₁ = (c', none) := by
  obtain ⟨h, -⟩ := h
  rw [loop] at h
  split at h
  · cases h
  rename_i c₁ hloop
  split at h
  · cases h
  rename_i rest₁ hreading
  split at h
  · rename_i c₂ hround
    cases h
    exact ⟨c₁, rest₁, ⟨hloop, hreading⟩, hround⟩
  · cases h

/-- **An iteration gets what the calls before it have not taken.** -/
theorem loop_reading (hssl : c.conn.ssl = true) {n : ℕ}
    (h : Begins api rws c input n c' rest) :
    rest = input.drop (taken rws n) ∧ (n ≠ 0 → taken rws n < input.length) := by
  induction n generalizing c' rest with
  | zero =>
    obtain ⟨hloop, hreading⟩ := h
    rw [(loop_zero hssl).1] at hloop
    cases hloop
    cases hreading
    exact ⟨rfl, fun hne => absurd rfl hne⟩
  | succ n ih =>
    obtain ⟨c₁, rest₁, hbegins, hround⟩ := h.pred
    obtain ⟨rfl, _⟩ := ih hbegins
    have hreading := roundWith_reading hround
    rw [h.2, List.length_drop] at hreading
    split at hreading
    · rw [List.drop_drop] at hreading
      rw [taken_succ]
      exact ⟨Option.some.inj hreading, fun _ => by omega⟩
    · cases hreading

/-- As long as the process lives, the loop goes on while there is input left. -/
theorem begins_of_taken_lt (hssl : c.conn.ssl = true) (hlives : ¬ Dies api rws c input) {n : ℕ}
    (h : taken rws n < input.length) :
    ∃ c', Begins api rws c input n c' (input.drop (taken rws n)) := by
  induction n with
  | zero => exact ⟨_, loop_zero hssl⟩
  | succ n ih =>
    rw [taken_succ] at h ⊢
    obtain ⟨c₁, hbegins⟩ := ih (by omega)
    rcases hround : c₁.roundWith api (rws n) (input.drop (taken rws n)) with ⟨c₂, _ | e⟩
    · have hreading := roundWith_reading hround
      rw [List.length_drop, if_pos (by omega), List.drop_drop] at hreading
      exact ⟨c₂, hbegins.succ hround, hreading⟩
    · exact absurd ⟨n, c₁, _, hbegins, by simp [hround]⟩ hlives

/-! ## The end of the loop -/

/-- Errors take nothing. -/
theorem taken_eq_of_stuck (hssl : c.conn.ssl = true) (hlives : ¬ Dies api rws c input)
    (hlegal : ∀ n c' rest, Begins api rws c input n c' rest → (rws n).Legal rest) {N : ℕ}
    (hN : taken rws N < input.length) (herror : ∀ n ≥ N, (rws n).2.2 ≠ none) {n : ℕ}
    (hn : N ≤ n) : taken rws n = taken rws N := by
  induction hn with
  | refl => rfl
  | @step n hn ih =>
    obtain ⟨c', hbegins⟩ := begins_of_taken_lt hssl hlives (ih.trans_lt hN)
    have hout := hlegal n c' _ hbegins
    unfold Outcome.Legal at hout
    split at hout
    · rw [taken_succ, hout, ih]
      rfl
    · rename_i hnone
      exact absurd hnone (herror n hn)

theorem not_ends_of_stuck (hssl : c.conn.ssl = true) (hlives : ¬ Dies api rws c input)
    (hlegal : ∀ n c' rest, Begins api rws c input n c' rest → (rws n).Legal rest)
    (h : Stuck rws input) : ¬ Ends api rws c input := by
  obtain ⟨N, hN, herror⟩ := h
  rintro ⟨n, hn⟩
  have hle : taken rws n ≤ taken rws N := by
    rw [← taken_eq_of_stuck hssl hlives hlegal hN herror (le_max_left N n)]
    exact taken_mono rws (le_max_right N n)
  obtain ⟨c', hbegins⟩ := begins_of_taken_lt hssl hlives (hle.trans_lt hN)
  exact hn c' _ hbegins

/-- A loop without end has input left in every iteration, and so infinitely many calls
    that take nothing. -/
theorem stuck_of_not_ends (hssl : c.conn.ssl = true)
    (hlegal : ∀ n c' rest, Begins api rws c input n c' rest → (rws n).Legal rest)
    (h : ¬ Ends api rws c input) : Stuck rws input := by
  have hbegins : ∀ n, ∃ c' rest, Begins api rws c input n c' rest := by
    intro n
    by_contra hnone
    simp only [not_exists] at hnone
    exact h ⟨n, hnone⟩
  have hlt : ∀ n, taken rws n < input.length := by
    intro n
    obtain ⟨c', rest, hn⟩ := hbegins (n + 1)
    exact (taken_mono rws n.le_succ).trans_lt ((loop_reading hssl hn).2 n.succ_ne_zero)
  obtain ⟨N, hN⟩ := eventually_zero fun n => (hlt n).le
  refine ⟨N, hlt N, ?_⟩
  intro n hn hnone
  obtain ⟨c', rest, hbegin⟩ := hbegins n
  have hrest := (loop_reading hssl hbegin).1
  have hne : rest ≠ [] := by
    rw [hrest, Ne, List.drop_eq_nil_iff]
    have := hlt n
    omega
  have hout := hlegal n c' rest hbegin
  unfold Outcome.Legal at hout
  rw [hnone] at hout
  have hpos := hout.2 hne
  have hzero := hN n hn
  omega

/-- **The SSL loop ends, unless from some call on `read_write` only returns errors while
    there is input left.** -/
theorem ends_iff (hssl : c.conn.ssl = true)
    (hlegal : ∀ n c' rest, Begins api rws c input n c' rest → (rws n).Legal rest) :
    Ends api rws c input ↔ Dies api rws c input ∨ ¬ Stuck rws input := by
  constructor
  · intro hends
    by_cases hdies : Dies api rws c input
    · exact Or.inl hdies
    · exact Or.inr fun hstuck => not_ends_of_stuck hssl hdies hlegal hstuck hends
  · intro h
    by_contra hends
    rcases h with ⟨n, c', rest, hbegins, hround⟩ | hstuck
    · refine hends ⟨n + 1, ?_⟩
      intro c'' rest' hnext
      obtain ⟨c₁, rest₁, hbegins₁, hround₁⟩ := hnext.pred
      obtain rfl := Option.some.inj (hbegins.1.symm.trans hbegins₁.1)
      obtain rfl := Option.some.inj (hbegins.2.symm.trans hbegins₁.2)
      rw [hround₁] at hround
      exact hround rfl
    · exact hstuck (stuck_of_not_ends hssl hlegal hends)

/-! ## A session that the peer has closed -/

/-- After a `close_notify` with a byte behind it there is always something pending, and
    `BIO_read` returns zero with `SSL_ERROR_ZERO_RETURN`. -/
def closed : OpenSsl Unit where
  pending
    | .ssl, _ => 1
    | .network, _ => 0
  writeGuarantee _ := 66560
  read _ _ _ := ((), [], 0)
  write _ input _ := ((), input.length)
  getError _ _ := 6
  errorString _ := []
  isInitFinished _ := false

/-- A client with a new SSL connection. -/
def secured : Client Unit where
  conn := Connection.new (fun _ => 0) .throws true false
  incomming := Message.new fun _ => 0
  session := ()

/-- The first call of `read_write` takes a byte, the second one returns an error, and the
    third one takes two bytes. -/
def faltering : ℕ → Outcome Unit
  | 0 => ((), { readSize := 1 }, none)
  | 1 => ((), {}, some ⟨cqlErrorSourceSsl, 1, []⟩)
  | _ => ((), { readSize := 2 }, none)

theorem ends_faltering : Ends closed faltering secured [0x15, 0x03, 0x03] := by
  refine (ends_iff rfl ?_).2 (Or.inr ?_)
  · intro n c' rest h
    obtain ⟨rfl, hlt⟩ := loop_reading rfl h
    rcases n with _ | _ | _ | n
    · exact ⟨by decide, fun _ => le_rfl⟩
    · rfl
    · exact ⟨by decide, fun _ => by decide⟩
    · have hle : taken faltering 3 ≤ taken faltering (n + 3) := taken_mono faltering (by omega)
      exact absurd (hlt (by omega)) (Nat.not_lt.2 hle)
  · rintro ⟨N, -, herror⟩
    exact herror (N + 2) (Nat.le_add_right N 2) rfl

/-- Every call of `read_write` returns the error. -/
theorem closed_readWrite (input : List UInt8) : closed.readWrite input [] () =
    ((), { readOutput := some (1, []) }, some ⟨cqlErrorSourceSsl, 6, []⟩) := rfl

theorem closed_lives (input rest : List UInt8) (c : Client Unit) :
    (c.roundWith closed (closed.readWrite input [] ()) rest).2 = none := by
  have hround : c.roundWith closed (closed.readWrite input [] ()) rest =
    c.nextInput closed rest 0 := rfl
  rw [hround, nextInput]
  split
  · simp [closed]
  · rfl

/-- A closed session keeps `on_read` in its loop. -/
theorem not_ends_closed :
    (∀ rest, closed.readWrite rest [] () = closed.readWrite [0x15] [] () ∧
      Outcome.Legal rest (closed.readWrite rest [] ())) ∧
    ¬ Ends closed (fun _ => closed.readWrite [0x15] [] ()) secured [0x15] := by
  constructor
  · intro rest
    exact ⟨rfl, rfl⟩
  · refine not_ends_of_stuck rfl ?_ ?_ ⟨0, Nat.one_pos, ?_⟩
    · rintro ⟨n, c', rest, _, hdies⟩
      exact hdies (closed_lives [0x15] rest c')
    · intro n c' rest _
      exact rfl
    · intro n _
      simp [closed_readWrite]

end Client

end CqlClient
