/-
  CqlClient formalization — the output sizes of `read_write`.

  `read_output_size` is what `BIO_read` returned, converted to a `size_t` before
  the check, and the check lets a `-1` with `SSL_ERROR_WANT_READ` through.
  `write_output_size` is the number of bytes that were pending, whatever
  `BIO_read` returned.  `honest_readWriteInto` says when both are the numbers of
  bytes in their buffers, and `passesProduced_readWrite` when `on_read`, which
  ignores the error, passes on no more than was produced.
-/
import CqlClient.Client

namespace CqlClient

open Word

variable {σ : Type}

/-- The size says how many bytes are in the buffer, and these fit in it. -/
def Honest (buffer : Option (ℕ × List UInt8)) (size : ℕ) : Prop :=
  match buffer with
  | some (allocated, bytes) => size = bytes.length ∧ size ≤ allocated
  | none => size = 0

/-- A size that `on_read` passes on is not larger than what the call has produced. -/
def PassesProduced (out : ReadWrite) : Prop :=
  (∀ n bytes, out.readOutput = some (n, bytes) → out.readOutputSize ≤ bytes.length) ∧
  (∀ n bytes, out.writeOutput = some (n, bytes) → out.writeOutputSize ≤ bytes.length)

/-- Without bytes for the network. -/
theorem passesProduced_of_none {out : ReadWrite} (h : out.writeOutput = none) :
    PassesProduced out ↔
      ∀ n bytes, out.readOutput = some (n, bytes) → out.readOutputSize ≤ bytes.length := by
  simp [PassesProduced, h]

namespace OpenSsl

/-- `BIO_read` returns an `int`, not more than it was asked for; it places that many
    bytes, and none if it is negative. -/
structure ReadsInto (api : OpenSsl σ) : Prop where
  placed : ∀ b n s, (api.read b n s).2.1.length = (api.read b n s).2.2.toNat
  le : ∀ b n s, (api.read b n s).2.2 ≤ n
  range : ∀ b n s, -2 ^ 31 ≤ (api.read b n s).2.2 ∧ (api.read b n s).2.2 < 2 ^ 31

section
variable (api : OpenSsl σ)

/-- `read_write`, whose out parameters hold these values before the call. -/
def readWriteInto (out : ReadWrite) (readInput writeInput : List UInt8) (s : σ) :
    σ × ReadWrite × Option Error :=
  match api.writeApplication writeInput s with
  | (s, some e) => (s, out, some e)
  | (s, none) =>
    match api.readApplication out s with
    | (s, out, some e) => (s, out, some e)
    | (s, out, none) =>
      match api.writeNetwork readInput out s with
      | (s, out, some e) => (s, out, some e)
      | (s, out, none) => api.readNetwork out s

/-- Its callers pass null pointers and zero sizes. -/
theorem readWrite_eq (readInput writeInput : List UInt8) (s : σ) :
    api.readWrite readInput writeInput s = api.readWriteInto {} readInput writeInput s := rfl

/-- The session when `read_write` looks for application bytes. -/
def beforeRead (writeInput : List UInt8) (s : σ) : σ := (api.writeApplication writeInput s).1

/-- The session when `read_write` looks for bytes for the network. -/
def beforeWrite (readInput writeInput : List UInt8) (s : σ) : σ :=
  (api.writeNetwork readInput {} (api.readApplication {} (api.beforeRead writeInput s)).1).1

/-- The first `BIO_read` does not fail; where there is none, the size was zero before. -/
def ReadSucceeds (size : ℕ) (s : σ) : Prop :=
  if api.pending .ssl s = 0 then size = 0 else 0 ≤ (api.read .ssl (api.pending .ssl s) s).2.2

/-- The second `BIO_read`, if there is one, returns all that is pending. -/
def WriteComplete (s : σ) : Prop :=
  api.pending .network s = 0 ∨
    (api.read .network (api.pending .network s) s).2.2 = api.pending .network s

end

variable {api : OpenSsl σ}

/-! ## The two reads -/

/-- A negative value is a huge size. -/
theorem toSizeT_le_iff {r : ℤ} (h : -2 ^ 31 ≤ r ∧ r < 2 ^ 31) :
    toSizeT r ≤ r.toNat ↔ 0 ≤ r := by
  simp only [toSizeT]
  omega

theorem toSizeT_eq_iff {r : ℤ} (h : -2 ^ 31 ≤ r ∧ r < 2 ^ 31) :
    toSizeT r = r.toNat ↔ 0 ≤ r := by
  simp only [toSizeT]
  omega

theorem honest_readApplication (hapi : api.ReadsInto) (out : ReadWrite)
    (hout : out.readOutput = none) (s : σ) :
    Honest (api.readApplication out s).2.1.readOutput
      (api.readApplication out s).2.1.readOutputSize ↔
        api.ReadSucceeds out.readOutputSize s := by
  unfold ReadSucceeds
  by_cases hp : api.pending .ssl s = 0
  · simp only [readApplication_idle hp, if_pos hp, hout, Honest]
  · have hplaced := hapi.placed .ssl (api.pending .ssl s) s
    have hle := hapi.le .ssl (api.pending .ssl s) s
    have hsize := toSizeT_eq_iff (hapi.range .ssl (api.pending .ssl s) s)
    simp only [readApplication_pending hp, if_neg hp, Honest, hplaced, hsize]
    constructor
    · intro h
      exact h.1
    · intro h
      refine ⟨h, ?_⟩
      rw [hsize.2 h]
      omega

theorem honest_readNetwork (hapi : api.ReadsInto) (out : ReadWrite)
    (hout : out.writeOutput = none) (s : σ) :
    Honest (api.readNetwork out s).2.1.writeOutput (api.readNetwork out s).2.1.writeOutputSize ↔
      api.WriteComplete s := by
  unfold WriteComplete
  by_cases hp : api.pending .network s = 0
  · simp only [readNetwork_idle hp, hout, Honest, hp, true_or]
  · have hplaced := hapi.placed .network (api.pending .network s) s
    simp only [readNetwork_pending hp, Honest, hplaced, hp, false_or, le_refl, and_true]
    omega

theorem passes_readApplication (hapi : api.ReadsInto) (s : σ) :
    (∀ n bytes, (api.readApplication {} s).2.1.readOutput = some (n, bytes) →
      (api.readApplication {} s).2.1.readOutputSize ≤ bytes.length) ↔ api.ReadSucceeds 0 s := by
  unfold ReadSucceeds
  by_cases hp : api.pending .ssl s = 0
  · simp [readApplication_idle hp, hp]
  · have hplaced := hapi.placed .ssl (api.pending .ssl s) s
    have hsize := toSizeT_le_iff (hapi.range .ssl (api.pending .ssl s) s)
    simp only [readApplication_pending hp, if_neg hp, Option.some.injEq, Prod.mk.injEq]
    constructor
    · intro h
      rw [← hsize, ← hplaced]
      exact h _ _ ⟨rfl, rfl⟩
    · rintro h n bytes ⟨rfl, rfl⟩
      rw [hplaced]
      exact hsize.2 h

theorem passes_readNetwork (hapi : api.ReadsInto) (out : ReadWrite)
    (hout : out.writeOutput = none) (s : σ) :
    (∀ n bytes, (api.readNetwork out s).2.1.writeOutput = some (n, bytes) →
      (api.readNetwork out s).2.1.writeOutputSize ≤ bytes.length) ↔ api.WriteComplete s := by
  unfold WriteComplete
  by_cases hp : api.pending .network s = 0
  · simp [readNetwork_idle hp, hp, hout]
  · have hplaced := hapi.placed .network (api.pending .network s) s
    have hle := hapi.le .network (api.pending .network s) s
    simp only [readNetwork_pending hp, hp, Option.some.injEq, Prod.mk.injEq, false_or]
    constructor
    · intro h
      have h := h _ _ ⟨rfl, rfl⟩
      rw [hplaced] at h
      omega
    · rintro h n bytes ⟨rfl, rfl⟩
      rw [hplaced, h, Int.toNat_natCast]

/-! ## What the other steps leave alone -/

/-- The out parameters do not matter to the session. -/
theorem readApplication_session (api : OpenSsl σ) (out : ReadWrite) (s : σ) :
    (api.readApplication out s).1 = (api.readApplication {} s).1 ∧
      (api.readApplication out s).2.2 = (api.readApplication {} s).2.2 := by
  by_cases hp : api.pending .ssl s = 0
  · rw [readApplication_idle hp, readApplication_idle hp]
    exact ⟨rfl, rfl⟩
  · rw [readApplication_pending hp, readApplication_pending hp]
    exact ⟨rfl, rfl⟩

theorem writeNetwork_session (api : OpenSsl σ) (input : List UInt8) (out : ReadWrite) (s : σ) :
    (api.writeNetwork input out s).1 = (api.writeNetwork input {} s).1 ∧
      (api.writeNetwork input out s).2.2 = (api.writeNetwork input {} s).2.2 := by
  by_cases h : input = [] ∨ api.writeGuarantee s = 0
  · rw [writeNetwork_idle h, writeNetwork_idle h]
    exact ⟨rfl, rfl⟩
  · obtain ⟨hinput, hroom⟩ := not_or.1 h
    rw [writeNetwork_room hinput hroom, writeNetwork_room hinput hroom]
    exact ⟨rfl, rfl⟩

theorem readApplication_writeOutput (api : OpenSsl σ) (out : ReadWrite) (s : σ) :
    (api.readApplication out s).2.1.writeOutput = out.writeOutput := by
  by_cases hp : api.pending .ssl s = 0
  · rw [readApplication_idle hp]
  · rw [readApplication_pending hp]

theorem writeNetwork_outputs (api : OpenSsl σ) (input : List UInt8) (out : ReadWrite) (s : σ) :
    (api.writeNetwork input out s).2.1.readOutput = out.readOutput ∧
      (api.writeNetwork input out s).2.1.readOutputSize = out.readOutputSize ∧
      (api.writeNetwork input out s).2.1.writeOutput = out.writeOutput := by
  by_cases h : input = [] ∨ api.writeGuarantee s = 0
  · rw [writeNetwork_idle h]
    exact ⟨rfl, rfl, rfl⟩
  · obtain ⟨hinput, hroom⟩ := not_or.1 h
    rw [writeNetwork_room hinput hroom]
    exact ⟨rfl, rfl, rfl⟩

theorem readNetwork_readOutput (api : OpenSsl σ) (out : ReadWrite) (s : σ) :
    (api.readNetwork out s).2.1.readOutput = out.readOutput ∧
      (api.readNetwork out s).2.1.readOutputSize = out.readOutputSize := by
  by_cases hp : api.pending .network s = 0
  · rw [readNetwork_idle hp]
    exact ⟨rfl, rfl⟩
  · rw [readNetwork_pending hp]
    exact ⟨rfl, rfl⟩

/-! ## A call of `read_write` -/

variable {readInput writeInput : List UInt8} {s s' : σ} {out : ReadWrite}

/-- A call that returns `NULL` has taken all its steps. -/
theorem readWriteInto_none {sizes : ReadWrite}
    (h : api.readWriteInto sizes readInput writeInput s = (s', out, none)) :
    ∃ s₁ out₁ s₂ out₂, api.readApplication sizes (api.beforeRead writeInput s) = (s₁, out₁, none) ∧
      api.writeNetwork readInput out₁ s₁ = (s₂, out₂, none) ∧
      api.readNetwork out₂ s₂ = (s', out, none) := by
  unfold beforeRead
  unfold readWriteInto at h
  rcases happly : api.writeApplication writeInput s with ⟨s₀, _ | e⟩
  · rw [happly] at h
    simp only at h ⊢
    rcases hread : api.readApplication sizes s₀ with ⟨s₁, out₁, _ | e⟩
    · rw [hread] at h
      simp only at h
      rcases hwrite : api.writeNetwork readInput out₁ s₁ with ⟨s₂, out₂, _ | e⟩
      · rw [hwrite] at h
        exact ⟨s₁, out₁, s₂, out₂, rfl, hwrite, h⟩
      · rw [hwrite] at h
        cases h
    · rw [hread] at h
      cases h
  · rw [happly] at h
    cases h

/-- **The two sizes of a call that returns `NULL`.** -/
theorem honest_readWriteInto (hapi : api.ReadsInto) {i k j : ℕ}
    (h : api.readWriteInto ⟨i, none, k, none, j⟩ readInput writeInput s = (s', out, none)) :
    (Honest out.readOutput out.readOutputSize ↔
      api.ReadSucceeds k (api.beforeRead writeInput s)) ∧
    (Honest out.writeOutput out.writeOutputSize ↔
      api.WriteComplete (api.beforeWrite readInput writeInput s)) := by
  obtain ⟨s₁, out₁, s₂, out₂, hread, hwrite, hnetwork⟩ := readWriteInto_none h
  have hhonest := honest_readApplication hapi ⟨i, none, k, none, j⟩ rfl
    (api.beforeRead writeInput s)
  have hsession := (api.readApplication_session ⟨i, none, k, none, j⟩
    (api.beforeRead writeInput s)).1
  have hout₁ := api.readApplication_writeOutput ⟨i, none, k, none, j⟩
    (api.beforeRead writeInput s)
  rw [hread] at hhonest hsession hout₁
  have hsession₂ := (api.writeNetwork_session readInput out₁ s₁).1
  obtain ⟨hbuffer, hsize, hout₂⟩ := api.writeNetwork_outputs readInput out₁ s₁
  rw [hwrite] at hsession₂ hbuffer hsize hout₂
  obtain ⟨hbuffer', hsize'⟩ := api.readNetwork_readOutput out₂ s₂
  have hhonest' := honest_readNetwork hapi out₂ (hout₂.trans hout₁) s₂
  rw [hnetwork] at hbuffer' hsize' hhonest'
  constructor
  · rw [hbuffer', hsize', hbuffer, hsize]
    exact hhonest
  · have hbefore : api.beforeWrite readInput writeInput s = s₂ := by
      rw [beforeWrite, ← hsession]
      exact hsession₂.symm
    rw [hbefore]
    exact hhonest'

/-- **What `on_read` passes on.**  It does so whether the call returned an error or not. -/
theorem passesProduced_readWrite (hapi : api.ReadsInto) (input : List UInt8) (s : σ) :
    PassesProduced (api.readWrite input [] s).2.1 ↔ api.ReadSucceeds 0 s ∧
      ((api.readApplication {} s).2.2 = none →
        (api.writeNetwork input {} (api.readApplication {} s).1).2.2 = none →
          api.WriteComplete (api.beforeWrite input [] s)) := by
  have hpasses := passes_readApplication hapi s
  have hnothing := api.readApplication_writeOutput {} s
  have hbefore : api.beforeWrite input [] s =
    (api.writeNetwork input {} (api.readApplication {} s).1).1 := rfl
  have hcall : api.readWrite input [] s =
      match api.readApplication {} s with
      | (s, out, some e) => (s, out, some e)
      | (s, out, none) =>
        match api.writeNetwork input out s with
        | (s, out, some e) => (s, out, some e)
        | (s, out, none) => api.readNetwork out s := rfl
  rw [hcall, hbefore]
  rcases hread : api.readApplication {} s with ⟨s₁, out₁, _ | e⟩
  · rw [hread] at hpasses hnothing
    obtain ⟨hsession, herror⟩ := api.writeNetwork_session input out₁ s₁
    obtain ⟨hbuffer, hsize, hout⟩ := api.writeNetwork_outputs input out₁ s₁
    simp only [forall_const]
    rw [← hsession, ← herror]
    rcases hwrite : api.writeNetwork input out₁ s₁ with ⟨s₂, out₂, _ | e⟩
    · rw [hwrite] at hbuffer hsize hout
      obtain ⟨hbuffer', hsize'⟩ := api.readNetwork_readOutput out₂ s₂
      have hnetwork := passes_readNetwork hapi out₂ (hout.trans hnothing) s₂
      simp only [forall_const, PassesProduced]
      rw [hbuffer', hsize', hbuffer, hsize, hnetwork, hpasses]
    · rw [hwrite] at hbuffer hsize hout
      simp only [reduceCtorEq, false_implies, and_true]
      rw [passesProduced_of_none (hout.trans hnothing), hbuffer, hsize, hpasses]
  · rw [hread] at hpasses hnothing
    simp only [reduceCtorEq, false_implies, and_true]
    rw [passesProduced_of_none hnothing, hpasses]

/-- **The sizes are honest exactly when `BIO_read` does not fail and takes all that is
    pending for the network**, for a call that returns `NULL` and for what `on_read` passes
    on in an iteration. -/
theorem sizes_honest_iff (hapi : api.ReadsInto) :
    (∀ (i k j : ℕ) (readInput writeInput : List UInt8) (s s' : σ) (out : ReadWrite),
      api.readWriteInto ⟨i, none, k, none, j⟩ readInput writeInput s = (s', out, none) →
        (Honest out.readOutput out.readOutputSize ∧ Honest out.writeOutput out.writeOutputSize ↔
          api.ReadSucceeds k (api.beforeRead writeInput s) ∧
            api.WriteComplete (api.beforeWrite readInput writeInput s))) ∧
    ∀ (c : Client σ) (input : List UInt8),
      PassesProduced (api.readWrite input [] c.session).2.1 ↔ api.ReadSucceeds 0 c.session ∧
        ((api.readApplication {} c.session).2.2 = none →
          (api.writeNetwork input {} (api.readApplication {} c.session).1).2.2 = none →
            api.WriteComplete (api.beforeWrite input [] c.session)) := by
  constructor
  · intro i k j readInput writeInput s s' out h
    obtain ⟨hread, hwrite⟩ := honest_readWriteInto hapi h
    exact and_congr hread hwrite
  · intro c input
    exact passesProduced_readWrite hapi input c.session

/-! ## Before the handshake is done -/

/-- Five bytes are pending.  As long as the handshake is not done they are no
    application bytes, and `BIO_read` returns `-1` with `SSL_ERROR_WANT_READ`. -/
def handshaking : OpenSsl Bool where
  pending
    | .ssl, _ => 5
    | .network, _ => 0
  writeGuarantee _ := 66560
  read _ n done :=
    if done then (done, List.replicate (min n 5) 0, (min n 5 : ℕ)) else (done, [], -1)
  write _ input done := (done, input.length)
  getError n _ := if 0 < n then sslErrorNone else sslErrorWantRead
  errorString _ := []
  isInitFinished done := done

theorem handshaking_readsInto : handshaking.ReadsInto := by
  constructor
  · intro b n done
    cases done
    · simp [handshaking]
    · simp [handshaking]
      omega
  · intro b n done
    cases done <;> simp [handshaking]
  · intro b n done
    cases done <;> simp [handshaking]

/-- After the handshake the five bytes are read. -/
theorem honest_done : ∃ out, handshaking.readWriteInto ⟨0, none, 0, none, 0⟩ [] [] true =
    (true, out, none) ∧ Honest out.readOutput out.readOutputSize ∧
      Honest out.writeOutput out.writeOutputSize := by
  refine ⟨_, rfl, ((sizes_honest_iff handshaking_readsInto).1 0 0 0 [] [] true true _ rfl).2 ?_⟩
  exact ⟨by simp [ReadSucceeds, handshaking, beforeRead, writeApplication], Or.inl rfl⟩

/-- Before that, `-1` is the size `2 ^ 64 - 1`, and `on_read` passes it to `consume`. -/
theorem not_honest_handshaking : handshaking.ReadsInto ∧
    (∃ out, handshaking.readWriteInto ⟨0, none, 0, none, 0⟩ [] [] false = (false, out, none) ∧
      out.readOutputSize = 2 ^ 64 - 1 ∧ ¬ Honest out.readOutput out.readOutputSize) ∧
    (Client.sslRound handshaking []
      ⟨Connection.new (fun _ => 0) .throws true false, Message.new fun _ => 0, false⟩).2 =
        some .outOfBounds := by
  refine ⟨handshaking_readsInto, ⟨_, rfl, rfl, ?_⟩, rfl⟩
  intro h
  have hsize : toSizeT (-1) = (-1 : ℤ).toNat := h.1
  have hpos := (toSizeT_eq_iff (by norm_num)).1 hsize
  norm_num at hpos

end OpenSsl

end CqlClient
