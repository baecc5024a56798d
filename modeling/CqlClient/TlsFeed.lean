/-
  CqlClient formalization — what the SSL loop of `on_read` writes to the session.

  `recorded` keeps a record of the bytes that `BIO_write` accepts for the
  network's side, and changes nothing else.  A call of `read_write` records the
  first `read_size` bytes of its input, whatever it returns
  (`recorded_readWrite`); `on_read` goes on with the others, so that the record
  and the input that is left always make up the input (`fed_of_reachable`).
-/
import CqlClient.TlsPipe

namespace CqlClient

variable {σ : Type}

namespace OpenSsl

/-- The session with a record of what is accepted from the network. -/
def recorded (api : OpenSsl σ) : OpenSsl (σ × List UInt8) where
  pending b s := api.pending b s.1
  writeGuarantee s := api.writeGuarantee s.1
  read b n s := (((api.read b n s.1).1, s.2), (api.read b n s.1).2)
  write
    | .network, input, s =>
      (((api.write .network input s.1).1,
        s.2 ++ input.take (api.write .network input s.1).2.toNat),
        (api.write .network input s.1).2)
    | .ssl, input, s => (((api.write .ssl input s.1).1, s.2), (api.write .ssl input s.1).2)
  getError n s := api.getError n s.1
  errorString := api.errorString
  isInitFinished s := api.isInitFinished s.1

/-- `BIO_write` accepts what `BIO_get_write_guarantee` has guaranteed. -/
def Accepts (api : OpenSsl σ) : Prop :=
  ∀ s input, input.length ≤ api.writeGuarantee s →
    (api.write .network input s).2 = (input.length : ℤ)

variable {api : OpenSsl σ}

theorem recorded_readApplication (out : ReadWrite) (s : σ × List UInt8) :
    api.recorded.readApplication out s =
      (((api.readApplication out s.1).1, s.2), (api.readApplication out s.1).2) := by
  by_cases hp : api.pending .ssl s.1 = 0
  · have hp' : api.recorded.pending .ssl s = 0 := hp
    rw [readApplication_idle hp, readApplication_idle hp']
  · have hp' : api.recorded.pending .ssl s ≠ 0 := hp
    rw [readApplication_pending hp, readApplication_pending hp']
    rfl

theorem recorded_readNetwork (out : ReadWrite) (s : σ × List UInt8) :
    api.recorded.readNetwork out s =
      (((api.readNetwork out s.1).1, s.2), (api.readNetwork out s.1).2) := by
  by_cases hp : api.pending .network s.1 = 0
  · have hp' : api.recorded.pending .network s = 0 := hp
    rw [readNetwork_idle hp, readNetwork_idle hp']
  · have hp' : api.recorded.pending .network s ≠ 0 := hp
    rw [readNetwork_pending hp, readNetwork_pending hp']
    rfl

/-- The input half of `read_write`: no input, no room, or as much as there is room for. -/
theorem recorded_writeNetwork (haccepts : api.Accepts) (input : List UInt8) (out : ReadWrite)
    (s : σ × List UInt8) : api.recorded.writeNetwork input out s =
      (((api.writeNetwork input out s.1).1,
        s.2 ++ input.take (api.writeNetwork input out s.1).2.1.readSize),
        (api.writeNetwork input out s.1).2) := by
  by_cases h : input = [] ∨ api.writeGuarantee s.1 = 0
  · have h' : input = [] ∨ api.recorded.writeGuarantee s = 0 := h
    simp only [writeNetwork_idle h, writeNetwork_idle h', List.take_zero, List.append_nil]
  · obtain ⟨hinput, hroom⟩ := not_or.1 h
    have hroom' : api.recorded.writeGuarantee s ≠ 0 := hroom
    have hlen : (input.take (min (api.writeGuarantee s.1) input.length)).length ≤
        api.writeGuarantee s.1 := by
      rw [List.length_take]
      omega
    have hwrite := haccepts s.1 _ hlen
    rw [writeNetwork_room hinput hroom, writeNetwork_room hinput hroom']
    simp only [recorded, hwrite, Int.toNat_natCast, List.take_length]
    rfl

theorem readApplication_readSize (out : ReadWrite) (s : σ) :
    (api.readApplication out s).2.1.readSize = out.readSize := by
  by_cases hp : api.pending .ssl s = 0
  · rw [readApplication_idle hp]
  · rw [readApplication_pending hp]

theorem readNetwork_readSize (out : ReadWrite) (s : σ) :
    (api.readNetwork out s).2.1.readSize = out.readSize := by
  by_cases hp : api.pending .network s = 0
  · rw [readNetwork_idle hp]
  · rw [readNetwork_pending hp]

/-- **A call of `read_write` records the first `read_size` bytes of its input**, and is the
    same call otherwise. -/
theorem recorded_readWrite (haccepts : api.Accepts) (input : List UInt8) (s : σ × List UInt8) :
    api.recorded.readWrite input [] s =
      (((api.readWrite input [] s.1).1,
        s.2 ++ input.take (api.readWrite input [] s.1).2.1.readSize),
        (api.readWrite input [] s.1).2) := by
  have hsize : (api.readApplication {} s.1).2.1.readSize = 0 := readApplication_readSize {} s.1
  simp only [readWrite, writeApplication, List.length_nil, ne_eq, not_true_eq_false, if_false,
    recorded_readApplication]
  rcases hread : api.readApplication {} s.1 with ⟨s₁, out₁, _ | e⟩
  · simp only [recorded_writeNetwork haccepts]
    rcases api.writeNetwork input out₁ s₁ with ⟨s₂, out₂, _ | e⟩
    · simp only [recorded_readNetwork, readNetwork_readSize]
    · rfl
  · rw [hread] at hsize
    have hsize : out₁.readSize = 0 := hsize
    simp only [hsize, List.take_zero, List.append_nil]

end OpenSsl

/-! ## The loop -/

/-- The iterations of a call of `on_read` with this input. -/
def feeding (api : OpenSsl σ) (c₀ : Client (σ × List UInt8)) (input : List UInt8) :
    System (Client (σ × List UInt8)) Unit where
  init c := c₀.onRead input = (c, none)
  step c _ c' := Client.step api.recorded c .round c'

/-- What has been recorded since and what is left of the input make up the input, and
    nothing is left when the loop has been left. -/
def Fed (record input : List UInt8) (c : Client (σ × List UInt8)) : Prop :=
  ∃ fed rest, fed ++ rest = input ∧ c.session.2 = record ++ fed ∧
    (c.conn.reading = some rest ∨ c.conn.reading = none ∧ rest = [])

variable {api : OpenSsl σ} {c₀ c c' : Client (σ × List UInt8)} {record input : List UInt8}

/-- One iteration. -/
theorem Fed.round (haccepts : api.Accepts) (h : Fed record input c)
    (hs : Client.step api.recorded c .round c') : Fed record input c' := by
  obtain ⟨fed, rest, rfl, hrecord, hrest⟩ := h
  obtain ⟨rest', hreading, hround⟩ := hs
  rcases hrest with hrest | ⟨hnone, _⟩
  · obtain rfl := Option.some.inj (hrest.symm.trans hreading)
    obtain ⟨hsession, hreading'⟩ := Client.sslRound_spec hround
    rw [OpenSsl.recorded_readWrite haccepts] at hsession hreading'
    refine ⟨fed ++ rest.take (api.readWrite rest [] c.session.1).2.1.readSize,
      rest.drop (api.readWrite rest [] c.session.1).2.1.readSize, ?_, ?_, ?_⟩
    · rw [List.append_assoc, List.take_append_drop]
    · rw [hsession, hrecord, List.append_assoc]
    · rw [hreading']
      split
      · exact Or.inl rfl
      · rename_i hge
        exact Or.inr ⟨rfl, List.drop_eq_nil_of_le (Nat.not_lt.1 hge)⟩
  · rw [hnone] at hreading
    cases hreading

/-- **The session gets the input without gaps or repeats**: in every iteration what it has
    been given is a prefix of the input and what is left is the rest, and within the
    iteration it is given a prefix of that rest. -/
theorem fed_of_reachable (haccepts : api.Accepts) (hssl : c₀.conn.ssl = true)
    (h : (feeding api c₀ input).Reachable c) :
    Fed c₀.session.2 input c ∧ ∀ rest, c.conn.reading = some rest →
      ∃ fed, (api.recorded.readWrite rest [] c.session).1.2 = c₀.session.2 ++ fed ∧
        fed <+: input := by
  have hfed : Fed c₀.session.2 input c := by
    induction h with
    | init h =>
      have h : c₀.onRead input = (_, none) := h
      rw [onRead_ssl hssl] at h
      cases h
      exact ⟨[], input, rfl, (List.append_nil _).symm, Or.inl rfl⟩
    | step _ hs ih => exact ih.round haccepts hs
  refine ⟨hfed, ?_⟩
  intro rest hreading
  obtain ⟨fed, rest', rfl, hrecord, hrest | ⟨hnone, _⟩⟩ := hfed
  · obtain rfl := Option.some.inj (hrest.symm.trans hreading)
    refine ⟨fed ++ rest'.take (api.readWrite rest' [] c.session.1).2.1.readSize, ?_, ?_⟩
    · rw [OpenSsl.recorded_readWrite haccepts, hrecord, List.append_assoc]
    · exact (List.prefix_append_right_inj fed).2 (List.take_prefix _ _)
  · rw [hnone] at hreading
    cases hreading

/-- `established`, with an empty record. -/
def unrecorded : Client (List UInt8 × List UInt8) :=
  ⟨established.conn, established.incomming, ([], [])⟩

/-- Six bytes, of which there is room for four. -/
theorem fed_sixBytes : ∃ c, (feeding fourBytes unrecorded [1, 2, 3, 4, 5, 6]).Reachable c ∧
    c.session.2 = [1, 2, 3, 4] ∧ c.conn.reading = some [5, 6] ∧
    Fed unrecorded.session.2 [1, 2, 3, 4, 5, 6] c := by
  have hstart : (feeding fourBytes unrecorded [1, 2, 3, 4, 5, 6]).Reachable
      { unrecorded with conn := { unrecorded.conn with reading := some [1, 2, 3, 4, 5, 6] } } :=
    .init rfl
  have hround := hstart.step (a := ()) ⟨_, rfl, rfl⟩
  exact ⟨_, hround, rfl, rfl, (fed_of_reachable (fun _ _ _ => rfl) rfl hround).1⟩

end CqlClient
