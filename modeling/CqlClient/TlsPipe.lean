/-
  CqlClient formalization — application bytes through an SSL session.

  A `Pipe` is an OpenSSL whose handshake is over and which loses nothing: what
  `BIO_write` accepts from the network is at once readable.  Bytes of the input
  are then passed to `consume`, or wait in the pipe, or have not been written to
  it, and these follow one another (`Sent.inv`).  `read_write` reads the pipe
  before it writes to it, so what a call of `on_read` writes last waits in the
  pipe for the next call (`passed_iff`).
-/
import CqlClient.Client

namespace CqlClient

open Word

variable {σ : Type}

/-- OpenSSL as a lossless pipe: `bytes` is what has been accepted and not read. -/
structure Pipe (api : OpenSsl σ) where
  bytes : σ → List UInt8
  pending : ∀ s, api.pending .ssl s = (bytes s).length
  guarantee : ∀ s, 0 < api.writeGuarantee s
  /-- `BIO_read(ssl_bio)` of all that is pending -/
  read : ∀ s, bytes (api.read .ssl (bytes s).length s).1 = [] ∧
    (api.read .ssl (bytes s).length s).2 = (bytes s, ((bytes s).length : ℤ))
  write : ∀ s input, input.length ≤ api.writeGuarantee s →
    bytes (api.write .network input s).1 = bytes s ++ input
  /-- what is sent to the network does not come from the pipe -/
  readNetwork : ∀ s n, bytes (api.read .network n s).1 = bytes s
  noError : ∀ n s, api.checkError n s = none

namespace Pipe
variable {api : OpenSsl σ} (pipe : Pipe api)

/-- The pending bytes are read first. -/
theorem readApplication (s : σ) (hs : (pipe.bytes s).length < 2 ^ 64) :
    ∃ s' out, api.readApplication {} s = (s', out, none) ∧ pipe.bytes s' = [] ∧
      Client.applicationBytes out = some (pipe.bytes s) := by
  by_cases hp : api.pending .ssl s = 0
  · have hnil : pipe.bytes s = [] := List.length_eq_zero_iff.1 ((pipe.pending s).symm.trans hp)
    rw [OpenSsl.readApplication_idle hp]
    exact ⟨s, {}, rfl, hnil, by rw [hnil]; rfl⟩
  · obtain ⟨hempty, hread⟩ := pipe.read s
    rw [OpenSsl.readApplication_pending hp]
    simp only [pipe.noError, pipe.pending]
    refine ⟨_, _, rfl, hempty, ?_⟩
    simp only [Client.applicationBytes, hread, toSizeT_natCast hs, le_refl, if_true,
      List.take_length]

/-- Then as much of the input is written as there is room for. -/
theorem writeNetwork (input : List UInt8) (out : ReadWrite) (s : σ)
    (hs : pipe.bytes s = []) : ∃ s' n, api.writeNetwork input out s =
      (s', { out with readSize := n }, none) ∧ pipe.bytes s' = input.take n ∧
      (input ≠ [] → 0 < n) := by
  have hg := pipe.guarantee s
  by_cases hinput : input = []
  · rw [OpenSsl.writeNetwork_idle (Or.inl hinput)]
    refine ⟨s, 0, rfl, ?_, fun hne => absurd hinput hne⟩
    rw [hs, List.take_zero]
  · have hwrite := pipe.write s (input.take (min (api.writeGuarantee s) input.length)) (by
      rw [List.length_take]
      omega)
    rw [hs, List.nil_append] at hwrite
    rw [OpenSsl.writeNetwork_room hinput hg.ne']
    simp only [pipe.noError]
    exact ⟨_, _, rfl, hwrite, fun _ => Nat.lt_min.2 ⟨hg, List.length_pos_iff.2 hinput⟩⟩

theorem readNetwork_spec (out : ReadWrite) (s : σ) :
    ∃ s' out', api.readNetwork out s = (s', out', none) ∧ pipe.bytes s' = pipe.bytes s ∧
      out'.readSize = out.readSize ∧
      Client.applicationBytes out' = Client.applicationBytes out := by
  by_cases hp : api.pending .network s = 0
  · rw [OpenSsl.readNetwork_idle hp]
    exact ⟨s, _, rfl, rfl, rfl, rfl⟩
  · rw [OpenSsl.readNetwork_pending hp]
    simp only [pipe.noError]
    exact ⟨_, _, rfl, pipe.readNetwork s _, rfl, rfl⟩

/-- **A round of `read_write`**: what was in the pipe comes out, and the pipe holds what
    the round took of the input. -/
theorem readWrite (input : List UInt8) (s : σ) (hs : (pipe.bytes s).length < 2 ^ 64) :
    ∃ s' out, api.readWrite input [] s = (s', out, none) ∧
      Client.applicationBytes out = some (pipe.bytes s) ∧
      pipe.bytes s' = input.take out.readSize ∧ (input ≠ [] → 0 < out.readSize) := by
  obtain ⟨s₁, out₁, h₁, hempty, hout₁⟩ := pipe.readApplication s hs
  obtain ⟨s₂, n, h₂, hbytes, hpos⟩ := pipe.writeNetwork input out₁ s₁ hempty
  obtain ⟨s₃, out₃, h₃, hbytes', hsize, hout₃⟩ :=
    pipe.readNetwork_spec { out₁ with readSize := n } s₂
  refine ⟨s₃, out₃, ?_, ?_, ?_, ?_⟩
  · unfold OpenSsl.readWrite OpenSsl.writeApplication
    simp only [List.length_nil, ne_eq, not_true_eq_false, if_false, h₁, h₂, h₃]
  · exact hout₃.trans hout₁
  · rw [hbytes', hbytes, hsize]
  · rw [hsize]
    exact hpos

end Pipe

/-! ## Calls of `on_read` -/

/-- The rounds of one call, from the input that is left, with the bytes that they pass
    to `consume`. -/
inductive Rounds (api : OpenSsl σ) : Client σ → List UInt8 → List UInt8 → Client σ → Prop where
  | last {c c' : Client σ} {input : List UInt8} (h : c.sslRound api input = (c', none))
    (hreading : c'.conn.reading = none) :
    Rounds api c input (Client.decrypted api input c) c'
  | more {c c₁ c' : Client σ} {input rest passed : List UInt8}
    (h : c.sslRound api input = (c₁, none)) (hreading : c₁.conn.reading = some rest)
    (hrest : Rounds api c₁ rest passed c') :
    Rounds api c input (Client.decrypted api input c ++ passed) c'

/-- A client with what the network delivered to it and what it passed to `consume`. -/
structure Sent (σ : Type) where
  client : Client σ
  delivered : List UInt8
  passed : List UInt8

/-- The runs of `on_read` calls that return, from an established session.  A read has
    less than `2 ^ 63` bytes, as its size is an `ssize_t`. -/
def onReadSystem (api : OpenSsl σ) (pipe : Pipe api) : System (Sent σ) (List UInt8) where
  init s := s.client.conn.ssl = true ∧ pipe.bytes s.client.session = [] ∧
    s.delivered = [] ∧ s.passed = []
  step s input s' := input.length < 2 ^ 63 ∧ ∃ c passed, s.client.onRead input = (c, none) ∧
    Rounds api c input passed s'.client ∧ s'.delivered = s.delivered ++ input ∧
    s'.passed = s.passed ++ passed

/-- All that was delivered has been passed on, in order and once. -/
def Sent.Passed (s : Sent σ) : Prop := s.passed = s.delivered

variable {api : OpenSsl σ} (pipe : Pipe api) {c c' : Client σ} {input passed : List UInt8}

/-- The bytes of a round: the pipe's go to `consume`, and what is left of the input
    stays for the next round. -/
theorem sslRound_bytes (h : c.sslRound api input = (c', none))
    (hs : (pipe.bytes c.session).length < 2 ^ 64) :
    Client.decrypted api input c = pipe.bytes c.session ∧
    ∃ n, pipe.bytes c'.session = input.take n ∧ (input ≠ [] → 0 < n) ∧
      c'.conn.reading = if n < input.length then some (input.drop n) else none := by
  obtain ⟨session, out, hrw, hout, hbytes, hpos⟩ := pipe.readWrite input c.session hs
  constructor
  · unfold Client.decrypted
    rw [hrw, hout]
    rfl
  · obtain ⟨hsession, hreading⟩ := Client.sslRound_spec h
    rw [hrw] at hsession hreading
    refine ⟨out.readSize, ?_, hpos, hreading⟩
    rw [hsession]
    exact hbytes

/-- **The bytes of a call.**  They follow those that were in the pipe, and the pipe
    holds something in the end unless there was no input. -/
theorem rounds_bytes (h : Rounds api c input passed c')
    (hs : (pipe.bytes c.session).length < 2 ^ 63)
    (hinput : input.length < 2 ^ 63) :
    pipe.bytes c.session ++ input = passed ++ pipe.bytes c'.session ∧
      (pipe.bytes c'.session).length < 2 ^ 63 ∧
      (pipe.bytes c'.session = [] ↔ input = []) ∧ c'.conn.reading = none := by
  induction h with
  | @last c c' input h hreading =>
    obtain ⟨hdec, n, hbytes, hpos, hnext⟩ := sslRound_bytes pipe h (by omega)
    have hge : input.length ≤ n := by
      by_contra hlt
      rw [hreading, if_pos (Nat.not_le.1 hlt)] at hnext
      cases hnext
    rw [List.take_of_length_le hge] at hbytes
    rw [hdec, hbytes]
    exact ⟨rfl, hinput, Iff.rfl, hreading⟩
  | @more c c₁ c' input rest passed h hreading hrest ih =>
    obtain ⟨hdec, n, hbytes, hpos, hnext⟩ := sslRound_bytes pipe h (by omega)
    rw [hreading] at hnext
    split at hnext
    · rename_i hlt
      cases hnext
      have hlen : (pipe.bytes c₁.session).length < 2 ^ 63 := by
        rw [hbytes, List.length_take]
        omega
      obtain ⟨heq, hlen', hnil, hnone⟩ := ih hlen (by
        rw [List.length_drop]
        omega)
      refine ⟨?_, hlen', hnil.trans ?_, hnone⟩
      · rw [hdec, List.append_assoc, ← heq, hbytes, List.take_append_drop]
      · rw [List.drop_eq_nil_iff, ← List.length_eq_zero_iff]
        omega
    · cases hnext

/-- What was delivered has been passed on or waits in the pipe. -/
structure Sent.Inv (pipe : Pipe api) (s : Sent σ) : Prop where
  ssl : s.client.conn.ssl = true
  delivered : s.delivered = s.passed ++ pipe.bytes s.client.session
  length : (pipe.bytes s.client.session).length < 2 ^ 63

theorem rounds_ssl (h : Rounds api c input passed c') : c'.conn.ssl = c.conn.ssl := by
  induction h with
  | last h _ => exact (Client.sameSsl_of_path (Client.sslRound_path h)).1
  | more h _ _ ih => exact ih.trans (Client.sameSsl_of_path (Client.sslRound_path h)).1

theorem onRead_ssl (hssl : c.conn.ssl = true) {input : List UInt8} :
    c.onRead input = ({ c with conn := { c.conn with reading := some input } }, none) := by
  unfold Client.onRead
  rw [if_pos hssl]

/-- **One call of `on_read`.** -/
theorem Sent.Inv.step {s s' : Sent σ} (h : s.Inv pipe)
    (hs : (onReadSystem api pipe).step s input s') :
    s'.Inv pipe ∧ (pipe.bytes s'.client.session = [] ↔ input = []) := by
  obtain ⟨hinput, c, passed, hread, hrounds, hdelivered, hpassed⟩ := hs
  rw [onRead_ssl h.ssl] at hread
  cases hread
  obtain ⟨heq, hlen, hnil, -⟩ := rounds_bytes pipe hrounds h.length hinput
  refine ⟨⟨(rounds_ssl hrounds).trans h.ssl, ?_, hlen⟩, hnil⟩
  rw [hdelivered, hpassed, h.delivered, List.append_assoc, List.append_assoc, ← heq]

theorem inv_of_reachable {s : Sent σ} (h : (onReadSystem api pipe).Reachable s) : s.Inv pipe := by
  induction h with
  | init h =>
    obtain ⟨hssl, hbytes, hdelivered, hpassed⟩ := h
    refine ⟨hssl, ?_, ?_⟩
    · rw [hdelivered, hpassed, hbytes]
      rfl
    · rw [hbytes]
      norm_num
  | step _ hs ih => exact (ih.step pipe hs).1

/-- **Nothing is left behind exactly when nothing is read**: the last bytes of every
    call that has any wait in the pipe. -/
theorem passed_iff {s : Sent σ} {steps : List (Sent σ × List UInt8)}
    (h : (onReadSystem api pipe).Run s steps) :
    (s.Passed ∧ ∀ x ∈ steps, x.1.Passed) ↔ ∀ x ∈ steps, x.2 = [] := by
  have hpassed : ∀ s : Sent σ, s.Inv pipe → (s.Passed ↔ pipe.bytes s.client.session = []) := by
    intro s hs
    rw [Sent.Passed, hs.delivered]
    exact List.self_eq_append_right
  refine h.forall_iff (G := fun _ input => input = []) ?_ ?_
  · rintro s ⟨-, -, hdelivered, hp⟩
    exact hp.trans hdelivered.symm
  · intro s input s' hreach _ hs
    obtain ⟨hs', hnil⟩ := (inv_of_reachable pipe hreach).step pipe hs
    exact (hpassed s' hs').trans hnil

/-! ## A pipe with room for four bytes -/

def fourBytes : OpenSsl (List UInt8) where
  pending
    | .ssl, s => s.length
    | .network, _ => 0
  writeGuarantee _ := 4
  read
    | .ssl, n, s => (s.drop n, s.take n, (s.take n).length)
    | .network, _, s => (s, [], 0)
  write
    | .network, input, s => (s ++ input, input.length)
    | .ssl, input, s => (s, input.length)
  getError _ _ := sslErrorNone
  errorString _ := []
  isInitFinished _ := true

def fourBytesPipe : Pipe fourBytes where
  bytes s := s
  pending _ := rfl
  guarantee _ := Nat.succ_pos 3
  read s := ⟨List.drop_length, by simp only [fourBytes, List.take_length]⟩
  write _ _ _ := rfl
  readNetwork _ _ := rfl
  noError _ _ := rfl

/-- A client with an established session. -/
def established : Client (List UInt8) where
  conn := Connection.new (fun _ => 0) .throws true false
  incomming := Message.new fun _ => 0
  session := []

/-- `on_read` with one byte. -/
theorem step_oneByte : (onReadSystem fourBytes fourBytesPipe).step ⟨established, [], []⟩ [0x81]
    ⟨{ established with session := [0x81] }, [0x81], []⟩ := by
  refine ⟨by norm_num,
    { established with conn := { established.conn with reading := some [0x81] } },
    [], rfl, ?_, rfl, rfl⟩
  exact .last rfl rfl

theorem passed_iff_oneByte :
    ∃ (s : Sent (List UInt8)) (steps : List (Sent (List UInt8) × List UInt8)),
    (onReadSystem fourBytes fourBytesPipe).Run s steps ∧
    ((s.Passed ∧ ∀ x ∈ steps, x.1.Passed) ↔ ∀ x ∈ steps, x.2 = []) := by
  have hrun : (onReadSystem fourBytes fourBytesPipe).Run ⟨established, [], []⟩ [] :=
    .init ⟨rfl, rfl, rfl, rfl⟩
  exact ⟨_, _, hrun.step step_oneByte, passed_iff fourBytesPipe (hrun.step step_oneByte)⟩

/-- The byte waits in the pipe. -/
theorem not_passed : ∃ s : Sent (List UInt8), (onReadSystem fourBytes fourBytesPipe).Reachable s ∧
    s.delivered = [0x81] ∧ s.passed = [] := by
  have h : (onReadSystem fourBytes fourBytesPipe).Reachable ⟨established, [], []⟩ :=
    .init ⟨rfl, rfl, rfl, rfl⟩
  exact ⟨_, h.step step_oneByte, rfl, rfl⟩

end CqlClient
