/-
  CqlClient formalization — the read loop (`ClientConnection::consume`).

  The loop passes what is left of the input to the message under way, and hands
  every message that is ready to the handler of its opcode.  The handlers change
  the rest of the connection, of any type `S`; none of them reads or writes the
  message under way.

  `dispatched` records the messages in the order they were released.
-/
import CqlClient.Lib.Run
import CqlClient.Framing

namespace CqlClient

open Word

variable {S : Type}

/-- `on_supported`, `on_error`, `on_ready` and `on_result`. -/
structure Handlers (S : Type) where
  onSupported : Message → S → S × Option Crash
  onError : Message → S → S × Option Crash
  onReady : Message → S → S × Option Crash
  onResult : Message → S → S × Option Crash

/-- The switch over the opcode; the default case asserts. -/
def Handlers.handle (h : Handlers S) (message : Message) (s : S) : S × Option Crash :=
  if message.opcode = cqlOpcodeSupported then h.onSupported message s
  else if message.opcode = cqlOpcodeError then h.onError message s
  else if message.opcode = cqlOpcodeReady then h.onReady message s
  else if message.opcode = cqlOpcodeResult then h.onResult message s
  else (s, some .assertFailed)

/-- The opcodes that the switch has a case for. -/
def hasCase (opcode : UInt8) : Bool :=
  opcode = cqlOpcodeSupported || opcode = cqlOpcodeError || opcode = cqlOpcodeReady ||
    opcode = cqlOpcodeResult

/-- The handler of the message's opcode returns. -/
structure Handlers.Returns (h : Handlers S) (message : Message) (s : S) : Prop where
  onSupported : message.opcode = cqlOpcodeSupported → (h.onSupported message s).2 = none
  onError : message.opcode = cqlOpcodeError → (h.onError message s).2 = none
  onReady : message.opcode = cqlOpcodeReady → (h.onReady message s).2 = none
  onResult : message.opcode = cqlOpcodeResult → (h.onResult message s).2 = none

/-- The switch returns where there is a case whose handler does. -/
theorem Handlers.handle_returns {h : Handlers S} {message : Message} {s : S}
    (hcase : hasCase message.opcode = true) (hreturns : h.Returns message s) :
    (h.handle message s).2 = none := by
  simp only [hasCase, Bool.or_eq_true, decide_eq_true_eq] at hcase
  unfold handle
  split
  · exact hreturns.onSupported ‹_›
  split
  · exact hreturns.onError ‹_›
  split
  · exact hreturns.onReady ‹_›
  split
  · exact hreturns.onResult ‹_›
  · rcases hcase with ((hop | hop) | hop) | hop <;> contradiction

/-- What the loop does with a released message: the log line, which needs a name
    for the opcode, the assertion against system events, and the switch. -/
def Handlers.dispatch (h : Handlers S) (message : Message) (s : S) : S × Option Crash :=
  if opcodeHasName message.opcode = false then (s, some .assertFailed)
  else if message.stream < 0 then (s, some .assertFailed)
  else h.handle message s

/-- The loop on one input, of which `remaining` bytes from `buffer` on are left. -/
structure ReadLoop (S : Type) where
  incomming : Message
  conn : S
  input : List UInt8 := []
  buffer : ℤ := 0
  remaining : ℤ := 0
  dispatched : List Message := []

namespace ReadLoop

/-- The loop enters with a new input. -/
def start (st : ReadLoop S) (input : List UInt8) : ReadLoop S :=
  { st with input, buffer := 0, remaining := toInt32 input.length }

/-- The `remaining` bytes from `buffer` on. -/
def left (st : ReadLoop S) : List UInt8 :=
  (st.input.drop st.buffer.toNat).take st.remaining.toNat

/-- What `incomming_->consume(buffer, remaining)` may read, if it is all in the
    input. -/
def window (st : ReadLoop S) : Option (List UInt8) :=
  if 0 ≤ st.buffer ∧ 0 ≤ st.remaining ∧ st.buffer + st.remaining ≤ st.input.length then
    some st.left
  else none

/-- `incomming_.release()`, and a new message. -/
def reset (st : ReadLoop S) : ReadLoop S :=
  { st with
    incomming := Message.new st.incomming.heap
    dispatched := st.dispatched ++ [st.incomming] }

/-- A message that is ready is released and dispatched. -/
def release (h : Handlers S) (st : ReadLoop S) : ReadLoop S × Option Crash :=
  if st.incomming.bodyReady then
    let (conn, crash) := h.dispatch st.incomming st.conn
    ({ st.reset with conn }, crash)
  else (st, none)

/-- `remaining -= consumed; buffer += consumed`. -/
def advance (st : ReadLoop S) (consumed : ℤ) : ReadLoop S :=
  { st with remaining := toInt32 (st.remaining - consumed), buffer := st.buffer + consumed }

section
variable (bodyConsume : List UInt8 → Body → Except Crash (Body × Bool)) (h : Handlers S)

/-- The body of the loop.  A negative `consumed` is reported and nothing else. -/
def iterate (st : ReadLoop S) : ReadLoop S × Option Crash :=
  match st.window with
  | none => (st, some .outOfBounds)
  | some window =>
    match st.incomming.consume bodyConsume window with
    | (m, .error e) => ({ st with incomming := m }, some e)
    | (m, .ok consumed) =>
      match ({ st with incomming := m } : ReadLoop S).release h with
      | (st, some e) => (st, some e)
      | (st, none) => (st.advance consumed, none)

/-- `while (remaining != 0)`, for at most `fuel` rounds: `none` when they do not
    suffice. -/
def run : ℕ → ReadLoop S → Option (ReadLoop S × Option Crash)
  | fuel, st =>
    if st.remaining = 0 then some (st, none)
    else
      match fuel with
      | 0 => none
      | fuel + 1 =>
        match st.iterate bodyConsume h with
        | (st, some e) => some (st, some e)
        | (st, none) => run fuel st

/-- `consume(input, size)`.  Every round takes a byte, so that one round a byte
    suffices (`run_total`). -/
def consume (st : ReadLoop S) (input : List UInt8) : ReadLoop S × Option Crash :=
  ((st.start input).run bodyConsume h input.length).getD (st.start input, some .outOfFuel)

/-! ## One round -/

variable {bodyConsume h} {st : ReadLoop S} {window : List UInt8} {m : Message}

/-- The loop after the message `m` was released, with the connection its handler
    left. -/
def delivered (st : ReadLoop S) (m : Message) (conn : S) : ReadLoop S :=
  { ({ st with incomming := m } : ReadLoop S).reset with conn }

/-- A round in which the message is not ready. -/
theorem iterate_waiting {c : ℤ} (hw : st.window = some window)
    (hc : st.incomming.consume bodyConsume window = (m, .ok c)) (hr : m.bodyReady = false) :
    st.iterate bodyConsume h = (({ st with incomming := m } : ReadLoop S).advance c, none) := by
  simp only [iterate, hw, hc, release, hr, Bool.false_eq_true, if_false]

/-- A round that dispatches the message `m`. -/
theorem iterate_ready {c : ℤ} (hw : st.window = some window)
    (hc : st.incomming.consume bodyConsume window = (m, .ok c)) (hr : m.bodyReady = true) :
    st.iterate bodyConsume h =
      match h.dispatch m st.conn with
      | (conn, some e) => (st.delivered m conn, some e)
      | (conn, none) => ((st.delivered m conn).advance c, none) := by
  simp only [iterate, hw, hc, release, hr, if_true]
  rcases h.dispatch m st.conn with ⟨conn, _ | e⟩ <;> rfl

/-- The messages `ms` are dispatched one after another, and every dispatch returns. -/
inductive Delivers (h : Handlers S) : S → List Message → S → Prop where
  | nil (s : S) : Delivers h s [] s
  | cons {s s' s'' : S} {m : Message} {ms : List Message} (hm : h.dispatch m s = (s', none))
    (hms : Delivers h s' ms s'') : Delivers h s (m :: ms) s''

/-- A round dispatches nothing, or one message. -/
theorem iterate_delivers {st' : ReadLoop S} (hit : st.iterate bodyConsume h = (st', none)) :
    ∃ ms, st'.dispatched = st.dispatched ++ ms ∧ Delivers h st.conn ms st'.conn := by
  rcases hw : st.window with _ | window
  · simp only [iterate, hw] at hit
    cases hit
  rcases hc : st.incomming.consume bodyConsume window with ⟨m, e | c⟩
  · simp only [iterate, hw, hc] at hit
    cases hit
  rcases hr : m.bodyReady with _ | _
  · rw [iterate_waiting hw hc hr] at hit
    cases hit
    exact ⟨[], by simp [advance], .nil _⟩
  · rw [iterate_ready hw hc hr] at hit
    rcases hd : h.dispatch m st.conn with ⟨conn, _ | e⟩
    · rw [hd] at hit
      cases hit
      exact ⟨[m], rfl, .cons hd (.nil _)⟩
    · rw [hd] at hit
      cases hit

theorem Delivers.append {s s' s'' : S} {ms ns : List Message} (h₁ : Delivers h s ms s')
    (h₂ : Delivers h s' ns s'') : Delivers h s (ms ++ ns) s'' := by
  induction h₁ with
  | nil => exact h₂
  | cons hm _ ih => exact .cons hm (ih h₂)

theorem run_delivers {fuel : ℕ} {st' : ReadLoop S}
    (hrun : st.run bodyConsume h fuel = some (st', none)) :
    ∃ ms, st'.dispatched = st.dispatched ++ ms ∧ Delivers h st.conn ms st'.conn := by
  induction fuel generalizing st with
  | zero =>
    rw [run] at hrun
    split at hrun
    · cases hrun
      exact ⟨[], by simp, .nil _⟩
    · cases hrun
  | succ fuel ih =>
    rw [run] at hrun
    split at hrun
    · cases hrun
      exact ⟨[], by simp, .nil _⟩
    · rcases hit : st.iterate bodyConsume h with ⟨s, _ | e⟩
      · rw [hit] at hrun
        obtain ⟨ms, hms, hdel⟩ := iterate_delivers hit
        obtain ⟨ns, hns, hdel'⟩ := ih hrun
        exact ⟨ms ++ ns, by rw [hns, hms, List.append_assoc], hdel.append hdel'⟩
      · rw [hit] at hrun
        cases hrun

/-- **The handlers run on the messages dispatched**, and nothing else happens to
    the connection. -/
theorem consume_delivers {input : List UInt8} {st' : ReadLoop S}
    (hc : st.consume bodyConsume h input = (st', none)) :
    ∃ ms, st'.dispatched = st.dispatched ++ ms ∧ Delivers h st.conn ms st'.conn := by
  unfold consume at hc
  rcases hrun : (st.start input).run bodyConsume h input.length with _ | ⟨s, crash⟩
  · rw [hrun] at hc
    cases hc
  · rw [hrun] at hc
    cases hc
    obtain ⟨ms, hms, hdel⟩ : ∃ ms, st'.dispatched = (st.start input).dispatched ++ ms ∧
        Delivers h (st.start input).conn ms st'.conn := run_delivers hrun
    exact ⟨ms, hms, hdel⟩

end

end ReadLoop

end CqlClient
