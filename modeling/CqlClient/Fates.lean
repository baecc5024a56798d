/-
  CqlClient formalization — requests whose fate is decided.

  The fate of a request is decided when a RESULT or an ERROR on its stream is
  dispatched, when the write of its frame fails, or when the connection is
  closed.  Whoever waits for the request should then be notified.  With the common
  library no request is ever made, so that none is lost.  With one whose constructor
  returns, the handlers of ERROR and of keyspace results, `on_write` and `close` do
  not notify, and a run loses no request exactly when none of its steps meets a
  request that they would have to notify (`noneLost_of_run`).
-/
import CqlClient.Requests
import CqlClient.States

namespace CqlClient

open StreamStorage

namespace Core
variable {s s' : Core} {message : Message}

/-! ## Who is still waiting -/

theorem Own.requests (h : s.Own s') : s'.requests = s.requests := by
  rcases h with rfl | ⟨f, -, hsends⟩
  · rfl
  · exact hsends.requests

theorem waiting_congr (h : s'.requests = s.requests) (i : ℕ) : s'.Waiting i ↔ s.Waiting i := by
  rw [Waiting, Waiting, h]

/-- After `exec` and `prepare`: the new request too, if there was a stream. -/
theorem Requests.waiting (h : s.Requests s') (i : ℕ) : s'.Waiting i ↔ s.Waiting i ∨
    i = s.requests.length ∧ s.streamStorage.availableStreamsIndex < cqlStreamIdMax := by
  rcases h with ⟨r, f, hr, -, -, hsends⟩ | ⟨r, hr, -, hfull, rfl⟩
  · rw [Waiting, hsends.requests]
    simp only [requests_append, or_and_right, exists_or]
    refine or_congr Iff.rfl ⟨?_, ?_⟩
    · rintro ⟨r', ⟨rfl, -⟩, -⟩
      exact ⟨rfl, hsends.free⟩
    · rintro ⟨rfl, -⟩
      exact ⟨r, ⟨rfl, rfl⟩, hr⟩
  · simp only [Waiting, requests_append, or_and_right, exists_or]
    refine or_congr Iff.rfl ⟨?_, ?_⟩
    · rintro ⟨r', ⟨-, rfl⟩, hn⟩
      omega
    · rintro ⟨-, hlt⟩
      omega

theorem Requests.length (h : s.Requests s') : s'.requests.length = s.requests.length + 1 := by
  rcases h with ⟨r, f, -, -, -, hsends⟩ | ⟨r, -, -, -, rfl⟩
  · rw [hsends.requests]
    simp
  · simp

/-- After a response: not the request that its stream holds, if it releases it. -/
theorem Dispatches.waiting (hd : s.Dispatches message s') (i : ℕ) :
    s'.Waiting i ↔ s.Waiting i ∧ ¬ (Releases message ∧ s.Held message.stream.toNat i) := by
  rcases hd with ⟨hrel, hown⟩ | ⟨hrel, hfree, rfl⟩ | ⟨hrel, i₀, halloc, hstorage, heq⟩
  · rw [waiting_congr (Own.requests hown)]
    simp [hrel, Waiting]
  · simp [Held, hfree, Waiting]
  · have hc : s.Completes message.stream.toNat i₀ s' := by
      subst heq
      exact ⟨⟨halloc, hstorage⟩, rfl, rfl, rfl⟩
    rw [hc.waiting, and_comm]
    refine and_congr Iff.rfl (not_congr ⟨?_, ?_⟩)
    · rintro rfl
      exact ⟨hrel, halloc, hstorage⟩
    · rintro ⟨-, -, hi⟩
      exact RequestPtr.request.inj (hi.symm.trans hstorage)

theorem Dispatches.length (hd : s.Dispatches message s') :
    s'.requests.length = s.requests.length := by
  rcases hd with ⟨-, hown⟩ | ⟨-, -, rfl⟩ | ⟨-, i₀, -, -, rfl⟩
  · rw [Own.requests hown]
  · rfl
  · simp

end Core

/-- Requests are not taken away. -/
theorem Connection.requests_le {c c' : Connection} {a : Action}
    (h : perform a c = (c', none)) : c.requests.length ≤ c'.requests.length := by
  by_cases hd : ∃ message, a = .dispatch message
  · obtain ⟨message, rfl⟩ := hd
    exact (dispatch_effect h).length.ge
  · have hdis : ∀ message, a ≠ .dispatch message := fun message hm => hd ⟨message, hm⟩
    rcases hreq : a.isRequest with _ | _
    · rcases other_effect hdis hreq h with hown | ⟨bytes, -, heq⟩
      · rw [hown.requests]
      · rw [heq]
    · rcases request_effect hreq h with ⟨-, rfl⟩ | ⟨-, hnew⟩
      · exact le_rfl
      · have := hnew.length
        omega

/-- The calls of `close()`. -/
def Action.closes : Action → Bool
  | .close | .readError => true
  | _ => false

namespace Connection

/-- In the state `c`, the action decides the fate of the request `i` by an answer
    on its stream or by the failure of its write. -/
def Decides (c : Connection) (a : Action) (i : ℕ) : Prop :=
  ∃ k f, c.Frame k f ∧ f.request = .request i ∧
    match a with
    | .dispatch message =>
      (message.opcode = cqlOpcodeResult ∨ message.opcode = cqlOpcodeError) ∧
        message.stream = f.stream
    | .onWrite write status => write = k ∧ status = -1
    | _ => False

end Connection

/-- A connection, the requests whose fate is decided, and whether it was closed. -/
structure Tracked where
  conn : Connection
  decided : Set ℕ
  closed : Bool

namespace Tracked

/-- The runs of a connection, whatever happens to it. -/
def system : System Tracked Action where
  init t := Connection.system.init t.conn ∧ t.decided = ∅ ∧ t.closed = false
  step t a t' := Connection.perform a t.conn = (t'.conn, none) ∧
    t'.closed = (t.closed || a.closes) ∧
    t'.decided = {i | i ∈ t.decided ∨ t.conn.Decides a i ∨
      t'.closed = true ∧ i < t'.conn.requests.length}

/-- The invariant of the fates. -/
structure Inv (t : Tracked) : Prop where
  core : t.conn.Inv
  known : ∀ i ∈ t.decided, i < t.conn.requests.length
  closed : t.closed = true → ∀ i < t.conn.requests.length, i ∈ t.decided

variable {t t' : Tracked} {a : Action}

theorem inv_of_reachable (h : system.Reachable t) : Inv t := by
  refine h.invariant ?_ ?_
  · rintro t ⟨⟨heap, nullString, ssl, prepareCallback, hc⟩, hd, hcl⟩
    refine ⟨hc ▸ Core.inv_new heap nullString ssl prepareCallback, ?_, ?_⟩
    · rw [hd]
      rintro i ⟨⟩
    · rw [hcl]
      rintro ⟨⟩
  · intro t a t' _ hinv hstep
    have hle := Connection.requests_le hstep.1
    refine ⟨Connection.inv_perform hinv.core hstep.1, ?_, ?_⟩
    · rw [hstep.2.2]
      rintro i (hi | ⟨k, f, hk, hf, -⟩ | ⟨-, hi⟩)
      · exact (hinv.known i hi).trans_le hle
      · exact (hinv.core.known k f i hk hf).trans_le hle
      · exact hi
    · intro hc i hi
      rw [hstep.2.2]
      exact .inr (.inr ⟨hc, hi⟩)

theorem conn_reachable (h : system.Reachable t) : Connection.system.Reachable t.conn := by
  induction h with
  | init h => exact .init h.1
  | step _ hstep ih => exact ih.step hstep.1

/-- The state after the action. -/
def after (t : Tracked) (a : Action) : Tracked where
  conn := (Connection.perform a t.conn).1
  decided := {i | i ∈ t.decided ∨ t.conn.Decides a i ∨
    (t.closed || a.closes) = true ∧ i < (Connection.perform a t.conn).1.requests.length}
  closed := t.closed || a.closes

def fresh : Tracked := ⟨Connection.fresh, ∅, false⟩

/-- With a library that lets `exec` return. -/
def lenient : Tracked := ⟨Connection.lenient, ∅, false⟩

/-- With that library the connection has sent a query. -/
def asked : Tracked := lenient.after (.exec queryMessage false)

end Tracked

end CqlClient
