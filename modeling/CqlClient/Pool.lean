/-
  CqlClient formalization — borrowing a connection from a pool
  (`cql_pool.hpp`).

  The pool has the addresses of its connections, and `heap` says which
  connection is at an address.  `find_least_busy` reads through the iterator of
  `std::max_element`, also through `end()`, and `borrow_connection` tests its
  argument instead of what it has just stored there, so that it never reports a
  busy pool (`borrowsUsable_iff`).
-/
import CqlClient.Connection

namespace CqlClient

def cqlErrorLibMaxConnections : ℤ := 1000009

def allConnectionsBusy : Error :=
  ⟨cqlErrorSourceLibrary, cqlErrorLibMaxConnections, ascii "all connections busy"⟩

/-- `ClientConnection::available_streams()`. -/
def Connection.availableStreams (c : Connection) : ℕ := c.streamStorage.availableCount

/-- `std::max_element`: the first of the largest elements, or `end()`. -/
def maxElement {α : Type} (comp : α → α → Bool) (xs : List α) : Option α :=
  xs.foldl (fun largest x =>
    match largest with
    | none => some x
    | some l => if comp l x then some x else some l) none

/-- What borrowing uses of a pool. -/
structure Pool where
  maxConnectionsPerHost : ℕ
  connections : List ℕ

namespace Pool

section
variable (heap : ℕ → Connection)

def leastBusyComp (a b : ℕ) : Bool := (heap a).availableStreams < (heap b).availableStreams

/-- `find_least_busy`: what `end()` points to was never assigned. -/
def findLeastBusy (p : Pool) : Except Crash (Option ℕ) :=
  match maxElement (leastBusyComp heap) p.connections with
  | none => .error .indeterminate
  | some it => if (heap it).availableStreams ≠ 0 then .ok (some it) else .ok none

/-- `borrow_connection(output)`, where `output` says whether the argument is not null:
    `*output` and the error.  The test is of the argument. -/
def borrowConnection (p : Pool) (output : Bool) : Except Crash (Option ℕ × Option Error) := do
  let found ← p.findLeastBusy heap
  if output = false then .error .nullDeref
  else if output = true then return (found, none)
  else if p.maxConnectionsPerHost ≤ p.connections.length then
    return (found, some allConnectionsBusy)
  else return (found, none)

/-- Some connection has a free stream. -/
def HasFree (p : Pool) : Prop := ∃ c ∈ p.connections, 0 < (heap c).availableStreams

/-- Borrowing is safe, and gives a usable connection or says why not. -/
def BorrowsUsable (p : Pool) : Prop :=
  ∃ found err, p.borrowConnection heap true = .ok (found, err) ∧
    (p.HasFree heap → err = none ∧ ∃ c ∈ p.connections, found = some c ∧
      0 < (heap c).availableStreams ∧
      ∀ c' ∈ p.connections, (heap c').availableStreams ≤ (heap c).availableStreams) ∧
    (¬ p.HasFree heap → p.maxConnectionsPerHost ≤ p.connections.length →
      err = some allConnectionsBusy) ∧
    (¬ p.HasFree heap → found = none)

end

/-! ## The least busy connection -/

/-- With the comparison of a key, `std::max_element` is the first element whose key is
    largest. -/
theorem maxElement_eq_argmax {α : Type} (f : α → ℕ) (xs : List α) :
    maxElement (fun a b => f a < f b) xs = xs.argmax f := by
  unfold maxElement List.argmax
  congr
  funext largest x
  cases largest with
  | none => rfl
  | some l => simp [List.argAux]

variable {heap : ℕ → Connection} {p : Pool}

theorem findLeastBusy_nil (h : p.connections = []) :
    p.findLeastBusy heap = .error .indeterminate := by
  rw [findLeastBusy, h]
  rfl

/-- A pool with connections: a connection with the most free streams, unless that is none. -/
theorem findLeastBusy_of_ne_nil (heap : ℕ → Connection) (h : p.connections ≠ []) :
    ∃ c ∈ p.connections,
      (∀ c' ∈ p.connections, (heap c').availableStreams ≤ (heap c).availableStreams) ∧
      p.findLeastBusy heap = .ok (if (heap c).availableStreams ≠ 0 then some c else none) := by
  have hmax : maxElement (leastBusyComp heap) p.connections =
      p.connections.argmax fun c => (heap c).availableStreams :=
    maxElement_eq_argmax (fun c => (heap c).availableStreams) p.connections
  rcases hc : p.connections.argmax fun c => (heap c).availableStreams with _ | c
  · exact absurd (List.argmax_eq_none.1 hc) h
  · refine ⟨c, List.argmax_mem hc, ?_, ?_⟩
    · intro c' hc'
      exact List.le_of_mem_argmax (f := fun c => (heap c).availableStreams) hc' hc
    · rw [findLeastBusy, hmax, hc]
      simp only
      split <;> rfl

/-! ## Borrowing -/

theorem borrowConnection_of_ok {found : Option ℕ} (h : p.findLeastBusy heap = .ok found) :
    p.borrowConnection heap true = .ok (found, none) := by
  rw [borrowConnection, h]
  rfl

/-- **Borrowing does what it should exactly for a pool that has a connection, and one with a
    free stream or room for another one.** -/
theorem borrowsUsable_iff (heap : ℕ → Connection) (p : Pool) :
    p.BorrowsUsable heap ↔ p.connections ≠ [] ∧
      (p.HasFree heap ∨ p.connections.length < p.maxConnectionsPerHost) := by
  constructor
  · rintro ⟨found, err, hborrow, _, hbusy, _⟩
    by_cases hnil : p.connections = []
    · rw [borrowConnection, findLeastBusy_nil hnil] at hborrow
      cases hborrow
    refine ⟨hnil, ?_⟩
    obtain ⟨c, _, _, hfind⟩ := findLeastBusy_of_ne_nil heap hnil
    rw [borrowConnection_of_ok hfind] at hborrow
    obtain ⟨_, rfl⟩ := Prod.mk.inj (Except.ok.inj hborrow)
    by_contra hnone
    obtain ⟨hfree, hfull⟩ := not_or.1 hnone
    cases hbusy hfree (Nat.not_lt.1 hfull)
  · rintro ⟨hnil, hcond⟩
    obtain ⟨c, hc, hmax, hfind⟩ := findLeastBusy_of_ne_nil heap hnil
    refine ⟨_, _, borrowConnection_of_ok hfind, ?_, ?_, ?_⟩
    · rintro ⟨c', hc', hfree⟩
      have hpos : 0 < (heap c).availableStreams := hfree.trans_le (hmax c' hc')
      exact ⟨rfl, c, hc, if_pos hpos.ne', hpos, hmax⟩
    · intro hfree hfull
      rcases hcond with hcond | hcond
      · exact absurd hcond hfree
      · omega
    · intro hfree
      refine if_neg ?_
      intro hne
      exact hfree ⟨c, hc, Nat.pos_of_ne_zero hne⟩

/-- The streams of a connection, all of them allocated. -/
def exhausted : StreamStorage RequestPtr cqlStreamIdMax :=
  ⟨cqlStreamIdMax, fun i => i + 1, fun _ => true, fun _ => .null⟩

def busy : Connection :=
  { Connection.new (fun _ => 0) .throws false false with streamStorage := exhausted }

theorem busy_availableStreams : busy.availableStreams = 0 := rfl

/-- A full pool with one busy connection says that there is no error, and an empty one
    reads through `end()`. -/
theorem not_borrowsUsable :
    (Pool.borrowConnection (fun _ => busy) ⟨1, [0]⟩ true = .ok (none, none) ∧
      ¬ Pool.BorrowsUsable (fun _ => busy) ⟨1, [0]⟩) ∧
    Pool.borrowConnection (fun _ => busy) ⟨1, []⟩ true = .error .indeterminate ∧
      ¬ Pool.BorrowsUsable (fun _ => busy) ⟨1, []⟩ := by
  have hfull : Pool.borrowConnection (fun _ => busy) ⟨1, [0]⟩ true = .ok (none, none) := rfl
  have hempty : Pool.borrowConnection (fun _ => busy) ⟨1, []⟩ true = .error .indeterminate := rfl
  refine ⟨⟨hfull, ?_⟩, hempty, ?_⟩
  · rintro ⟨found, err, hborrow, _, hbusy, _⟩
    rw [hfull] at hborrow
    cases hborrow
    have hnone : ¬ Pool.HasFree (fun _ => busy) ⟨1, [0]⟩ := by
      rintro ⟨c, _, hfree⟩
      exact absurd busy_availableStreams hfree.ne'
    cases hbusy hnone le_rfl
  · rintro ⟨found, err, hborrow, _⟩
    rw [hempty] at hborrow
    cases hborrow

end Pool

end CqlClient
