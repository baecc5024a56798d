/-
  CqlClient formalization — the bounded queue (`cql_mpmc_queue.hpp`).

  `enqueue` and `dequeue` are their atomic steps, taken by any number of threads
  in any order: a load or a store of one of the sequences, a weak
  compare-exchange, or the access to the data of a slot.  What follows a load in
  the thread itself belongs to its step.

  The sequences are tickets: `enqueues` and `dequeues` record those that a
  compare-exchange claimed, in the order of the claims, and `returned` what the
  dequeues returned.
-/
import CqlClient.Lib.Run
import CqlClient.Basic

namespace CqlClient

open Word

/-- A slot; the data is `none` until it is assigned. -/
structure Node (α : Type) where
  data : Option α := none
  seq : ℕ
  deriving DecidableEq, Repr

structure MpmcQueue (α : Type) where
  size : ℕ
  mask : ℕ
  buffer : ℕ → Node α
  headSeq : ℕ := 0
  tailSeq : ℕ := 0

namespace MpmcQueue
variable {τ α : Type}

/-- The constructor: it asserts that the size is a power of two. -/
def new (size : ℕ) : Except Crash (MpmcQueue α) :=
  if size ≠ 0 ∧ size &&& toSizeT (2 ^ 64 - 1 - size + 1) = size then
    .ok { size, mask := toSizeT (size - 1), buffer := fun i => { seq := i } }
  else .error .assertFailed

/-- `seq & mask_` -/
def slot (q : MpmcQueue α) (seq : ℕ) : ℕ := seq &&& q.mask

/-- `buffer_[seq & mask_]` -/
def node (q : MpmcQueue α) (seq : ℕ) : Node α := q.buffer (q.slot seq)

/-- An assignment to `buffer_[seq & mask_]`. -/
def setNode (q : MpmcQueue α) (seq : ℕ) (n : Node α) : MpmcQueue α :=
  { q with buffer := Function.update q.buffer (q.slot seq) n }

/-- `(intptr_t) a - (intptr_t) b` -/
def dif (a b : ℕ) : ℤ := toInt64 (toInt64 a - toInt64 b)

/-- Where a thread is: the constructors name its next step. -/
inductive Pc (α : Type) where
  /-- in neither function -/
  | idle
  /-- `enqueue`: load `head_seq_` -/
  | loadHead (data : α)
  /-- load `node->seq` -/
  | loadFree (data : α) (headSeq : ℕ)
  /-- compare-exchange `head_seq_` -/
  | claimHead (data : α) (headSeq : ℕ)
  /-- assign `node->data` -/
  | writeData (data : α) (headSeq : ℕ)
  /-- store `node->seq` -/
  | storeFull (data : α) (headSeq : ℕ)
  /-- `dequeue`: load `tail_seq_` -/
  | loadTail
  /-- load `node->seq` -/
  | loadFull (tailSeq : ℕ)
  /-- compare-exchange `tail_seq_` -/
  | claimTail (tailSeq : ℕ)
  /-- read `node->data` -/
  | readData (tailSeq : ℕ)
  /-- store `node->seq` -/
  | storeFree (tailSeq : ℕ) (data : Option α)
  deriving DecidableEq, Repr

/-- The queue, the threads on it, and the history of the tickets. -/
structure State (τ α : Type) where
  queue : MpmcQueue α
  pc : τ → Pc α
  enqueues : List (ℕ × α)
  dequeues : List ℕ
  returned : List (ℕ × Option α)

/-- What a thread does next: it calls a function, or takes its next step. -/
inductive Label (α : Type) where
  | enqueue (data : α)
  | dequeue
  /-- a compare-exchange may fail spuriously -/
  | step (spurious : Bool)
  deriving DecidableEq, Repr

namespace State
variable [DecidableEq τ]

def goto (s : State τ α) (x : τ) (p : Pc α) : State τ α :=
  { s with pc := Function.update s.pc x p }

/-- The ticket at `head_seq_` is claimed. -/
def claimHead (s : State τ α) (x : τ) (data : α) : State τ α :=
  { s with
    queue := { s.queue with headSeq := toSizeT (s.queue.headSeq + 1) }
    pc := Function.update s.pc x (.writeData data s.queue.headSeq)
    enqueues := s.enqueues ++ [(s.queue.headSeq, data)] }

/-- `node->data = data` -/
def writeData (s : State τ α) (x : τ) (data : α) (headSeq : ℕ) : State τ α :=
  { s with
    queue := s.queue.setNode headSeq { s.queue.node headSeq with data := some data }
    pc := Function.update s.pc x (.storeFull data headSeq) }

/-- `node->seq.store(head_seq + 1)`, and `enqueue` returns true. -/
def storeFull (s : State τ α) (x : τ) (headSeq : ℕ) : State τ α :=
  { s with
    queue := s.queue.setNode headSeq { s.queue.node headSeq with seq := toSizeT (headSeq + 1) }
    pc := Function.update s.pc x .idle }

/-- The ticket at `tail_seq_` is claimed. -/
def claimTail (s : State τ α) (x : τ) : State τ α :=
  { s with
    queue := { s.queue with tailSeq := toSizeT (s.queue.tailSeq + 1) }
    pc := Function.update s.pc x (.readData s.queue.tailSeq)
    dequeues := s.dequeues ++ [s.queue.tailSeq] }

/-- `data = node->data` -/
def readData (s : State τ α) (x : τ) (tailSeq : ℕ) : State τ α :=
  s.goto x (.storeFree tailSeq (s.queue.node tailSeq).data)

/-- `node->seq.store(tail_seq + mask_ + 1)`, and `dequeue` returns true. -/
def storeFree (s : State τ α) (x : τ) (tailSeq : ℕ) (data : Option α) : State τ α :=
  { s with
    queue := s.queue.setNode tailSeq
      { s.queue.node tailSeq with seq := toSizeT (tailSeq + s.queue.mask + 1) }
    pc := Function.update s.pc x .idle
    returned := s.returned ++ [(tailSeq, data)] }

/-- One step of the thread `x`. -/
def step (s : State τ α) (x : τ) (label : Label α) : Option (State τ α) :=
  match s.pc x, label with
  | .idle, .enqueue data => some (s.goto x (.loadHead data))
  | .idle, .dequeue => some (s.goto x .loadTail)
  | .loadHead data, .step _ => some (s.goto x (.loadFree data s.queue.headSeq))
  | .loadFree data headSeq, .step _ =>
    let dif := dif (s.queue.node headSeq).seq headSeq
    if dif = 0 then some (s.goto x (.claimHead data headSeq))
    else if dif < 0 then some (s.goto x .idle)
    else some (s.goto x (.loadHead data))
  | .claimHead data headSeq, .step spurious =>
    if s.queue.headSeq = headSeq ∧ spurious = false then some (s.claimHead x data)
    else some (s.goto x (.loadFree data s.queue.headSeq))
  | .writeData data headSeq, .step _ => some (s.writeData x data headSeq)
  | .storeFull _ headSeq, .step _ => some (s.storeFull x headSeq)
  | .loadTail, .step _ => some (s.goto x (.loadFull s.queue.tailSeq))
  | .loadFull tailSeq, .step _ =>
    let dif := dif (s.queue.node tailSeq).seq (toSizeT (tailSeq + 1))
    if dif = 0 then some (s.goto x (.claimTail tailSeq))
    else if dif < 0 then some (s.goto x .idle)
    else some (s.goto x .loadTail)
  | .claimTail tailSeq, .step spurious =>
    if s.queue.tailSeq = tailSeq ∧ spurious = false then some (s.claimTail x)
    else some (s.goto x (.loadFull s.queue.tailSeq))
  | .readData tailSeq, .step _ => some (s.readData x tailSeq)
  | .storeFree tailSeq data, .step _ => some (s.storeFree x tailSeq data)
  | _, _ => none

end State

/-- The runs of the threads `τ` on a queue. -/
def system (τ α : Type) [DecidableEq τ] (size : ℕ) : System (State τ α) (τ × Label α) where
  init s := new size = .ok s.queue ∧ (∀ x, s.pc x = .idle) ∧
    s.enqueues = [] ∧ s.dequeues = [] ∧ s.returned = []
  step s a s' := s.step a.1 a.2 = some s'

/-! ## What a step does -/

/-- The ticket of an enqueue between its compare-exchange and its store. -/
def Pc.writes : Pc α → Option ℕ
  | writeData _ t | storeFull _ t => some t
  | _ => none

/-- The ticket of a dequeue between its compare-exchange and its store. -/
def Pc.reads : Pc α → Option ℕ
  | readData t | storeFree t _ => some t
  | _ => none

@[simp] theorem State.pc_goto [DecidableEq τ] (s : State τ α) (x : τ) (p : Pc α) :
    (s.goto x p).pc x = p := by
  simp only [State.goto, Function.update_self]

theorem State.pc_goto_of_ne [DecidableEq τ] (s : State τ α) {x y : τ} (p : Pc α) (hy : y ≠ x) :
    (s.goto x p).pc y = s.pc y := by
  simp only [State.goto, Function.update_of_ne hy]

/-- Where a load can lead a thread that is at `p`. -/
def Loads (q : MpmcQueue α) (p : Pc α) : Pc α → Prop
  | .idle | .loadHead _ | .loadTail => True
  | .loadFree _ headSeq => headSeq = q.headSeq
  | .claimHead data headSeq => p = .loadFree data headSeq ∧ dif (q.node headSeq).seq headSeq = 0
  | .loadFull tailSeq => tailSeq = q.tailSeq
  | .claimTail tailSeq => p = .loadFull tailSeq ∧
    dif (q.node tailSeq).seq (toSizeT (tailSeq + 1)) = 0
  | .writeData _ _ | .storeFull _ _ | .readData _ | .storeFree _ _ => False

/-- The steps of the thread `x`, by what they do to the queue. -/
inductive Steps [DecidableEq τ] (s : State τ α) (x : τ) : State τ α → Prop where
  | loads (p : Pc α) (hw : (s.pc x).writes = none) (hr : (s.pc x).reads = none)
    (hp : s.queue.Loads (s.pc x) p) : Steps s x (s.goto x p)
  | claimHead (data : α) (hx : s.pc x = .claimHead data s.queue.headSeq) :
    Steps s x (s.claimHead x data)
  | writeData (data : α) (headSeq : ℕ) (hx : s.pc x = .writeData data headSeq) :
    Steps s x (s.writeData x data headSeq)
  | storeFull (data : α) (headSeq : ℕ) (hx : s.pc x = .storeFull data headSeq) :
    Steps s x (s.storeFull x headSeq)
  | claimTail (hx : s.pc x = .claimTail s.queue.tailSeq) : Steps s x (s.claimTail x)
  | readData (tailSeq : ℕ) (hx : s.pc x = .readData tailSeq) : Steps s x (s.readData x tailSeq)
  | storeFree (tailSeq : ℕ) (data : Option α) (hx : s.pc x = .storeFree tailSeq data) :
    Steps s x (s.storeFree x tailSeq data)

/-- **The steps.** -/
theorem steps_of_step [DecidableEq τ] {s s' : State τ α} {x : τ} {label : Label α}
    (h : s.step x label = some s') : Steps s x s' := by
  unfold State.step at h
  have hload : ∀ p : Pc α, (s.pc x).writes = none → (s.pc x).reads = none →
      s.queue.Loads (s.pc x) p → some (s.goto x p) = some s' → Steps s x s' := by
    rintro p hw hr hp heq
    cases heq
    exact .loads p hw hr hp
  split at h
  · rename_i data hx
    exact hload (.loadHead data) (by rw [hx]; rfl) (by rw [hx]; rfl) trivial h
  · rename_i hx
    exact hload .loadTail (by rw [hx]; rfl) (by rw [hx]; rfl) trivial h
  · rename_i data _ hx
    exact hload (.loadFree data _) (by rw [hx]; rfl) (by rw [hx]; rfl) rfl h
  · rename_i data headSeq _ hx
    simp only at h
    split at h
    · rename_i hdif
      exact hload (.claimHead data headSeq) (by rw [hx]; rfl) (by rw [hx]; rfl) ⟨hx, hdif⟩ h
    · split at h
      · exact hload .idle (by rw [hx]; rfl) (by rw [hx]; rfl) trivial h
      · exact hload (.loadHead data) (by rw [hx]; rfl) (by rw [hx]; rfl) trivial h
  · rename_i data headSeq spurious hx
    split at h
    · rename_i hc
      obtain ⟨rfl, -⟩ := hc
      cases h
      exact .claimHead data hx
    · exact hload (.loadFree data _) (by rw [hx]; rfl) (by rw [hx]; rfl) rfl h
  · rename_i data headSeq _ hx
    cases h
    exact .writeData data headSeq hx
  · rename_i data headSeq _ hx
    cases h
    exact .storeFull data headSeq hx
  · rename_i _ hx
    exact hload (.loadFull _) (by rw [hx]; rfl) (by rw [hx]; rfl) rfl h
  · rename_i tailSeq _ hx
    simp only at h
    split at h
    · rename_i hdif
      exact hload (.claimTail tailSeq) (by rw [hx]; rfl) (by rw [hx]; rfl) ⟨hx, hdif⟩ h
    · split at h
      · exact hload .idle (by rw [hx]; rfl) (by rw [hx]; rfl) trivial h
      · exact hload .loadTail (by rw [hx]; rfl) (by rw [hx]; rfl) trivial h
  · rename_i tailSeq spurious hx
    split at h
    · rename_i hc
      obtain ⟨rfl, -⟩ := hc
      cases h
      exact .claimTail hx
    · exact hload (.loadFull _) (by rw [hx]; rfl) (by rw [hx]; rfl) rfl h
  · rename_i tailSeq _ hx
    cases h
    exact .readData tailSeq hx
  · rename_i tailSeq data _ hx
    cases h
    exact .storeFree tailSeq data hx
  · cases h

end MpmcQueue

end CqlClient
