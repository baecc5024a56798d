/-
  CqlClient formalization — calls on the bounded queue, one after another.

  `enqueueLoop` and `dequeueLoop` are the loops of the two functions when nobody
  else is on the queue.  The thread that makes the call takes its steps
  (`enqueueLoop_path`, `dequeueLoop_path`).
-/
import CqlClient.MpmcQueue

namespace CqlClient

open Word

namespace MpmcQueue
variable {τ α : Type}

inductive Op (α : Type) where
  | enqueue (data : α)
  | dequeue
  deriving DecidableEq, Repr

/-- What a call returns. -/
inductive Out (α : Type) where
  | enqueued (ok : Bool)
  /-- `dequeue` returns true, with the data of its slot -/
  | dequeued (data : Option α)
  /-- `dequeue` returns false -/
  | empty
  deriving DecidableEq, Repr

/-- The ticket `headSeq` is claimed, and its slot written. -/
def accept (q : MpmcQueue α) (data : α) (headSeq : ℕ) : MpmcQueue α :=
  let q := { q with headSeq := toSizeT (headSeq + 1) }
  let q := q.setNode headSeq { q.node headSeq with data := some data }
  q.setNode headSeq { q.node headSeq with seq := toSizeT (headSeq + 1) }

/-- The ticket `tailSeq` is claimed, and its slot released. -/
def release (q : MpmcQueue α) (tailSeq : ℕ) : MpmcQueue α :=
  let q := { q with tailSeq := toSizeT (tailSeq + 1) }
  q.setNode tailSeq { q.node tailSeq with seq := toSizeT (tailSeq + q.mask + 1) }

/-- The loop of `enqueue`.  Every round takes a flag, whether its compare-exchange
    fails spuriously; without one it has not returned yet. -/
def enqueueLoop (q : MpmcQueue α) (data : α) (headSeq : ℕ) :
    List Bool → Option (MpmcQueue α × Out α)
  | [] => none
  | spurious :: flags =>
    let dif := dif (q.node headSeq).seq headSeq
    if dif = 0 then
      if q.headSeq = headSeq ∧ spurious = false then
        some (q.accept data headSeq, .enqueued true)
      else q.enqueueLoop data q.headSeq flags
    else if dif < 0 then some (q, .enqueued false)
    else q.enqueueLoop data q.headSeq flags

/-- The loop of `dequeue`. -/
def dequeueLoop (q : MpmcQueue α) (tailSeq : ℕ) : List Bool → Option (MpmcQueue α × Out α)
  | [] => none
  | spurious :: flags =>
    let dif := dif (q.node tailSeq).seq (toSizeT (tailSeq + 1))
    if dif = 0 then
      if q.tailSeq = tailSeq ∧ spurious = false then
        some (q.release tailSeq, .dequeued (q.node tailSeq).data)
      else q.dequeueLoop q.tailSeq flags
    else if dif < 0 then some (q, .empty)
    else q.dequeueLoop q.tailSeq flags

/-- A call. -/
def call (q : MpmcQueue α) (flags : List Bool) : Op α → Option (MpmcQueue α × Out α)
  | .enqueue data => q.enqueueLoop data q.headSeq flags
  | .dequeue => q.dequeueLoop q.tailSeq flags

/-! ## The steps of a call -/

variable [DecidableEq τ] {size : ℕ}

/-- What a call that returns `out` adds to the history. -/
def Records (s s' : State τ α) : Out α → Prop
  | .enqueued true => (∃ t data, s'.enqueues = s.enqueues ++ [(t, data)]) ∧
    s'.returned = s.returned
  | .dequeued data => s'.enqueues = s.enqueues ∧ ∃ t, s'.returned = s.returned ++ [(t, data)]
  | .enqueued false | .empty => s'.enqueues = s.enqueues ∧ s'.returned = s.returned

/-- The thread `x` takes its steps while the others wait, until it returns `out` and
    leaves the queue `q`. -/
def Completes (size : ℕ) (x : τ) (s : State τ α) (q : MpmcQueue α) (out : Out α) : Prop :=
  ∃ as s', (system τ α size).Path s as s' ∧ (∀ a ∈ as, a.1 = x) ∧ s'.queue = q ∧
    s'.pc x = .idle ∧ (∀ y, y ≠ x → s'.pc y = s.pc y) ∧ Records s s' out

variable {s s' : State τ α} {x : τ} {q : MpmcQueue α} {label : Label α} {out : Out α}

theorem Completes.goto {p : Pc α} (hs : s.step x label = some (s.goto x p))
    (h : Completes size x (s.goto x p) q out) : Completes size x s q out := by
  obtain ⟨as, s', hpath, hx, hq, hidle, hother, hrecords⟩ := h
  refine ⟨(x, label) :: as, s', .cons hs hpath, ?_, hq, hidle, fun y hy => ?_, hrecords⟩
  · intro a ha
    rcases List.mem_cons.1 ha with rfl | ha
    · rfl
    · exact hx a ha
  · exact (hother y hy).trans (s.pc_goto_of_ne p hy)

theorem Completes.idle (hidle : s.pc x = .idle) (hrecords : Records s s out) :
    Completes size x s s.queue out :=
  ⟨[], s, .nil s, nofun, rfl, hidle, fun _ _ => rfl, hrecords⟩

/-! ### The steps of `enqueue` -/

variable {data : α} {headSeq tailSeq : ℕ}

theorem step_loadHead (spurious : Bool) (hx : s.pc x = .loadHead data) :
    s.step x (.step spurious) = some (s.goto x (.loadFree data s.queue.headSeq)) := by
  unfold State.step
  simp only [hx]

theorem step_loadFree (spurious : Bool) (hx : s.pc x = .loadFree data headSeq) :
    s.step x (.step spurious) =
      if dif (s.queue.node headSeq).seq headSeq = 0 then some (s.goto x (.claimHead data headSeq))
      else if dif (s.queue.node headSeq).seq headSeq < 0 then some (s.goto x .idle)
      else some (s.goto x (.loadHead data)) := by
  unfold State.step
  simp only [hx]

theorem step_claimHead (spurious : Bool) (hx : s.pc x = .claimHead data headSeq) :
    s.step x (.step spurious) =
      if s.queue.headSeq = headSeq ∧ spurious = false then some (s.claimHead x data)
      else some (s.goto x (.loadFree data s.queue.headSeq)) := by
  unfold State.step
  simp only [hx]

/-- The thread that has claimed its ticket writes its slot. -/
theorem completes_claimHead (hx : s.pc x = .claimHead data s.queue.headSeq) :
    Completes size x s (s.queue.accept data s.queue.headSeq) (.enqueued true) := by
  let s₁ := s.claimHead x data
  let s₂ := s₁.writeData x data s.queue.headSeq
  let s₃ := s₂.storeFull x s.queue.headSeq
  have hclaim : s.step x (.step false) = some s₁ := by
    rw [step_claimHead false hx, if_pos ⟨rfl, rfl⟩]
  have hx₁ : s₁.pc x = .writeData data s.queue.headSeq := Function.update_self ..
  have hwrite : s₁.step x (.step false) = some s₂ := by
    unfold State.step
    simp only [hx₁]
    rfl
  have hx₂ : s₂.pc x = .storeFull data s.queue.headSeq := Function.update_self ..
  have hstore : s₂.step x (.step false) = some s₃ := by
    unfold State.step
    simp only [hx₂]
    rfl
  have hpath : (system τ α size).Path s [(x, .step false), (x, .step false), (x, .step false)] s₃ :=
    .cons hclaim (.cons hwrite (.cons hstore (.nil s₃)))
  refine ⟨_, s₃, hpath, ?_, rfl, Function.update_self .., fun y hy => ?_, ⟨_, _, rfl⟩, rfl⟩
  · simp
  · simp [s₃, s₂, s₁, State.storeFull, State.writeData, State.claimHead, Function.update_of_ne hy]

/-- The thread that enqueues takes the steps of the loop. -/
theorem enqueueLoop_path {flags : List Bool} (hx : s.pc x = .loadFree data headSeq)
    (h : s.queue.enqueueLoop data headSeq flags = some (q, out)) : Completes size x s q out := by
  induction flags generalizing s headSeq with
  | nil => cases h
  | cons spurious flags ih =>
    unfold enqueueLoop at h
    simp only at h
    have hs := step_loadFree false hx
    generalize dif (s.queue.node headSeq).seq headSeq = d at h hs
    by_cases hd : d = 0
    · rw [if_pos hd] at h hs
      refine Completes.goto hs ?_
      generalize hs₁ : s.goto x (.claimHead data headSeq) = s₁
      have hx₁ : s₁.pc x = .claimHead data headSeq := by rw [← hs₁, State.pc_goto]
      have hq₁ : s₁.queue = s.queue := by rw [← hs₁]; rfl
      rw [← hq₁] at h
      by_cases hc : s₁.queue.headSeq = headSeq ∧ spurious = false
      · rw [if_pos hc] at h
        cases h
        rw [← hc.1] at hx₁ ⊢
        exact completes_claimHead hx₁
      · rw [if_neg hc] at h
        have hs₂ := step_claimHead spurious hx₁
        rw [if_neg hc] at hs₂
        exact Completes.goto hs₂ (ih (State.pc_goto s₁ x _) h)
    · rw [if_neg hd] at h hs
      by_cases hlt : d < 0
      · rw [if_pos hlt] at h hs
        cases h
        exact Completes.goto hs (.idle (s.pc_goto x .idle) ⟨rfl, rfl⟩)
      · rw [if_neg hlt] at h hs
        have hs₂ := step_loadHead false (s.pc_goto x (.loadHead data))
        exact Completes.goto hs (Completes.goto hs₂ (ih (State.pc_goto _ x _) h))

/-! ### The steps of `dequeue` -/

theorem step_loadTail (spurious : Bool) (hx : s.pc x = .loadTail) :
    s.step x (.step spurious) = some (s.goto x (.loadFull s.queue.tailSeq)) := by
  unfold State.step
  simp only [hx]

theorem step_loadFull (spurious : Bool) (hx : s.pc x = .loadFull tailSeq) :
    s.step x (.step spurious) =
      if dif (s.queue.node tailSeq).seq (toSizeT (tailSeq + 1)) = 0 then
        some (s.goto x (.claimTail tailSeq))
      else if dif (s.queue.node tailSeq).seq (toSizeT (tailSeq + 1)) < 0 then some (s.goto x .idle)
      else some (s.goto x .loadTail) := by
  unfold State.step
  simp only [hx]

theorem step_claimTail (spurious : Bool) (hx : s.pc x = .claimTail tailSeq) :
    s.step x (.step spurious) =
      if s.queue.tailSeq = tailSeq ∧ spurious = false then some (s.claimTail x)
      else some (s.goto x (.loadFull s.queue.tailSeq)) := by
  unfold State.step
  simp only [hx]

/-- The thread that has claimed its ticket reads its slot and releases it. -/
theorem completes_claimTail (hx : s.pc x = .claimTail s.queue.tailSeq) :
    Completes size x s (s.queue.release s.queue.tailSeq)
      (.dequeued (s.queue.node s.queue.tailSeq).data) := by
  let s₁ := s.claimTail x
  let s₂ := s₁.readData x s.queue.tailSeq
  let s₃ := s₂.storeFree x s.queue.tailSeq (s.queue.node s.queue.tailSeq).data
  have hclaim : s.step x (.step false) = some s₁ := by
    rw [step_claimTail false hx, if_pos ⟨rfl, rfl⟩]
  have hx₁ : s₁.pc x = .readData s.queue.tailSeq := Function.update_self ..
  have hread : s₁.step x (.step false) = some s₂ := by
    unfold State.step
    simp only [hx₁]
    rfl
  have hx₂ : s₂.pc x = .storeFree s.queue.tailSeq (s.queue.node s.queue.tailSeq).data :=
    Function.update_self ..
  have hstore : s₂.step x (.step false) = some s₃ := by
    unfold State.step
    simp only [hx₂]
    rfl
  have hpath : (system τ α size).Path s [(x, .step false), (x, .step false), (x, .step false)] s₃ :=
    .cons hclaim (.cons hread (.cons hstore (.nil s₃)))
  refine ⟨_, s₃, hpath, ?_, rfl, Function.update_self .., fun y hy => ?_, rfl, _, rfl⟩
  · simp
  · simp [s₃, s₂, s₁, State.storeFree, State.readData, State.claimTail, State.goto,
      Function.update_of_ne hy]

/-- The thread that dequeues takes the steps of the loop. -/
theorem dequeueLoop_path {flags : List Bool} (hx : s.pc x = .loadFull tailSeq)
    (h : s.queue.dequeueLoop tailSeq flags = some (q, out)) : Completes size x s q out := by
  induction flags generalizing s tailSeq with
  | nil => cases h
  | cons spurious flags ih =>
    unfold dequeueLoop at h
    simp only at h
    have hs := step_loadFull false hx
    generalize dif (s.queue.node tailSeq).seq (toSizeT (tailSeq + 1)) = d at h hs
    by_cases hd : d = 0
    · rw [if_pos hd] at h hs
      refine Completes.goto hs ?_
      generalize hs₁ : s.goto x (.claimTail tailSeq) = s₁
      have hx₁ : s₁.pc x = .claimTail tailSeq := by rw [← hs₁, State.pc_goto]
      have hq₁ : s₁.queue = s.queue := by rw [← hs₁]; rfl
      rw [← hq₁] at h
      by_cases hc : s₁.queue.tailSeq = tailSeq ∧ spurious = false
      · rw [if_pos hc] at h
        cases h
        rw [← hc.1] at hx₁ ⊢
        exact completes_claimTail hx₁
      · rw [if_neg hc] at h
        have hs₂ := step_claimTail spurious hx₁
        rw [if_neg hc] at hs₂
        exact Completes.goto hs₂ (ih (State.pc_goto s₁ x _) h)
    · rw [if_neg hd] at h hs
      by_cases hlt : d < 0
      · rw [if_pos hlt] at h hs
        cases h
        exact Completes.goto hs (.idle (s.pc_goto x .idle) ⟨rfl, rfl⟩)
      · rw [if_neg hlt] at h hs
        have hs₂ := step_loadTail false (s.pc_goto x .loadTail)
        exact Completes.goto hs (Completes.goto hs₂ (ih (State.pc_goto _ x _) h))

/-- **A call is a run of the thread that makes it.** -/
theorem call_path {op : Op α} {flags : List Bool} (hx : s.pc x = .idle)
    (h : s.queue.call flags op = some (q, out)) : Completes size x s q out := by
  cases op with
  | enqueue data =>
    have hs : s.step x (.enqueue data) = some (s.goto x (.loadHead data)) := by
      unfold State.step
      simp only [hx]
    have hs₂ := step_loadHead false (s.pc_goto x (.loadHead data))
    exact Completes.goto hs (Completes.goto hs₂ (enqueueLoop_path (State.pc_goto _ x _) h))
  | dequeue =>
    have hs : s.step x .dequeue = some (s.goto x .loadTail) := by
      unfold State.step
      simp only [hx]
    have hs₂ := step_loadTail false (s.pc_goto x .loadTail)
    exact Completes.goto hs (Completes.goto hs₂ (dequeueLoop_path (State.pc_goto _ x _) h))

end MpmcQueue

end CqlClient
