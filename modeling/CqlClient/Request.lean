/-
  CqlClient formalization — waiting for a request (`cql_request.hpp`).

  `wait`, `wait_for` and `notify` are steps of any number of threads, each a load
  or the store of the flag or an operation on the mutex or on the condition.  The
  condition unlocks the mutex and puts the thread to sleep in one step; a thread
  that is woken, also spuriously or by a timeout, locks it again and looks at the
  flag again.

  `notify` does not lock the mutex.  It is lost on a thread that has found the flag
  clear and does not sleep yet (`served_iff`).
-/
import CqlClient.Lib.Run
import Mathlib.Data.List.Basic
import Mathlib.Logic.Function.Basic

namespace CqlClient

namespace Request
variable {τ : Type}

/-- The functions that wait. -/
inductive Wait where
  | wait
  | waitFor
  deriving DecidableEq, Repr

/-- Where a thread is: the constructors name its next step. -/
inductive Pc where
  /-- in none of the functions -/
  | idle
  /-- lock the mutex -/
  | lock (w : Wait)
  /-- load the flag, in the loop of the condition -/
  | check (w : Wait)
  /-- unlock the mutex and sleep -/
  | sleep (w : Wait)
  /-- on the condition, with no wake-up pending -/
  | asleep (w : Wait)
  /-- lock the mutex again -/
  | woken (w : Wait) (timedOut : Bool)
  /-- load the flag a last time, after a timeout -/
  | recheck (w : Wait)
  /-- unlock the mutex and return -/
  | unlock (w : Wait) (value : Bool)
  /-- `notify`: wake the threads on the condition -/
  | notifyAll
  deriving DecidableEq, Repr

/-- A call of `wait_for` that returned: whether its last load found the flag set, and
    the value, if there is a `return` on its path. -/
structure Return where
  found : Bool
  value : Option Bool
  deriving DecidableEq, Repr

/-- What `notify` does with the callback. -/
inductive Output where
  | callback
  | queueWork
  deriving DecidableEq, Repr

structure State (τ : Type) where
  flag : Bool := false
  /-- the thread that holds the mutex -/
  mutex : Option τ := none
  callback : Bool := false
  useLocalLoop : Bool := false
  pc : τ → Pc := fun _ => .idle
  /-- how often `notify` has completed -/
  notified : ℕ := 0
  returns : List Return := []
  out : List Output := []

/-- What a thread does next: it calls a function, takes its next step, or is woken. -/
inductive Label where
  | wait (w : Wait)
  | notify
  | step
  | timeout
  | spurious
  deriving DecidableEq, Repr

/-- A thread on the condition is woken. -/
def Pc.wake : Pc → Pc
  | asleep w => woken w false
  | p => p

namespace State
variable [DecidableEq τ]

def goto (s : State τ) (x : τ) (p : Pc) : State τ := { s with pc := Function.update s.pc x p }

/-- The thread leaves the function; `wait` has no value. -/
def leave (s : State τ) (x : τ) (w : Wait) (r : Return) : State τ :=
  match w with
  | .wait => s.goto x .idle
  | .waitFor => { s.goto x .idle with returns := s.returns ++ [r] }

/-- `notify_all`, and the callback. -/
def notifyAll (s : State τ) (x : τ) : State τ :=
  { s with
    pc := Function.update (fun y => (s.pc y).wake) x .idle
    notified := s.notified + 1
    out := s.out ++
      if s.callback then if s.useLocalLoop then [.callback] else [.queueWork] else [] }

/-- One step of the thread `x`; a call begins with its first load or store. -/
def step (s : State τ) (x : τ) (label : Label) : Option (State τ) :=
  match s.pc x, label with
  | .idle, .wait w =>
    -- `wait_for` has no `return` behind its `if`
    if s.flag then some (s.leave x w ⟨true, none⟩) else some (s.goto x (.lock w))
  | .idle, .notify => some { s.goto x .notifyAll with flag := true }
  | .lock w, .step =>
    if s.mutex = none then some { s.goto x (.check w) with mutex := some x } else none
  | .check w, .step => some (s.goto x (if s.flag then .unlock w true else .sleep w))
  | .sleep w, .step => some { s.goto x (.asleep w) with mutex := none }
  | .asleep w, .spurious => some (s.goto x (.woken w false))
  | .asleep .waitFor, .timeout => some (s.goto x (.woken .waitFor true))
  | .woken w timedOut, .step =>
    if s.mutex = none then
      some { s.goto x (if timedOut then .recheck w else .check w) with mutex := some x }
    else none
  | .recheck w, .step => some (s.goto x (.unlock w s.flag))
  | .unlock w value, .step => some { s.leave x w ⟨value, some value⟩ with mutex := none }
  | .notifyAll, .step => some (s.notifyAll x)
  | _, _ => none

end State

/-- The runs of the threads `τ` on a request. -/
def system (τ : Type) [DecidableEq τ] : System (State τ) (τ × Label) where
  init s := ∃ callback useLocalLoop, s = { callback, useLocalLoop }
  step s a s' := s.step a.1 a.2 = some s'

/-! ## What waiting promises -/

/-- Nobody is forgotten in `wait`, and `wait_for` says so when the request is ready. -/
structure Served (s : State τ) : Prop where
  awake : 0 < s.notified → ∀ x, s.pc x ≠ .asleep .wait
  returns : ∀ r ∈ s.returns, r.found = true → r.value = some true

/-- The step does not put a thread to sleep in `wait` that `notify` has missed, and is
    not a call of `wait_for` on a ready request. -/
def Timely (s : State τ) (a : τ × Label) : Prop :=
  match s.pc a.1, a.2 with
  | .sleep .wait, .step => s.notified = 0
  | .idle, .wait .waitFor => s.flag = false
  | _, _ => True

variable [DecidableEq τ] {s s' : State τ} {x : τ}

@[simp] theorem notified_leave (s : State τ) (x : τ) (w : Wait) (r : Return) :
    (s.leave x w r).notified = s.notified := by
  cases w <;> rfl

/-- A step that leads to a place other than the condition keeps the promises. -/
theorem served_goto (p : Pc) (h : Served s) (hp : p ≠ .asleep .wait)
    (hpc : s'.pc = Function.update s.pc x p) (hnotified : s'.notified = s.notified)
    (hreturns : s'.returns = s.returns) : Served s' := by
  constructor
  · intro hpos y
    rw [hnotified] at hpos
    rw [hpc, Function.update_apply]
    split
    · exact hp
    · exact h.awake hpos y
  · rw [hreturns]
    exact h.returns

/-- Leaving keeps the promises when the value is right. -/
theorem served_leave (s' : State τ) {w : Wait} {r : Return} (h : Served s)
    (hpc : s'.pc = (s.leave x w r).pc)
    (hnotified : s'.notified = s.notified) (hreturns : s'.returns = (s.leave x w r).returns) :
    Served s' ↔ (w = .waitFor → r.found = true → r.value = some true) := by
  cases w with
  | wait =>
    simp only [reduceCtorEq, false_implies, iff_true]
    exact served_goto .idle h nofun hpc hnotified hreturns
  | waitFor =>
    have hawake : 0 < s'.notified → ∀ y, s'.pc y ≠ .asleep .wait := by
      intro hpos y
      rw [hnotified] at hpos
      rw [hpc]
      change Function.update s.pc x .idle y ≠ _
      rw [Function.update_apply]
      split
      · nofun
      · exact h.awake hpos y
    have hret : s'.returns = s.returns ++ [r] := hreturns
    constructor
    · intro hs _ hfound
      exact hs.returns r (hret ▸ List.mem_append_right _ (List.mem_singleton_self r)) hfound
    · intro hr
      refine ⟨hawake, fun r' hmem => ?_⟩
      rw [hret] at hmem
      rcases List.mem_append.1 hmem with hmem | hmem
      · exact h.returns r' hmem
      · rw [List.mem_singleton.1 hmem]
        exact hr rfl

/-- `notify_all` leaves nobody on the condition. -/
theorem served_notifyAll (h : Served s) : Served (s.notifyAll x) := by
  constructor
  · intro _ y
    change Function.update (fun y => (s.pc y).wake) x .idle y ≠ _
    rw [Function.update_apply]
    split
    · nofun
    · cases s.pc y <;> nofun
  · exact h.returns

/-- **One step keeps the promises exactly when it is timely.** -/
theorem served_step {label : Label} (h : Served s) (hs : s.step x label = some s') :
    Served s' ↔ Timely s (x, label) := by
  unfold State.step at hs
  unfold Timely
  split at hs
  · rename_i w hx
    simp only [hx]
    split at hs
    · rename_i hflag
      cases hs
      rw [served_leave _ h rfl (notified_leave s x w _) rfl]
      cases w <;> simp [hflag]
    · rename_i hflag
      cases hs
      have hserved : Served (s.goto x (.lock w)) := served_goto (.lock w) h nofun rfl rfl rfl
      cases w <;> simp [hflag, hserved]
  · rename_i hx
    simp only [hx]
    cases hs
    exact iff_of_true (served_goto .notifyAll h nofun rfl rfl rfl) trivial
  · rename_i w hx
    simp only [hx]
    split at hs
    · cases hs
      exact iff_of_true (served_goto (.check w) h nofun rfl rfl rfl) trivial
    · cases hs
  · rename_i w hx
    simp only [hx]
    cases hs
    refine iff_of_true (served_goto (if s.flag then .unlock w true else .sleep w) h ?_ rfl rfl rfl)
      trivial
    split <;> nofun
  · rename_i w hx
    simp only [hx]
    cases hs
    cases w with
    | wait =>
      constructor
      · intro hserved
        by_contra hpos
        exact hserved.awake (Nat.pos_of_ne_zero hpos) x (Function.update_self x _ s.pc)
      · intro hzero
        refine ⟨fun hpos => ?_, h.returns⟩
        exact absurd hzero (Nat.pos_iff_ne_zero.1 hpos)
    | waitFor => exact iff_of_true (served_goto (.asleep .waitFor) h nofun rfl rfl rfl) trivial
  · rename_i w hx
    simp only [hx]
    cases hs
    exact iff_of_true (served_goto (.woken w false) h nofun rfl rfl rfl) trivial
  · rename_i hx
    simp only [hx]
    cases hs
    exact iff_of_true (served_goto (.woken .waitFor true) h nofun rfl rfl rfl) trivial
  · rename_i w timedOut hx
    simp only [hx]
    split at hs
    · cases hs
      refine iff_of_true (served_goto (if timedOut then .recheck w else .check w) h ?_ rfl rfl rfl)
        trivial
      split <;> nofun
    · cases hs
  · rename_i w hx
    simp only [hx]
    cases hs
    exact iff_of_true (served_goto (.unlock w s.flag) h nofun rfl rfl rfl) trivial
  · rename_i w value hx
    simp only [hx]
    cases hs
    have hiff := served_leave { s.leave x w ⟨value, some value⟩ with mutex := none } h
      (x := x) (w := w) (r := ⟨value, some value⟩) rfl (notified_leave s x w _) rfl
    rw [hiff]
    cases value <;> simp
  · rename_i hx
    simp only [hx]
    cases hs
    exact iff_of_true (served_notifyAll h) trivial
  · cases hs

/-! ## Runs -/

/-- **The promises are kept exactly as long as every step is timely.** -/
theorem served_iff {steps : List (State τ × τ × Label)} (h : (system τ).Run s steps) :
    (Served s ∧ ∀ x ∈ steps, Served x.1) ↔ ∀ x ∈ steps, Timely x.1 x.2 := by
  refine h.forall_iff ?_ ?_
  · rintro s ⟨callback, useLocalLoop, rfl⟩
    exact ⟨fun hpos => absurd hpos (Nat.lt_irrefl 0), nofun⟩
  · intro s a s' _ hserved hs
    exact served_step hserved hs

/-- One thread waits, sleeps and is woken by another, which makes the request ready. -/
theorem served_iff_woken : ∃ (s : State Bool) (steps : List (State Bool × Bool × Label)),
    (system Bool).Run s steps ∧ s.notified = 1 ∧ s.pc true = .woken .wait false ∧ Served s := by
  have h₀ : (system Bool).Run {} [] := .init ⟨false, false, rfl⟩
  have h₁ := h₀.step (a := (true, Label.wait .wait)) rfl
  have h₂ := h₁.step (a := (true, Label.step)) rfl
  have h₃ := h₂.step (a := (true, Label.step)) rfl
  have h₄ := h₃.step (a := (true, Label.step)) rfl
  have h₅ := h₄.step (a := (false, Label.notify)) rfl
  have h₆ := h₅.step (a := (false, Label.step)) rfl
  refine ⟨_, _, h₆, rfl, rfl, ((served_iff h₆).2 ?_).1⟩
  simp only [List.forall_mem_cons]
  exact ⟨trivial, trivial, rfl, trivial, trivial, trivial, nofun⟩

/-- `notify` comes between the look at the flag and the sleep, and the thread is not
    woken; a call of `wait_for` after it returns without a value. -/
theorem not_served : (∃ s, (system Bool).Reachable s ∧ s.notified = 1 ∧
      s.pc true = .asleep .wait ∧ s.pc false = .idle) ∧
    ∃ s, (system Bool).Reachable s ∧ s.returns = [⟨true, none⟩] := by
  have h₀ : (system Bool).Reachable {} := .init ⟨false, false, rfl⟩
  have h₁ := h₀.step (a := (true, Label.wait .wait)) rfl
  have h₂ := h₁.step (a := (true, Label.step)) rfl
  have h₃ := h₂.step (a := (true, Label.step)) rfl
  have h₄ := h₃.step (a := (false, Label.notify)) rfl
  have h₅ := h₄.step (a := (false, Label.step)) rfl
  constructor
  · exact ⟨_, h₅.step (a := (true, Label.step)) rfl, rfl, rfl, rfl⟩
  · exact ⟨_, h₅.step (a := (false, Label.wait .waitFor)) rfl, rfl⟩

end Request

end CqlClient
