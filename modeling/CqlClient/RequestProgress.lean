/-
  CqlClient formalization — nobody who waits for a request is stuck.

  At most one thread has the mutex, and that thread can always go on.  The calls pay
  for all of the steps, in any interleaving: six for a wait, one for a `notify`, and
  three for a spurious wake-up (`calls_pay`).  Left to themselves, the threads return
  or sleep on the condition, and once the flag is set nobody goes to sleep that has
  not found it clear before (`settles`).
-/
import CqlClient.Lib.Potential
import CqlClient.Request

namespace CqlClient

namespace Request
variable {τ : Type}

/-! ## Places -/

/-- The thread has the mutex. -/
def Pc.holds : Pc → Bool
  | check _ | sleep _ | recheck _ | unlock _ _ => true
  | _ => false

/-- The thread is in none of the functions, or on the condition. -/
def Pc.Resting (p : Pc) : Prop := p = .idle ∨ ∃ w, p = .asleep w

/-- How many steps a thread takes at most until it rests, also after a wake-up by
    `notify`.  Once the flag is set it does not go around the loop again. -/
def Pc.cost (flag : Bool) : Pc → ℕ
  | idle => 0
  | unlock _ _ | notifyAll => 1
  | recheck _ => 2
  | asleep _ | woken _ true => 3
  | sleep _ => 4
  | check _ => if flag then 2 else 5
  | lock _ | woken _ false => if flag then 3 else 6

/-- What a label brings in: the steps of a call, or of another round in the loop. -/
def Label.pays : Label → ℕ
  | wait _ => 6
  | notify => 1
  | spurious => 3
  | step | timeout => 0

theorem Pc.cost_le (flag : Bool) (p : Pc) : p.cost flag ≤ 6 := by
  cases p with
  | woken w timedOut => cases timedOut <;> cases flag <;> simp [cost]
  | _ => cases flag <;> simp [cost]

theorem Pc.cost_true_le (flag : Bool) (p : Pc) : p.cost true ≤ p.cost flag := by
  cases p with
  | woken w timedOut => cases timedOut <;> cases flag <;> simp [cost]
  | _ => cases flag <;> simp [cost]

theorem Pc.cost_wake (p : Pc) : p.wake.cost true = p.cost true := by
  cases p <;> rfl

theorem Pc.holds_wake (p : Pc) : p.wake.holds = p.holds := by
  cases p <;> rfl

/-- The steps that the threads still take. -/
def work (s : State τ) (threads : Finset τ) : ℕ := ∑ x ∈ threads, (s.pc x).cost s.flag

theorem work_le (s : State τ) (threads : Finset τ) : work s threads ≤ 6 * threads.card := by
  have hle : work s threads ≤ ∑ _x ∈ threads, 6 := Finset.sum_le_sum fun x _ => Pc.cost_le _ _
  rw [Finset.sum_const, smul_eq_mul, Nat.mul_comm] at hle
  exact hle

/-! ## One step -/

variable {s s' : State τ} {x : τ} {label : Label}

/-- The mutex after a step of `x`: as it was, locked by `x`, or unlocked by it. -/
inductive Locks (s : State τ) (x : τ) (s' : State τ) : Prop where
  | keeps (hmutex : s'.mutex = s.mutex) (hpc : (s'.pc x).holds = (s.pc x).holds)
  | locks (hfree : s.mutex = none) (hmutex : s'.mutex = some x) (hpc : (s'.pc x).holds = true)
  | unlocks (hheld : (s.pc x).holds = true) (hmutex : s'.mutex = none)
    (hpc : (s'.pc x).holds = false)

/-- What a step does: it changes the place of its own thread, or `notify_all` wakes the
    others. -/
structure Moves (s : State τ) (x : τ) (label : Label) (s' : State τ) : Prop where
  others : (∀ y, y ≠ x → s'.pc y = s.pc y) ∨
    s.pc x = .notifyAll ∧ ∀ y, y ≠ x → s'.pc y = (s.pc y).wake
  flag : s'.flag = s.flag ∨ label = .notify ∧ s'.flag = true
  notifies : s'.pc x = .notifyAll → s'.flag = true
  locks : Locks s x s'
  cost : (s'.pc x).cost s'.flag + (if label = .step then 1 else 0) ≤
    (s.pc x).cost s.flag + label.pays
  sleeps : ∀ w, s'.pc x = .asleep w → s.pc x = .sleep w
  tires : ∀ w, s'.pc x = .sleep w → s.flag = false

theorem Moves.holds (h : Moves s x label s') {y : τ} (hy : y ≠ x) :
    (s'.pc y).holds = (s.pc y).holds := by
  rcases h.others with hpc | ⟨-, hpc⟩
  · rw [hpc y hy]
  · rw [hpc y hy, Pc.holds_wake]

/-- The flag stays set. -/
theorem Moves.flag_true (h : Moves s x label s') (hset : s.flag = true) : s'.flag = true := by
  rcases h.flag with hflag | ⟨-, hflag⟩
  · rw [hflag, hset]
  · exact hflag

/-- Once the flag is set, who sleeps was asleep before, or about to sleep. -/
theorem Moves.sleeper (h : Moves s x label s') (hset : s.flag = true) {y : τ} {w : Wait}
    (hy : s'.pc y = .asleep w ∨ s'.pc y = .sleep w) : s.pc y = .asleep w ∨ s.pc y = .sleep w := by
  by_cases hyx : y = x
  · subst hyx
    rcases hy with hy | hy
    · exact .inr (h.sleeps w hy)
    · have hclear := h.tires w hy
      rw [hset] at hclear
      cases hclear
  · rcases h.others with hpc | ⟨-, hpc⟩
    · rwa [hpc y hyx] at hy
    · rw [hpc y hyx] at hy
      cases hp : s.pc y <;> simp_all [Pc.wake]

/-- A thread that is outside stays there, whoever steps. -/
theorem Moves.idle (h : Moves s x label s') {y : τ} (hy : y ≠ x) (hidle : s.pc y = .idle) :
    s'.pc y = .idle := by
  rcases h.others with hpc | ⟨-, hpc⟩
  · rw [hpc y hy, hidle]
  · rw [hpc y hy, hidle]
    rfl

/-- Where the threads that have come to rest are: those on the condition when the flag
    is set were there, or about to sleep. -/
structure Settled (s s' : State τ) : Prop where
  resting : ∀ x, (s'.pc x).Resting
  sleepers : s.flag = true → ∀ x w, s'.pc x = .asleep w →
    s.pc x = .asleep w ∨ s.pc x = .sleep w

theorem Settled.of_moves {s₁ : State τ} (h : Settled s₁ s') (hm : Moves s x label s₁) :
    Settled s s' := by
  refine ⟨h.resting, ?_⟩
  intro hset y w hy
  exact hm.sleeper hset (h.sleepers (hm.flag_true hset) y w hy)

variable [DecidableEq τ]

/-- A step that only goes on. -/
theorem moves_goto {p : Pc} (hs : s'.pc = Function.update s.pc x p) (hflag : s'.flag = s.flag)
    (hnotify : p ≠ .notifyAll)
    (hlocks : Locks s x s')
    (hcost : p.cost s.flag + (if label = .step then 1 else 0) ≤
      (s.pc x).cost s.flag + label.pays)
    (hsleeps : ∀ w, p = .asleep w → s.pc x = .sleep w)
    (htires : ∀ w, p = .sleep w → s.flag = false) : Moves s x label s' := by
  have hx : s'.pc x = p := by rw [hs, Function.update_self]
  refine ⟨.inl ?_, .inl hflag, ?_, hlocks, ?_, ?_, ?_⟩
  · intro y hy
    rw [hs, Function.update_of_ne hy]
  · rw [hx]
    exact fun h => absurd h hnotify
  · rw [hx, hflag]
    exact hcost
  · rw [hx]
    exact hsleeps
  · rw [hx]
    exact htires

@[simp] theorem pc_leave (s : State τ) (x : τ) (w : Wait) (r : Return) :
    (s.leave x w r).pc = Function.update s.pc x .idle := by
  cases w <;> rfl

@[simp] theorem flag_leave (s : State τ) (x : τ) (w : Wait) (r : Return) :
    (s.leave x w r).flag = s.flag := by
  cases w <;> rfl

@[simp] theorem mutex_leave (s : State τ) (x : τ) (w : Wait) (r : Return) :
    (s.leave x w r).mutex = s.mutex := by
  cases w <;> rfl

/-- **Every step.** -/
theorem moves_of_step (hs : s.step x label = some s') : Moves s x label s' := by
  unfold State.step at hs
  split at hs
  · rename_i w hx
    split at hs
    · rename_i hflag
      cases hs
      refine moves_goto (pc_leave s x w _) (flag_leave s x w _) nofun
        (.keeps (mutex_leave s x w _) ?_) ?_ nofun nofun
      · simp [hx, Pc.holds]
      · simp [hx, Pc.cost]
    · cases hs
      refine moves_goto rfl rfl nofun (.keeps rfl ?_) ?_ nofun nofun
      · simp [State.goto, hx, Pc.holds]
      · have hle := Pc.cost_le s.flag (.lock w)
        simpa [hx, Pc.cost, Label.pays] using hle
  · -- the flag is set, which spares the others a round of the loop
    rename_i hx
    cases hs
    refine ⟨.inl ?_, .inr ⟨rfl, rfl⟩, fun _ => rfl, .keeps rfl ?_, ?_, ?_, ?_⟩
    · intro y hy
      exact Function.update_of_ne hy _ _
    · simp [State.goto, hx, Pc.holds]
    · simp [State.goto, hx, Pc.cost, Label.pays]
    · intro w hw
      simp [State.goto] at hw
    · intro w hw
      simp [State.goto] at hw
  · rename_i w hx
    split at hs
    · rename_i hfree
      cases hs
      refine moves_goto rfl rfl nofun (.locks hfree rfl ?_) ?_ nofun nofun
      · simp [State.goto, Pc.holds]
      · cases hf : s.flag <;> simp [hx, Pc.cost]
    · cases hs
  · rename_i w hx
    cases hs
    refine moves_goto rfl rfl ?_ (.keeps rfl ?_) ?_ ?_ ?_
    · split <;> nofun
    · cases hf : s.flag <;> simp [State.goto, hx, Pc.holds]
    · cases hf : s.flag <;> simp [hx, Pc.cost]
    · split <;> nofun
    · intro w' hw
      split at hw
      · cases hw
      · exact Bool.eq_false_of_not_eq_true ‹_›
  · rename_i w hx
    cases hs
    refine moves_goto rfl rfl nofun (.unlocks ?_ rfl ?_) ?_ ?_ nofun
    · simp [hx, Pc.holds]
    · simp [State.goto, Pc.holds]
    · simp [hx, Pc.cost]
    · rintro w' ⟨⟩
      exact hx
  · rename_i w hx
    cases hs
    refine moves_goto rfl rfl nofun (.keeps rfl ?_) ?_ nofun nofun
    · simp [State.goto, hx, Pc.holds]
    · cases hf : s.flag <;> simp [hx, Pc.cost, Label.pays]
  · rename_i hx
    cases hs
    refine moves_goto rfl rfl nofun (.keeps rfl ?_) ?_ nofun nofun
    · simp [State.goto, hx, Pc.holds]
    · simp [hx, Pc.cost, Label.pays]
  · rename_i w timedOut hx
    split at hs
    · rename_i hfree
      cases hs
      refine moves_goto rfl rfl ?_ (.locks hfree rfl ?_) ?_ ?_ ?_
      · split <;> nofun
      · cases timedOut <;> simp [State.goto, Pc.holds]
      · cases timedOut <;> cases hf : s.flag <;> simp [hx, Pc.cost]
      · split <;> nofun
      · split <;> nofun
    · cases hs
  · rename_i w hx
    cases hs
    refine moves_goto rfl rfl nofun (.keeps rfl ?_) ?_ nofun nofun
    · simp [State.goto, hx, Pc.holds]
    · simp [hx, Pc.cost]
  · rename_i w value hx
    cases hs
    refine moves_goto (pc_leave s x w _) (flag_leave s x w _) nofun (.unlocks ?_ rfl ?_) ?_ nofun
      nofun
    · simp [hx, Pc.holds]
    · simp [Pc.holds]
    · simp [hx, Pc.cost]
  · rename_i hx
    cases hs
    have hself : (s.notifyAll x).pc x = .idle := by simp [State.notifyAll]
    refine ⟨.inr ⟨hx, ?_⟩, .inl rfl, ?_, .keeps rfl ?_, ?_, ?_, ?_⟩
    · intro y hy
      simp [State.notifyAll, hy]
    · rw [hself]
      nofun
    · rw [hself, hx]
      rfl
    · rw [hself, hx]
      simp [Pc.cost]
    · rw [hself]
      nofun
    · rw [hself]
      nofun
  · cases hs

/-! ## The invariant -/

/-- Exactly the thread that has locked the mutex is between the lock and the unlock, and
    `notify` sets the flag before it wakes. -/
structure Exclusive (s : State τ) : Prop where
  mutex : ∀ x, s.mutex = some x ↔ (s.pc x).holds = true
  flag : ∀ x, s.pc x = .notifyAll → s.flag = true

theorem Exclusive.moves (h : Exclusive s) (hm : Moves s x label s') : Exclusive s' := by
  constructor
  · intro y
    by_cases hy : y = x
    · subst hy
      cases hm.locks with
      | keeps hmutex hpc => rw [hmutex, hpc, h.mutex]
      | locks _ hmutex hpc => simp [hmutex, hpc]
      | unlocks _ hmutex hpc => simp [hmutex, hpc]
    · rw [hm.holds hy, ← h.mutex]
      cases hm.locks with
      | keeps hmutex _ => rw [hmutex]
      | locks hfree hmutex _ => simp [hfree, hmutex, Ne.symm hy]
      | unlocks hheld hmutex _ =>
        rw [← h.mutex] at hheld
        simp [hheld, hmutex, Ne.symm hy]
  · intro y hy
    by_cases hyx : y = x
    · subst hyx
      exact hm.notifies hy
    · rcases hm.others with hpc | ⟨hx, hpc⟩
      · rw [hpc y hyx] at hy
        exact hm.flag_true (h.flag y hy)
      · exact hm.flag_true (h.flag x hx)

theorem exclusive_of_reachable (h : (system τ).Reachable s) : Exclusive s := by
  refine h.invariant (I := Exclusive) ?_ ?_
  · rintro s ⟨callback, useLocalLoop, rfl⟩
    constructor
    · intro x
      simp [Pc.holds]
    · intro x hx
      cases hx
  · intro s a s' _ hs hstep
    exact hs.moves (moves_of_step hstep)

/-- **Nobody is stuck**: if not all threads rest, one of them can go on. -/
theorem Exclusive.progress (h : Exclusive s) (hx : ¬ (s.pc x).Resting) :
    ∃ y s', s.step y .step = some s' := by
  rcases hmutex : s.mutex with _ | y
  · -- the mutex is free for `x`
    have hfree := (h.mutex x).not.1 (by simp [hmutex])
    refine ⟨x, ?_⟩
    unfold State.step
    cases hp : s.pc x with
    | idle => exact absurd (.inl hp) hx
    | asleep w => exact absurd (.inr ⟨w, hp⟩) hx
    | check | sleep | recheck | unlock => simp [hp, Pc.holds] at hfree
    | lock w => exact ⟨_, if_pos hmutex⟩
    | woken w timedOut => exact ⟨_, if_pos hmutex⟩
    | notifyAll => exact ⟨_, rfl⟩
  · have hheld := (h.mutex y).1 hmutex
    refine ⟨y, ?_⟩
    unfold State.step
    cases hp : s.pc y with
    | check | sleep | recheck | unlock => exact ⟨_, rfl⟩
    | _ => simp [hp, Pc.holds] at hheld

/-! ## The work of the threads -/

theorem Moves.work (h : Moves s x label s') (hs : Exclusive s) {threads : Finset τ}
    (hx : x ∈ threads) :
    work s' threads + (if label = .step then 1 else 0) ≤ work s threads + label.pays := by
  have hother : ∀ y ∈ threads, y ≠ x → (s'.pc y).cost s'.flag ≤ (s.pc y).cost s.flag + 0 := by
    intro y _ hy
    rcases h.others with hpc | ⟨hnotify, hpc⟩
    · rw [hpc y hy]
      rcases h.flag with hflag | ⟨-, hflag⟩
      · rw [hflag]
        exact le_rfl
      · rw [hflag]
        exact Pc.cost_true_le _ _
    · -- who wakes finds the flag set
      have hset := hs.flag x hnotify
      rw [hpc y hy, hset]
      rcases h.flag with hflag | ⟨-, hflag⟩
      · rw [hflag, hset, Pc.cost_wake]
        exact le_rfl
      · rw [hflag, Pc.cost_wake]
        exact le_rfl
  have hsum := Finset.sum_add_le_of_falls (f := fun y => (s.pc y).cost s.flag)
    (g := fun y => (s'.pc y).cost s'.flag) hx h.cost hother
  simpa [Request.work] using hsum

/-! ## Runs -/

variable {as : List (τ × Label)} {threads : Finset τ}

theorem steps_add_work (threads : Finset τ) (hp : (system τ).Path s as s') (hs : Exclusive s)
    (hthreads : ∀ a ∈ as, a.1 ∈ threads) :
    as.countP (fun a => a.2 = .step) + work s' threads ≤
      work s threads + (as.map fun a => a.2.pays).sum := by
  induction hp with
  | nil s => simp
  | @cons s s₁ s₂ a as hstep hp ih =>
    obtain ⟨ha, has⟩ := List.forall_mem_cons.1 hthreads
    have hm := moves_of_step hstep
    have hwork := hm.work hs ha
    have hrest := ih (hs.moves hm) has
    simp only [List.countP_cons, List.map_cons, List.sum_cons, decide_eq_true_eq]
    omega

/-- **The calls pay for the steps**: in a run from the start, in which any number of
    threads wait and notify in any order, there are at most six steps for each wait, one
    for each `notify`, and three for each spurious wake-up. -/
theorem calls_pay (hinit : (system τ).init s) (hp : (system τ).Path s as s') :
    as.countP (fun a => a.2 = .step) ≤ (as.map fun a => a.2.pays).sum := by
  have hs := exclusive_of_reachable (.init hinit)
  have hsteps := steps_add_work (as.map Prod.fst).toFinset hp hs (by
    intro a ha
    exact List.mem_toFinset.2 (List.mem_map_of_mem ha))
  obtain ⟨callback, useLocalLoop, rfl⟩ := hinit
  have hzero : work ({ callback, useLocalLoop } : State τ) (as.map Prod.fst).toFinset = 0 :=
    Finset.sum_eq_zero fun x _ => rfl
  omega

theorem settles_of_exclusive (hs : Exclusive s) (hidle : ∀ x ∉ threads, s.pc x = .idle) :
    ∃ as s', (system τ).Path s as s' ∧ (∀ a ∈ as, a.2 = .step) ∧
      as.length ≤ work s threads ∧ Settled s s' := by
  induction hn : work s threads using Nat.strong_induction_on generalizing s with
  | _ n ih =>
    subst hn
    by_cases hrest : ∀ x, (s.pc x).Resting
    · refine ⟨[], s, .nil s, List.forall_mem_nil _, Nat.zero_le _, hrest, ?_⟩
      intro _ x w hx
      exact .inl hx
    · obtain ⟨x, hx⟩ := not_forall.1 hrest
      obtain ⟨y, s₁, hstep⟩ := hs.progress hx
      have hm := moves_of_step hstep
      have hy : y ∈ threads := by
        by_contra hout
        have hnone : s.step y .step = none := by simp [State.step, hidle y hout]
        rw [hnone] at hstep
        cases hstep
      have hwork := hm.work hs hy
      rw [if_pos rfl] at hwork
      have hidle₁ : ∀ x ∉ threads, s₁.pc x = .idle := by
        intro x hx
        have hne : x ≠ y := by
          rintro rfl
          exact hx hy
        exact hm.idle hne (hidle x hx)
      obtain ⟨as, s', hp, has, hlen, hsettled⟩ :=
        ih (work s₁ threads) (by simp only [Label.pays] at hwork; omega) (hs.moves hm) hidle₁ rfl
      refine ⟨(y, .step) :: as, s', .cons hstep hp, ?_, ?_, hsettled.of_moves hm⟩
      · exact List.forall_mem_cons.2 ⟨rfl, has⟩
      · simp only [Label.pays] at hwork
        rw [List.length_cons]
        omega

/-- **Left to themselves, the threads come to rest**: from any state, steps of the
    threads in the functions, at most six for each, lead to one in which all of them have
    returned or sleep on the condition. -/
theorem settles (h : (system τ).Reachable s) (hidle : ∀ x ∉ threads, s.pc x = .idle) :
    ∃ as s', (system τ).Path s as s' ∧ (∀ a ∈ as, a.2 = .step) ∧
      as.length ≤ 6 * threads.card ∧ Settled s s' := by
  obtain ⟨as, s', hp, has, hlen, hsettled⟩ :=
    settles_of_exclusive (exclusive_of_reachable h) hidle
  exact ⟨as, s', hp, has, hlen.trans (work_le s threads), hsettled⟩

/-! ## A wait and a `notify` -/

/-- One thread has found the flag clear, and another one notifies. -/
theorem reachable_late : ∃ s, (system Bool).Reachable s ∧ s.flag = true ∧
    s.pc true = .sleep .wait ∧ s.pc false = .notifyAll := by
  have h₀ : (system Bool).Reachable {} := .init ⟨false, false, rfl⟩
  have h₁ := h₀.step (a := (true, Label.wait .wait)) rfl
  have h₂ := h₁.step (a := (true, Label.step)) rfl
  have h₃ := h₂.step (a := (true, Label.step)) rfl
  exact ⟨_, h₃.step (a := (false, Label.notify)) rfl, rfl, rfl, rfl⟩

/-- They come to rest. -/
theorem settles_late : ∃ s s', (system Bool).Reachable s ∧ s.pc true = .sleep .wait ∧
    s.pc false = .notifyAll ∧ Settled s s' := by
  obtain ⟨s, hs, -, hsleep, hnotify⟩ := reachable_late
  have hidle : ∀ x ∉ (Finset.univ : Finset Bool), s.pc x = .idle := by
    intro x hx
    exact absurd (Finset.mem_univ x) hx
  obtain ⟨as, s', -, -, -, hsettled⟩ := settles hs hidle
  exact ⟨s, s', hs, hsleep, hnotify, hsettled⟩

/-- A wait, a `notify` that wakes it, and their steps. -/
def wokenCalls : List (Bool × Label) :=
  [(true, .wait .wait), (true, .step), (true, .step), (true, .step), (false, .notify),
    (false, .step), (true, .step), (true, .step), (true, .step)]

/-- They take all of the seven steps that are paid for. -/
theorem calls_pay_woken : ∃ s, (system Bool).Path {} wokenCalls s ∧
    wokenCalls.countP (fun a => a.2 = .step) ≤ (wokenCalls.map fun a => a.2.pays).sum := by
  have hpath : ∃ s, (system Bool).Path {} wokenCalls s :=
    ⟨_, .cons rfl (.cons rfl (.cons rfl (.cons rfl (.cons rfl (.cons rfl (.cons rfl (.cons rfl
      (.cons rfl (.nil _)))))))))⟩
  obtain ⟨s, hp⟩ := hpath
  exact ⟨s, hp, calls_pay ⟨false, false, rfl⟩ hp⟩

end Request

end CqlClient
