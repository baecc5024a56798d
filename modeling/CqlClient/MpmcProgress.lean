/-
  CqlClient formalization — the bounded queue makes progress.

  Nobody waits for anybody: an operation that is left alone returns within six
  steps (`returns_alone`), wherever the other threads have stopped.  A claim by
  another thread makes an operation try again; every operation claims at most
  once, so that all operations under way return after a number of steps that
  their number bounds, in any interleaving (`steps_le`).
-/
import CqlClient.MpmcFifo
import CqlClient.MpmcJustified
import CqlClient.Lib.Potential

namespace CqlClient

open Word

namespace MpmcQueue
variable {τ α : Type}

/-! ## What a thread still has to do -/

/-- How many steps a thread at `p` takes at most, if it is left alone.  A ticket
    that is not the next one costs a second attempt. -/
def Pc.cost (q : MpmcQueue α) : Pc α → ℕ
  | .idle => 0
  | .storeFull _ _ | .storeFree _ _ => 1
  | .writeData _ _ | .readData _ => 2
  | .claimHead _ headSeq => if headSeq = q.headSeq then 3 else 5
  | .loadFree _ headSeq => if headSeq = q.headSeq then 4 else 6
  | .claimTail tailSeq => if tailSeq = q.tailSeq then 3 else 5
  | .loadFull tailSeq => if tailSeq = q.tailSeq then 4 else 6
  | .loadHead _ | .loadTail => 5

/-- A thread at `p` may still claim a ticket. -/
def Pc.unclaimed : Pc α → ℕ
  | .loadHead _ | .loadFree _ _ | .claimHead _ _ | .loadTail | .loadFull _ | .claimTail _ => 1
  | _ => 0

/-- A compare-exchange that fails spuriously is a step and one more attempt. -/
def Label.brings : Label α → ℕ
  | .step true => 2
  | _ => 0

/-- The thread takes its next step. -/
def Label.IsStep (label : Label α) : Prop := ∃ spurious, label = .step spurious

theorem Pc.cost_le (q : MpmcQueue α) (p : Pc α) : p.cost q ≤ 6 := by
  cases p with
  | claimHead | loadFree | claimTail | loadFull =>
    simp only [cost]
    split <;> omega
  | _ => simp [cost]

theorem Pc.unclaimed_le (p : Pc α) : p.unclaimed ≤ 1 := by
  cases p <;> simp [unclaimed]

theorem Pc.idle_of_cost {q : MpmcQueue α} {p : Pc α} (h : p.cost q = 0) : p = .idle := by
  cases p with
  | idle => rfl
  | claimHead data t | loadFree data t | claimTail t | loadFull t =>
    simp only [cost] at h
    split_ifs at h
  | _ => cases h

/-- Another thread that claims makes an attempt stale at most. -/
theorem Pc.cost_le_of_claim (q q' : MpmcQueue α) (p : Pc α) : p.cost q' ≤ p.cost q + 2 := by
  cases p with
  | claimHead | loadFree | claimTail | loadFull =>
    simp only [cost]
    split_ifs <;> omega
  | _ => simp [cost]

theorem Pc.cost_congr {q q' : MpmcQueue α} (hhead : q'.headSeq = q.headSeq)
    (htail : q'.tailSeq = q.tailSeq) (p : Pc α) : p.cost q' = p.cost q := by
  cases p <;> simp only [cost, hhead, htail]

/-! ## The next ticket is never behind its slot -/

namespace State
variable {s s' : State τ α} {k : ℕ} {x : τ}

/-- The slot of the next ticket is not ahead of it. -/
theorem Laps.head_le (hl : s.Laps k) (hi : s.Inv k) :
    (s.queue.node s.enqueues.length).seq ≤ s.enqueues.length := by
  have hle := hi.le
  have hpos := Nat.two_pow_pos k
  rcases hl.seq s.enqueues.length with hseq | ⟨u, hu, hslot, hseq⟩ | ⟨u, hu, -, hseq⟩
  · rw [hseq, slot_eq hi.mask]
    exact Nat.mod_le _ _
  · rw [slot_eq hi.mask, slot_eq hi.mask] at hslot
    have hdvd := (Nat.modEq_iff_dvd' (by omega)).1 hslot
    have := Nat.le_of_dvd (by omega) hdvd
    omega
  · omega

/-- The slot of the oldest ticket is at most at its element. -/
theorem Laps.tail_le (hl : s.Laps k) (hi : s.Inv k) :
    (s.queue.node s.dequeues.length).seq ≤ s.dequeues.length + 1 := by
  have hcap := hl.capacity
  rcases hl.seq s.dequeues.length with hseq | ⟨u, hu, hslot, hseq⟩ | ⟨u, hu, hslot, hseq⟩
  · rw [hseq, slot_eq hi.mask]
    exact (Nat.mod_le _ _).trans (Nat.le_succ _)
  · rw [slot_eq hi.mask, slot_eq hi.mask] at hslot
    have hdvd := (Nat.modEq_iff_dvd' (by omega)).1 hslot
    have := Nat.le_of_dvd (by omega) hdvd
    omega
  · -- an element of the next lap would not fit
    rw [slot_eq hi.mask, slot_eq hi.mask] at hslot
    by_contra hgt
    have hdvd := (Nat.modEq_iff_dvd' (by omega)).1 hslot.symm
    have := Nat.le_of_dvd (by omega) hdvd
    omega

/-- The load for the next ticket does not send an enqueue back. -/
theorem Laps.dif_head (hl : s.Laps k) (hi : s.Inv k) (hfew : s.enqueues.length < 2 ^ 63) :
    ¬ 0 < dif (s.queue.node s.queue.headSeq).seq s.queue.headSeq := by
  have hle := hl.head_le hi
  rw [hi.head]
  intro hpos
  have hne : (s.queue.node s.enqueues.length).seq ≠ s.enqueues.length := by
    intro heq
    rw [heq, (dif_eq_zero (by omega) (by omega)).2 rfl] at hpos
    exact absurd hpos (lt_irrefl 0)
  have := (dif_neg (hi.bound _) (by omega)).2 (.inl (Nat.lt_of_le_of_ne hle hne))
  omega

/-- The load for the oldest ticket does not send a dequeue back. -/
theorem Laps.dif_tail (hl : s.Laps k) (hi : s.Inv k) (hfew : s.enqueues.length < 2 ^ 63) :
    ¬ 0 < dif (s.queue.node s.queue.tailSeq).seq (toSizeT (s.queue.tailSeq + 1)) := by
  have hle := hl.tail_le hi
  have hdeq := hi.le
  have hwrap : toSizeT (s.dequeues.length + 1) = s.dequeues.length + 1 := by
    rw [← Nat.cast_succ, toSizeT_natCast (by omega)]
  rw [hi.tail, hwrap]
  intro hpos
  have hne : (s.queue.node s.dequeues.length).seq ≠ s.dequeues.length + 1 := by
    intro heq
    rw [heq, (dif_eq_zero (by omega) (by omega)).2 rfl] at hpos
    exact absurd hpos (lt_irrefl 0)
  have := (dif_neg (hi.bound _) (by omega)).2 (.inl (Nat.lt_of_le_of_ne hle hne))
  omega

/-! ## One step -/

/-- What the step of `x` leaves of its work: it is one step less, and `x` has claimed
    a ticket or the next tickets are the same. -/
structure Advances (s : State τ α) (x : τ) (s' : State τ α) (brings : ℕ) : Prop where
  cost : (s'.pc x).cost s'.queue + 1 ≤ (s.pc x).cost s.queue + brings
  claims : (s'.queue.headSeq = s.queue.headSeq ∧ s'.queue.tailSeq = s.queue.tailSeq ∧
      (s'.pc x).unclaimed ≤ (s.pc x).unclaimed ∧ s'.enqueues = s.enqueues) ∨
    ((s'.pc x).unclaimed + 1 ≤ (s.pc x).unclaimed ∧
      s'.enqueues.length ≤ s.enqueues.length + 1)

theorem advances_goto [DecidableEq τ] {p : Pc α} {n : ℕ}
    (hcost : p.cost s.queue + 1 ≤ (s.pc x).cost s.queue + n)
    (hclaim : p.unclaimed ≤ (s.pc x).unclaimed) : s.Advances x (s.goto x p) n := by
  constructor
  · rw [pc_goto]
    exact hcost
  · rw [pc_goto]
    exact .inl ⟨rfl, rfl, hclaim, rfl⟩

/-- A load for the next ticket succeeds or the operation returns; an old ticket may
    send it back. -/
theorem advances_loadFree [DecidableEq τ] {data : α} {t : ℕ} (hl : s.Laps k) (hi : s.Inv k)
    (hfew : s.enqueues.length < 2 ^ 63) (hp : s.pc x = .loadFree data t) {spurious : Bool}
    (hs : s.step x (.step spurious) = some s') (n : ℕ) : s.Advances x s' n := by
  rw [step_loadFree spurious hp] at hs
  have hcost : (s.pc x).cost s.queue = if t = s.queue.headSeq then 4 else 6 := by rw [hp]; rfl
  have hclaim : (s.pc x).unclaimed = 1 := by rw [hp]; rfl
  split at hs
  · obtain rfl := Option.some.inj hs
    refine advances_goto ?_ (hclaim ▸ Pc.unclaimed_le _)
    rw [hcost, Pc.cost]
    split <;> omega
  · split at hs
    · obtain rfl := Option.some.inj hs
      refine advances_goto ?_ (Nat.zero_le _)
      rw [hcost, Pc.cost]
      split <;> omega
    · obtain rfl := Option.some.inj hs
      refine advances_goto ?_ (hclaim ▸ Pc.unclaimed_le _)
      have hne : t ≠ s.queue.headSeq := by
        rintro rfl
        exact hl.dif_head hi hfew (by omega)
      rw [hcost, if_neg hne, Pc.cost]
      omega

theorem advances_loadFull [DecidableEq τ] {t : ℕ} (hl : s.Laps k) (hi : s.Inv k)
    (hfew : s.enqueues.length < 2 ^ 63) (hp : s.pc x = .loadFull t) {spurious : Bool}
    (hs : s.step x (.step spurious) = some s') (n : ℕ) : s.Advances x s' n := by
  rw [step_loadFull spurious hp] at hs
  have hcost : (s.pc x).cost s.queue = if t = s.queue.tailSeq then 4 else 6 := by rw [hp]; rfl
  have hclaim : (s.pc x).unclaimed = 1 := by rw [hp]; rfl
  split at hs
  · obtain rfl := Option.some.inj hs
    refine advances_goto ?_ (hclaim ▸ Pc.unclaimed_le _)
    rw [hcost, Pc.cost]
    split <;> omega
  · split at hs
    · obtain rfl := Option.some.inj hs
      refine advances_goto ?_ (Nat.zero_le _)
      rw [hcost, Pc.cost]
      split <;> omega
    · obtain rfl := Option.some.inj hs
      refine advances_goto ?_ (hclaim ▸ Pc.unclaimed_le _)
      have hne : t ≠ s.queue.tailSeq := by
        rintro rfl
        exact hl.dif_tail hi hfew (by omega)
      rw [hcost, if_neg hne, Pc.cost]
      omega

/-- A compare-exchange claims the next ticket, or fails on an old one or spuriously. -/
theorem advances_claimHead [DecidableEq τ] {data : α} {t : ℕ} (hp : s.pc x = .claimHead data t)
    {spurious : Bool} (hs : s.step x (.step spurious) = some s') :
    s.Advances x s' (Label.step spurious : Label α).brings := by
  rw [step_claimHead spurious hp] at hs
  have hcost : (s.pc x).cost s.queue = if t = s.queue.headSeq then 3 else 5 := by rw [hp]; rfl
  have hclaim : (s.pc x).unclaimed = 1 := by rw [hp]; rfl
  split at hs
  · rename_i hc
    obtain ⟨rfl, rfl⟩ := hc
    obtain rfl := Option.some.inj hs
    constructor
    · rw [hcost, if_pos rfl]
      simp [State.claimHead, Pc.cost]
    · rw [hclaim]
      simp [State.claimHead, Pc.unclaimed]
  · rename_i hc
    obtain rfl := Option.some.inj hs
    refine advances_goto ?_ (hclaim ▸ Pc.unclaimed_le _)
    rw [hcost, Pc.cost, if_pos rfl]
    cases spurious with
    | false =>
      rw [if_neg fun h => hc ⟨h.symm, rfl⟩]
      exact Nat.le_add_right 5 _
    | true =>
      simp only [Label.brings]
      split <;> omega

theorem advances_claimTail [DecidableEq τ] {t : ℕ} (hp : s.pc x = .claimTail t)
    {spurious : Bool} (hs : s.step x (.step spurious) = some s') :
    s.Advances x s' (Label.step spurious : Label α).brings := by
  rw [step_claimTail spurious hp] at hs
  have hcost : (s.pc x).cost s.queue = if t = s.queue.tailSeq then 3 else 5 := by rw [hp]; rfl
  have hclaim : (s.pc x).unclaimed = 1 := by rw [hp]; rfl
  split at hs
  · rename_i hc
    obtain ⟨rfl, rfl⟩ := hc
    obtain rfl := Option.some.inj hs
    constructor
    · rw [hcost, if_pos rfl]
      simp [State.claimTail, Pc.cost]
    · rw [hclaim]
      simp [State.claimTail, Pc.unclaimed]
  · rename_i hc
    obtain rfl := Option.some.inj hs
    refine advances_goto ?_ (hclaim ▸ Pc.unclaimed_le _)
    rw [hcost, Pc.cost, if_pos rfl]
    cases spurious with
    | false =>
      rw [if_neg fun h => hc ⟨h.symm, rfl⟩]
      exact Nat.le_add_right 5 _
    | true =>
      simp only [Label.brings]
      split <;> omega

/-- **Every step is work done.** -/
theorem advances_of_step [DecidableEq τ] (hl : s.Laps k) (hi : s.Inv k)
    (hfew : s.enqueues.length < 2 ^ 63) {spurious : Bool}
    (hs : s.step x (.step spurious) = some s') :
    s.Advances x s' (Label.step spurious : Label α).brings := by
  have hstep := hs
  unfold State.step at hstep
  cases hp : s.pc x with
  | idle => rw [hp] at hstep; cases hstep
  | loadFree data t => exact advances_loadFree hl hi hfew hp hs _
  | claimHead data t => exact advances_claimHead hp hs
  | loadFull t => exact advances_loadFull hl hi hfew hp hs _
  | claimTail t => exact advances_claimTail hp hs
  | loadHead data =>
    rw [step_loadHead spurious hp] at hs
    obtain rfl := Option.some.inj hs
    refine advances_goto ?_ ?_
    · rw [hp]
      simp [Pc.cost]
    · rw [hp]
      simp [Pc.unclaimed]
  | loadTail =>
    rw [step_loadTail spurious hp] at hs
    obtain rfl := Option.some.inj hs
    refine advances_goto ?_ ?_
    · rw [hp]
      simp [Pc.cost]
    · rw [hp]
      simp [Pc.unclaimed]
  | writeData data t =>
    rw [hp] at hstep
    obtain rfl := Option.some.inj hstep
    constructor
    · simp [hp, State.writeData, Pc.cost]
    · exact .inl ⟨rfl, rfl, by simp [hp, State.writeData, Pc.unclaimed], rfl⟩
  | storeFull data t =>
    rw [hp] at hstep
    obtain rfl := Option.some.inj hstep
    constructor
    · simp [hp, State.storeFull, Pc.cost]
    · exact .inl ⟨rfl, rfl, by simp [hp, State.storeFull, Pc.unclaimed], rfl⟩
  | readData t =>
    rw [hp] at hstep
    obtain rfl := Option.some.inj hstep
    refine advances_goto ?_ ?_
    · simp [hp, Pc.cost]
    · simp [hp, Pc.unclaimed]
  | storeFree t data =>
    rw [hp] at hstep
    obtain rfl := Option.some.inj hstep
    constructor
    · simp [hp, State.storeFree, Pc.cost]
    · exact .inl ⟨rfl, rfl, by simp [hp, State.storeFree, Pc.unclaimed], rfl⟩

/-! ## All operations under way -/

theorem pc_of_step_ne [DecidableEq τ] {y : τ} {label : Label α} (hs : s.step x label = some s')
    (hy : y ≠ x) : s'.pc y = s.pc y := by
  cases steps_of_step hs <;> exact Function.update_of_ne hy _ _

/-- The work of the threads: a claim may cost every one of them a second attempt. -/
def work (s : State τ α) (threads : Finset τ) : ℕ :=
  ∑ x ∈ threads, ((s.pc x).cost s.queue + 2 * threads.card * (s.pc x).unclaimed)

theorem work_le (s : State τ α) (threads : Finset τ) :
    s.work threads ≤ 6 * threads.card + 2 * threads.card ^ 2 := by
  have hle : s.work threads ≤ ∑ _x ∈ threads, (6 + 2 * threads.card) := by
    refine Finset.sum_le_sum fun x _ => ?_
    have hcost := (s.pc x).cost_le s.queue
    have hclaim := Nat.mul_le_mul_left (2 * threads.card) (s.pc x).unclaimed_le
    omega
  rw [Finset.sum_const, smul_eq_mul] at hle
  linarith [hle, sq threads.card]

theorem idle_of_work {threads : Finset τ} (h : s.work threads = 0) (hx : x ∈ threads) :
    s.pc x = .idle := by
  have hzero := Finset.sum_eq_zero_iff.1 h x hx
  exact Pc.idle_of_cost (Nat.eq_zero_of_add_eq_zero_right hzero)

/-- **A step leaves less to do**, also of the operations that it sends back. -/
theorem Advances.work [DecidableEq τ] {threads : Finset τ} {n : ℕ} (h : s.Advances x s' n)
    (hx : x ∈ threads) (hother : ∀ y, y ≠ x → s'.pc y = s.pc y) :
    s'.work threads + 1 ≤ s.work threads + n := by
  have hcost := h.cost
  rcases h.claims with ⟨hhead, htail, hclaim, -⟩ | ⟨hclaim, -⟩
  · have hmul := Nat.mul_le_mul_left (2 * threads.card) hclaim
    have hsum := Finset.sum_add_le_of_falls (c := 0) (d := 1) (e := n) hx
      (f := fun y => (s.pc y).cost s.queue + 2 * threads.card * (s.pc y).unclaimed)
      (g := fun y => (s'.pc y).cost s'.queue + 2 * threads.card * (s'.pc y).unclaimed)
      (by omega) (fun y _ hy => by
        simp only [hother y hy, Pc.cost_congr hhead htail]
        exact le_rfl)
    simpa [State.work] using hsum
  · have hmul := Nat.mul_le_mul_left (2 * threads.card) hclaim
    rw [Nat.mul_succ] at hmul
    have hsum := Finset.sum_add_le_of_falls (c := 2) (d := 1 + 2 * threads.card) (e := n) hx
      (f := fun y => (s.pc y).cost s.queue + 2 * threads.card * (s.pc y).unclaimed)
      (g := fun y => (s'.pc y).cost s'.queue + 2 * threads.card * (s'.pc y).unclaimed)
      (by omega) (fun y _ hy => by
        have := Pc.cost_le_of_claim s.queue s'.queue (s.pc y)
        simp only [hother y hy]
        omega)
    have hcard : 1 ≤ threads.card := Finset.card_pos.2 ⟨x, hx⟩
    simp only [State.work]
    omega

end State

/-! ## Runs -/

variable [DecidableEq τ] {k : ℕ} {s s' : State τ α} {x : τ}

/-- **The operations under way return**: from any state on, `threads` that are in the
    queue take at most so many steps until all of them have returned, in any order, if
    no new operation begins. -/
theorem steps_le (hk : 1 ≤ k) (hk64 : k < 64) (h : (system τ α (2 ^ k)).Reachable s)
    {threads : Finset τ} (hidle : ∀ x ∉ threads, s.pc x = .idle) {as : List (τ × Label α)}
    (hp : (system τ α (2 ^ k)).Path s as s') (hsteps : ∀ a ∈ as, a.2.IsStep)
    (hfew : s'.enqueues.length < 2 ^ 63) :
    as.length ≤ 6 * threads.card + 2 * threads.card ^ 2 +
        (as.map fun a => a.2.brings).sum ∧
      (6 * threads.card + 2 * threads.card ^ 2 + (as.map fun a => a.2.brings).sum ≤ as.length →
        ∀ x, s'.pc x = .idle) := by
  let I : State τ α → Prop := fun s =>
    (system τ α (2 ^ k)).Reachable s ∧ ∀ x ∉ threads, s.pc x = .idle
  have hback : ∀ (s : State τ α) a s', (system τ α (2 ^ k)).step s a s' →
      s'.enqueues.length < 2 ^ 63 → s.enqueues.length < 2 ^ 63 := fun s a s' hs hlt =>
    (State.enqueues_le (steps_of_step hs)).trans_lt hlt
  have hstep : ∀ (s : State τ α) a s', I s → s'.enqueues.length < 2 ^ 63 → a.2.IsStep →
      (system τ α (2 ^ k)).step s a s' →
      I s' ∧ s'.work threads + 1 ≤ s.work threads + a.2.brings := by
    rintro s ⟨x, label⟩ s' ⟨hreach, hidle⟩ hfew ⟨spurious, rfl⟩ hs
    have hfew := hback s _ s' hs hfew
    have hi := inv_of_reachable hk hk64 hreach hfew
    have hl := laps_of_reachable hk hk64 hreach hfew
    have hadv := State.advances_of_step hl hi hfew hs
    have hother := fun y hy => State.pc_of_step_ne (y := y) hs hy
    -- a thread that steps is in the queue
    have hx : x ∈ threads := by
      by_contra hx
      have hcost := hadv.cost
      change s.step x (.step spurious) = some s' at hs
      unfold State.step at hs
      rw [hidle x hx] at hs
      cases hs
    refine ⟨⟨hreach.step hs, fun y hy => ?_⟩, hadv.work hx hother⟩
    rw [hother y fun heq => hy (heq ▸ hx)]
    exact hidle y hy
  have hI : I s := ⟨h, hidle⟩
  obtain ⟨⟨-, hidle'⟩, hlen⟩ :=
    hp.length_add_le (fun s => s.work threads) _ hback hstep hI hfew hsteps
  have hwork := s.work_le threads
  refine ⟨by omega, fun hge x => ?_⟩
  by_cases hx : x ∈ threads
  · exact State.idle_of_work (by omega) hx
  · exact hidle' x hx

theorem path_run {size : ℕ} {as : List (τ × Label α)} (hrun : run s as = some s') :
    (system τ α size).Path s as s' := by
  induction as generalizing s with
  | nil => cases hrun; exact .nil _
  | cons a as ih =>
    rw [run] at hrun
    obtain ⟨s₁, hs, hrest⟩ := Option.bind_eq_some_iff.1 hrun
    exact .cons hs (ih hrest)

/-- Two threads have loaded the same ticket. -/
def racing : List (Bool × Label ℕ) :=
  [(true, .enqueue 7), (false, .enqueue 8), (true, .step false), (false, .step false),
    (true, .step false), (false, .step false)]

/-- One of them claims it, and the other one tries again. -/
def resolving : List (Bool × Label ℕ) :=
  [(true, .step false), (false, .step false), (true, .step false), (true, .step false),
    (false, .step false), (false, .step false), (false, .step false), (false, .step false)]

theorem steps_le_racing : ∃ s s', run empty racing = some s ∧ run s resolving = some s' ∧
    resolving.length ≤ 6 * (Finset.univ : Finset Bool).card +
      2 * (Finset.univ : Finset Bool).card ^ 2 +
      (resolving.map fun a => a.2.brings).sum := by
  have hrun : (run empty racing).bind (fun s => (run s resolving).map fun s' =>
      s'.enqueues.length) = some 2 := by decide
  obtain ⟨s, hs, hrest⟩ := Option.bind_eq_some_iff.1 hrun
  obtain ⟨s', hs', hlen⟩ := Option.map_eq_some_iff.1 hrest
  have hreach : (system Bool ℕ (2 ^ 1)).Reachable s :=
    reachable_run (.init ⟨rfl, fun _ => rfl, rfl, rfl, rfl⟩) hs
  have hsteps : ∀ a ∈ resolving, a.2.IsStep := by
    simp [resolving, Label.IsStep]
  have hidle : ∀ x ∉ (Finset.univ : Finset Bool), s.pc x = .idle := by simp
  exact ⟨s, s', hs, hs', (steps_le le_rfl (by decide) hreach hidle (path_run hs') hsteps
    (by omega)).1⟩

/-! ### One operation -/

/-- A thread in the queue can always take a step. -/
theorem exists_step (s : State τ α) (hx : s.pc x ≠ .idle) :
    ∃ s', s.step x (.step false) = some s' := by
  unfold State.step
  cases hp : s.pc x with
  | idle => exact absurd hp hx
  | loadFree data t | claimHead data t | loadFull t | claimTail t =>
    simp only
    split_ifs <;> exact ⟨_, rfl⟩
  | _ => exact ⟨_, rfl⟩

/-- **Nobody waits**: from any state on, an operation that is left alone returns within
    six steps, wherever the other threads have stopped. -/
theorem returns_alone (hk : 1 ≤ k) (hk64 : k < 64) (h : (system τ α (2 ^ k)).Reachable s)
    (hfew : s.enqueues.length + 1 < 2 ^ 63) (x : τ) :
    ∃ as s', (system τ α (2 ^ k)).Path s as s' ∧ (∀ a ∈ as, a = (x, .step false)) ∧
      as.length ≤ 6 ∧ s'.pc x = .idle ∧ ∀ y, y ≠ x → s'.pc y = s.pc y := by
  suffices hcost : ∀ n (s : State τ α), (system τ α (2 ^ k)).Reachable s →
      (s.pc x).cost s.queue ≤ n → s.enqueues.length + (s.pc x).unclaimed < 2 ^ 63 →
      ∃ as s', (system τ α (2 ^ k)).Path s as s' ∧ (∀ a ∈ as, a = (x, .step false)) ∧
        as.length ≤ n ∧ s'.pc x = .idle ∧ ∀ y, y ≠ x → s'.pc y = s.pc y by
    have := (s.pc x).unclaimed_le
    exact hcost 6 s h ((s.pc x).cost_le s.queue) (by omega)
  intro n
  induction n with
  | zero =>
    intro s _ hcost _
    exact ⟨[], s, .nil s, by simp, le_rfl, Pc.idle_of_cost (Nat.le_zero.1 hcost), fun _ _ => rfl⟩
  | succ n ih =>
    intro s h hcost hfew
    by_cases hidle : s.pc x = .idle
    · exact ⟨[], s, .nil s, by simp, Nat.zero_le _, hidle, fun _ _ => rfl⟩
    obtain ⟨s₁, hs⟩ := exists_step s hidle
    have hadv := State.advances_of_step (laps_of_reachable hk hk64 h (by omega))
      (inv_of_reachable hk hk64 h (by omega)) (by omega) hs
    have hcost₁ : (s₁.pc x).cost s₁.queue ≤ n := by
      have := hadv.cost
      simp only [Label.brings] at this
      omega
    have hfew₁ : s₁.enqueues.length + (s₁.pc x).unclaimed < 2 ^ 63 := by
      rcases hadv.claims with ⟨-, -, hclaim, henq⟩ | ⟨hclaim, henq⟩
      · rw [henq]
        omega
      · omega
    obtain ⟨as, s', hp, has, hlen, hidle', hother⟩ :=
      ih s₁ (h.step (a := (x, .step false)) hs) hcost₁ hfew₁
    refine ⟨(x, .step false) :: as, s', .cons hs hp, ?_, ?_, hidle', fun y hy => ?_⟩
    · simpa using has
    · rw [List.length_cons]
      omega
    · rw [hother y hy, State.pc_of_step_ne hs hy]

/-- One thread stops with its ticket claimed and nothing written; the other one, on its
    old ticket, returns all the same. -/
theorem returns_alone_racing : ∃ s, run empty (racing ++ [(true, .step false)]) = some s ∧
    s.pc true = .writeData 7 0 ∧ ∃ as s', (system Bool ℕ (2 ^ 1)).Path s as s' ∧
      (∀ a ∈ as, a = (false, .step false)) ∧ as.length ≤ 6 ∧ s'.pc false = .idle ∧
      ∀ y, y ≠ false → s'.pc y = s.pc y := by
  have hrun : (run empty (racing ++ [(true, .step false)])).map
      (fun s => (s.enqueues.length, s.pc true)) = some (1, .writeData 7 0) := by decide
  obtain ⟨s, hs, hfst⟩ := Option.map_eq_some_iff.1 hrun
  obtain ⟨hlen, hpc⟩ := Prod.mk.inj hfst
  have hreach : (system Bool ℕ (2 ^ 1)).Reachable s :=
    reachable_run (.init ⟨rfl, fun _ => rfl, rfl, rfl, rfl⟩) hs
  exact ⟨s, hs, hpc, returns_alone le_rfl (by decide) hreach (by omega) false⟩

end MpmcQueue

end CqlClient
