/-
  CqlClient formalization — a failing call on the bounded queue is justified.

  A call fails when the sequence of its slot is behind its ticket.  The slot is
  then one lap behind: the dequeue before has not released it, or the enqueue of
  the ticket has not published it (`failure_justified`).
-/
import CqlClient.MpmcSafety

namespace CqlClient

open Word

namespace MpmcQueue
variable {τ α : Type}

/-- The difference of a sequence and a ticket is negative when the sequence is
    behind, or so far ahead that the difference wraps. -/
theorem dif_neg {a b : ℕ} (ha : a < 2 ^ 64) (hb : b ≤ 2 ^ 63) :
    dif a b < 0 ↔ a < b ∨ b + 2 ^ 63 ≤ a := by
  unfold dif toInt64
  rw [← Int.sub_bmod, Int.bmod_def]
  split <;> omega

namespace State

/-- What the slots say about the lap they are on. -/
structure Laps (k : ℕ) (s : State τ α) : Prop where
  /-- a slot was never used, or was released, or holds a ticket that was claimed -/
  seq : ∀ t, (s.queue.node t).seq = s.queue.slot t ∨
    (∃ u < s.dequeues.length, s.queue.slot u = s.queue.slot t ∧
      (s.queue.node t).seq = u + 2 ^ k) ∨
    ∃ u < s.enqueues.length, s.queue.slot u = s.queue.slot t ∧ (s.queue.node t).seq = u + 1
  /-- a slot that was released does not fall back -/
  released : ∀ t data, (t, data) ∈ s.returned → t + 2 ^ k ≤ (s.queue.node t).seq
  capacity : s.enqueues.length ≤ s.dequeues.length + 2 ^ k

variable {s s' : State τ α} {k : ℕ} {x : τ}

theorem init_laps [DecidableEq τ] (hk : k < 64) (h : (system τ α (2 ^ k)).init s) :
    s.Laps k := by
  obtain ⟨hnew, -, henq, hdeq, hret⟩ := h
  obtain ⟨-, -, -, hbuffer⟩ := new_pow hk hnew
  constructor
  · intro t
    rw [node, hbuffer]
    exact .inl rfl
  · intro t data hmem
    rw [hret] at hmem
    cases hmem
  · rw [henq, hdeq]
    exact Nat.zero_le _

namespace Laps
variable [DecidableEq τ] {t : ℕ}

theorem claimHead {data : α} (hk : 1 ≤ k) (h : s.Laps k) (hi : s.Inv k)
    (hx : s.pc x = .claimHead data s.queue.headSeq) : (s.claimHead x data).Laps k := by
  have hlen : (s.claimHead x data).enqueues.length = s.enqueues.length + 1 := by
    simp [State.claimHead]
  constructor
  · intro t
    refine (h.seq t).imp_right (Or.imp_right ?_)
    rintro ⟨u, hu, hslot⟩
    refine ⟨u, ?_, hslot⟩
    omega
  · exact h.released
  · -- the slot of the new ticket is free, so its last ticket was dequeued
    have hx' := hi.threads x
    rw [hx, hi.head] at hx'
    have hseq := hx'.2 rfl
    have hle := hi.le
    have hpow := Nat.two_pow_pos k
    rw [hlen]
    change s.enqueues.length + 1 ≤ s.dequeues.length + 2 ^ k
    rcases h.seq s.enqueues.length with hslot | ⟨u, hu, -, hu'⟩ | ⟨u, hu, hslot, hu'⟩
    · have hlt := Nat.mod_lt s.enqueues.length hpow
      rw [← slot_eq hi.mask, ← hslot, hseq] at hlt
      omega
    · omega
    · rw [hseq] at hu'
      rw [hu'] at hslot
      exact absurd hslot.symm (slot_succ_ne hk hi.mask u)

theorem claimTail (h : s.Laps k) : (s.claimTail x).Laps k := by
  have hlen : (s.claimTail x).dequeues.length = s.dequeues.length + 1 := by
    simp [State.claimTail]
  constructor
  · intro t
    refine (h.seq t).imp_right (Or.imp_left ?_)
    rintro ⟨u, hu, hslot⟩
    refine ⟨u, ?_, hslot⟩
    omega
  · exact h.released
  · have hcap := h.capacity
    rw [hlen]
    change s.enqueues.length ≤ s.dequeues.length + 1 + 2 ^ k
    omega

theorem writeData {data : α} (h : s.Laps k) : (s.writeData x data t).Laps k := by
  have hseq : ∀ u, ((s.writeData x data t).queue.node u).seq = (s.queue.node u).seq := by
    intro u
    simp only [State.writeData, s.queue.node_setNode t]
    split
    · rename_i hslot
      rw [node_congr hslot]
    · rfl
  constructor
  · intro u
    rw [hseq]
    exact h.seq u
  · intro u out hmem
    rw [hseq]
    exact h.released u out hmem
  · exact h.capacity

theorem storeFull {data : α} (h : s.Laps k) (hi : s.Inv k) (hfew : s.enqueues.length < 2 ^ 63)
    (hx : s.pc x = .storeFull data t) : (s.storeFull x t).Laps k := by
  have hwrites : (s.pc x).writes = some t := by rw [hx]; rfl
  obtain ⟨-, hlt, hseq⟩ := hi.writes hwrites
  have hwrap : toSizeT (t + 1) = t + 1 := by
    rw [← Nat.cast_succ, toSizeT_natCast (by omega)]
  constructor
  · intro u
    simp only [State.storeFull, s.queue.node_setNode t]
    split
    · rename_i hslot
      exact .inr (.inr ⟨t, hlt, hslot.symm, hwrap⟩)
    · exact h.seq u
  · intro u out hmem
    have hle := h.released u out hmem
    simp only [State.storeFull, s.queue.node_setNode t]
    split
    · rename_i hslot
      rw [node_congr hslot, hseq] at hle
      simp only [hwrap]
      omega
    · exact hle
  · exact h.capacity

theorem storeFree {data : Option α} (hk64 : k < 64) (h : s.Laps k) (hi : s.Inv k)
    (hfew : s.enqueues.length < 2 ^ 63) (hx : s.pc x = .storeFree t data) :
    (s.storeFree x t data).Laps k := by
  have hreads : (s.pc x).reads = some t := by rw [hx]; rfl
  obtain ⟨hlt, hseq⟩ := hi.reads hreads
  have hle := hi.le
  have hpow : 2 ^ k ≤ 2 ^ 63 := Nat.pow_le_pow_right (by norm_num) (by omega)
  have hpos : 0 < 2 ^ k := Nat.two_pow_pos k
  have hwrap : toSizeT (t + s.queue.mask + 1) = t + 2 ^ k := by
    rw [hi.mask, ← Nat.cast_add, ← Nat.cast_succ, toSizeT_natCast (by omega)]
    omega
  constructor
  · intro u
    simp only [State.storeFree, s.queue.node_setNode t]
    split
    · rename_i hslot
      exact .inr (.inl ⟨t, hlt, hslot.symm, hwrap⟩)
    · exact h.seq u
  · intro u out hmem
    simp only [State.storeFree, s.queue.node_setNode t]
    rcases List.mem_append.1 hmem with hmem | hmem
    · have hrel := h.released u out hmem
      split
      · rename_i hslot
        rw [node_congr hslot, hseq] at hrel
        simp only [hwrap]
        omega
      · exact hrel
    · rw [List.mem_singleton] at hmem
      cases hmem
      rw [if_pos rfl]
      exact hwrap.ge
  · exact h.capacity

/-- The laps are kept by every step. -/
theorem steps (hk : 1 ≤ k) (hk64 : k < 64) (h : s.Laps k) (hi : s.Inv k)
    (hfew : s.enqueues.length < 2 ^ 63) (hs : Steps s x s') : s'.Laps k := by
  cases hs with
  | loads p hw hr hp => exact ⟨h.seq, h.released, h.capacity⟩
  | claimHead data hx => exact h.claimHead hk hi hx
  | writeData data t hx => exact h.writeData
  | storeFull data t hx => exact h.storeFull hi hfew hx
  | claimTail hx => exact h.claimTail
  | readData t hx => exact ⟨h.seq, h.released, h.capacity⟩
  | storeFree t data hx => exact h.storeFree hk64 hi hfew hx

end Laps

/-! ## What a failure means -/

/-- The enqueue of the ticket has stored its sequence. -/
def Published (s : State τ α) (t : ℕ) : Prop :=
  t < s.enqueues.length ∧ ∀ x, (s.pc x).writes ≠ some t

/-- Only the thread `x` has moved since nobody was on the queue. -/
inductive Alone [DecidableEq τ] (size : ℕ) (x : τ) : State τ α → Prop where
  | start {s : State τ α} (h : (system τ α size).Reachable s) (hidle : ∀ y, s.pc y = .idle) :
    Alone size x s
  | step {s s' : State τ α} {label : Label α} (h : Alone size x s)
    (hs : s.step x label = some s') : Alone size x s'

/-- An enqueue that loaded the ticket `h` may find the queue full. -/
structure Full [DecidableEq τ] (k : ℕ) (s : State τ α) (x : τ) (h : ℕ) : Prop where
  /-- the dequeue of a lap before has not stored its sequence -/
  released : ∀ t out, t + 2 ^ k = h → (t, out) ∉ s.returned
  /-- on the first lap nothing is full, unless the sequences are about to wrap -/
  lap : s.enqueues.length + 2 ^ k ≤ 2 ^ 63 → 2 ^ k ≤ h
  alone : Alone (2 ^ k) x s → s.enqueues.length = s.dequeues.length + 2 ^ k

/-- A dequeue that loaded the ticket `t` may find the queue empty. -/
structure Empty [DecidableEq τ] (k : ℕ) (s : State τ α) (x : τ) (t : ℕ) : Prop where
  /-- the enqueue of the ticket is not published -/
  published : ¬ s.Published t
  alone : Alone (2 ^ k) x s → s.enqueues.length = s.dequeues.length

variable [DecidableEq τ]

/-- A thread that is alone has the ticket that is next. -/
theorem Alone.local (h : Alone (2 ^ k) x s) : (system τ α (2 ^ k)).Reachable s ∧
    (∀ y, y ≠ x → s.pc y = .idle) ∧
    (∀ data t, s.pc x = .loadFree data t → t = s.queue.headSeq) := by
  induction h with
  | start h hidle =>
    refine ⟨h, fun y _ => hidle y, fun data t ht => ?_⟩
    rw [hidle] at ht
    cases ht
  | @step s s' label h hs ih =>
    obtain ⟨hreach, hidle, -⟩ := ih
    refine ⟨hreach.step (a := (x, label)) hs, fun y hy => ?_, fun data t ht => ?_⟩
    · have hy' := hidle y hy
      cases steps_of_step hs <;>
        exact (Function.update_of_ne hy _ _).trans hy'
    · cases steps_of_step hs with
      | loads p hw hr hp =>
        rw [pc_goto] at ht
        rw [ht] at hp
        exact hp
      | _ =>
        simp only [State.claimHead, State.writeData, State.storeFull, State.claimTail,
          State.readData, State.storeFree, goto, Function.update_self, reduceCtorEq] at ht

/-- A load that does not end the call does not lead to `idle`. -/
theorem goto_ne_idle {p : Pc α} (hp : p ≠ .idle) (hidle : s'.pc x = .idle) :
    some (s.goto x p) ≠ some s' := by
  intro hgoto
  rw [← Option.some.inj hgoto, pc_goto] at hidle
  exact hp hidle

/-- An enqueue that fails found the slot behind its ticket. -/
theorem dif_of_enqueue_fails {data : α} {h : ℕ} {spurious : Bool}
    (hs : s.step x (.step spurious) = some s') (hx : s.pc x = .loadFree data h)
    (hidle : s'.pc x = .idle) : dif (s.queue.node h).seq h < 0 := by
  by_contra hge
  unfold State.step at hs
  simp only [hx, if_neg hge] at hs
  split at hs
  · exact goto_ne_idle (by nofun) hidle hs
  · exact goto_ne_idle (by nofun) hidle hs

/-- A dequeue that fails found the slot behind its ticket. -/
theorem dif_of_dequeue_fails {t : ℕ} {spurious : Bool}
    (hs : s.step x (.step spurious) = some s') (hx : s.pc x = .loadFull t)
    (hidle : s'.pc x = .idle) : dif (s.queue.node t).seq (toSizeT (t + 1)) < 0 := by
  by_contra hge
  unfold State.step at hs
  simp only [hx, if_neg hge] at hs
  split at hs
  · exact goto_ne_idle (by nofun) hidle hs
  · exact goto_ne_idle (by nofun) hidle hs

end State

namespace State.Laps
variable {s : State τ α} {k : ℕ} {x : τ} {h t : ℕ}

/-- The sequence of a slot whose last ticket was returned is not behind the next. -/
theorem not_returned (hl : s.Laps k) (hi : s.Inv k) (hk64 : k < 64)
    (hfew : s.enqueues.length < 2 ^ 63) (hh : h ≤ s.enqueues.length)
    (hdif : dif (s.queue.node h).seq h < 0) (ht : t + 2 ^ k = h) (out : Option α) :
    (t, out) ∉ s.returned := by
  intro hmem
  have hrel := hl.released t out hmem
  have hslot : s.queue.slot h = s.queue.slot t := by
    rw [← ht, slot_eq hi.mask, slot_eq hi.mask, Nat.add_mod_right]
  rw [← node_congr hslot] at hrel
  have hle := hi.le
  have hpow : 2 ^ k ≤ 2 ^ 63 := Nat.pow_le_pow_right (by norm_num) (by omega)
  rcases (dif_neg (hi.bound h) (by omega)).1 hdif with hlt | hwrap
  · omega
  · rcases hl.seq h with hseq | ⟨u, hu, -, hseq⟩ | ⟨u, hu, -, hseq⟩
    · have hmod := Nat.mod_lt h (Nat.two_pow_pos k)
      rw [← slot_eq hi.mask, ← hseq] at hmod
      omega
    · omega
    · omega

/-- On the first lap a slot is behind its ticket only when the difference wraps. -/
theorem lap (hl : s.Laps k) (hi : s.Inv k) (hfew : s.enqueues.length < 2 ^ 63)
    (hh : h ≤ s.enqueues.length) (hdif : dif (s.queue.node h).seq h < 0) (hlap : h < 2 ^ k) :
    ∃ u < s.dequeues.length, h + 2 ^ 63 ≤ u + 2 ^ k := by
  have hself : s.queue.slot h = h := by rw [slot_eq hi.mask, Nat.mod_eq_of_lt hlap]
  rcases hl.seq h with hseq | ⟨u, hu, -, hseq⟩ | ⟨u, hu, hslot, hseq⟩
  · rw [hself] at hseq
    rcases (dif_neg (hi.bound h) (by omega)).1 hdif with hlt | hwrap <;> omega
  · rcases (dif_neg (hi.bound h) (by omega)).1 hdif with hlt | hwrap
    · omega
    · exact ⟨u, hu, by omega⟩
  · have hle : h ≤ u := by
      rw [hself, slot_eq hi.mask] at hslot
      exact hslot.symm.trans_le (Nat.mod_le u _)
    rcases (dif_neg (hi.bound h) (by omega)).1 hdif with hlt | hwrap <;> omega

theorem full [DecidableEq τ] (hl : s.Laps k) (hi : s.Inv k) (hk64 : k < 64)
    (hfew : s.enqueues.length < 2 ^ 63) {data : α} (hx : s.pc x = .loadFree data h)
    (hdif : dif (s.queue.node h).seq h < 0) : s.Full k x h := by
  have hh : h ≤ s.enqueues.length := by
    have hx' := hi.threads x
    rw [hx] at hx'
    exact hx'
  have hle := hi.le
  constructor
  · intro t out ht
    exact hl.not_returned hi hk64 hfew hh hdif ht out
  · intro hwrap
    by_contra hlap
    obtain ⟨u, hu, hle'⟩ := hl.lap hi hfew hh hdif (Nat.not_le.1 hlap)
    omega
  · intro halone
    obtain ⟨-, hidle, hfresh⟩ := halone.local
    have hlen : h = s.enqueues.length := (hfresh data h hx).trans hi.head
    have hpow : 2 ^ k ≤ 2 ^ 63 := Nat.pow_le_pow_right (by norm_num) (by omega)
    refine Nat.le_antisymm hl.capacity (Nat.not_lt.1 fun hlt => ?_)
    by_cases hlap : h < 2 ^ k
    · obtain ⟨u, hu, hle'⟩ := hl.lap hi hfew hh hdif hlap
      omega
    · -- the ticket of a lap before was dequeued, and nobody is reading it
      obtain ⟨t, ht⟩ := Nat.exists_eq_add_of_le' (Nat.not_lt.1 hlap)
      rcases hi.taken t (by omega) with ⟨y, hy⟩ | hret
      · by_cases hyx : y = x
        · rw [hyx, hx] at hy
          cases hy
        · rw [hidle y hyx] at hy
          cases hy
      · exact hl.not_returned hi hk64 hfew hh hdif ht.symm _ hret

/-- The slot of a ticket that is published is not behind it. -/
theorem le_of_published (hl : s.Laps k) (hi : s.Inv k) (ht : s.Published t) :
    t + 1 ≤ (s.queue.node t).seq := by
  have hpos := Nat.two_pow_pos k
  rcases Nat.lt_or_ge t s.dequeues.length with hlt | hge
  · rcases hi.taken t hlt with ⟨y, hy⟩ | hret
    · exact (hi.reads hy).2.ge
    · have := hl.released t _ hret
      omega
  · rcases hi.waiting t hge ht.1 with ⟨y, hy⟩ | hst
    · exact absurd hy (ht.2 y)
    · rw [hst]

/-- A sequence is less than `2 ^ 63` ahead of the next ticket of its slot. -/
theorem seq_lt (hl : s.Laps k) (hi : s.Inv k) (hk64 : k < 64)
    (hfew : s.enqueues.length < 2 ^ 63) : (s.queue.node t).seq < t + 1 + 2 ^ 63 := by
  have hle := hi.le
  have hpow : 2 ^ k ≤ 2 ^ 63 := Nat.pow_le_pow_right (by norm_num) (by omega)
  rcases hl.seq t with hseq | ⟨u, hu, hslot, hseq⟩ | ⟨u, hu, -, hseq⟩
  · have hmod := Nat.mod_lt t (Nat.two_pow_pos k)
    rw [← slot_eq hi.mask, ← hseq] at hmod
    omega
  · rw [slot_eq hi.mask, slot_eq hi.mask] at hslot
    by_contra hge
    -- the two tickets of the slot are whole laps apart
    obtain ⟨c, hc⟩ := (Nat.modEq_iff_dvd' (by omega)).1 hslot.symm
    obtain ⟨d, hd⟩ : 2 ^ k ∣ 2 ^ 63 := Nat.pow_dvd_pow 2 (by omega)
    have hlt : c < d := by
      refine Nat.lt_of_mul_lt_mul_left (a := 2 ^ k) ?_
      omega
    have hmul : 2 ^ k * (c + 1) ≤ 2 ^ k * d := Nat.mul_le_mul_left _ hlt
    rw [Nat.mul_succ] at hmul
    omega
  · omega

theorem empty [DecidableEq τ] (hl : s.Laps k) (hi : s.Inv k) (hk64 : k < 64)
    (hfew : s.enqueues.length < 2 ^ 63) (hx : s.pc x = .loadFull t)
    (hdif : dif (s.queue.node t).seq (toSizeT (t + 1)) < 0) : s.Empty k x t := by
  have ht : t ≤ s.dequeues.length := by
    have hx' := hi.threads x
    rw [hx] at hx'
    exact hx'
  have hle := hi.le
  have hnot : ¬ s.Published t := by
    intro hpub
    have hge := hl.le_of_published hi hpub
    have hlt := hl.seq_lt (t := t) hi hk64 hfew
    rw [← Nat.cast_succ, toSizeT_natCast (by omega)] at hdif
    rcases (dif_neg (hi.bound t) (by omega)).1 hdif with hlt | hwrap <;> omega
  constructor
  · exact hnot
  · intro halone
    obtain ⟨-, hidle, -⟩ := halone.local
    refine Nat.le_antisymm (Nat.not_lt.1 fun hlt => hnot ⟨by omega, fun y hy => ?_⟩) hle
    by_cases hyx : y = x
    · rw [hyx, hx] at hy
      cases hy
    · rw [hidle y hyx] at hy
      cases hy

end State.Laps

/-! ## Runs -/

variable [DecidableEq τ] {k : ℕ} {s s' : State τ α} {x : τ}

theorem laps_of_reachable (hk : 1 ≤ k) (hk64 : k < 64) (h : (system τ α (2 ^ k)).Reachable s)
    (hfew : s.enqueues.length < 2 ^ 63) : s.Laps k := by
  induction h with
  | init h => exact State.init_laps hk64 h
  | step h hs ih =>
    have hsteps := steps_of_step hs
    have hfew := (State.enqueues_le hsteps).trans_lt hfew
    exact (ih hfew).steps hk hk64 (inv_of_reachable hk hk64 h hfew) hfew hsteps

/-- **A failing call is justified**, in every run of any number of threads with
    fewer than `2 ^ 63` enqueues. -/
theorem failure_justified (hk : 1 ≤ k) (hk64 : k < 64) (h : (system τ α (2 ^ k)).Reachable s)
    (hfew : s.enqueues.length < 2 ^ 63) {spurious : Bool}
    (hs : s.step x (.step spurious) = some s') (hidle : s'.pc x = .idle) :
    (∀ data headSeq, s.pc x = .loadFree data headSeq → s.Full k x headSeq) ∧
    ∀ tailSeq, s.pc x = .loadFull tailSeq → s.Empty k x tailSeq := by
  have hi := inv_of_reachable hk hk64 h hfew
  have hl := laps_of_reachable hk hk64 h hfew
  constructor
  · intro data headSeq hx
    exact hl.full hi hk64 hfew hx (State.dif_of_enqueue_fails hs hx hidle)
  · intro tailSeq hx
    exact hl.empty hi hk64 hfew hx (State.dif_of_dequeue_fails hs hx hidle)

/-- One thread enqueues two elements, and is about to find the queue full. -/
def filling : List (Bool × Label ℕ) :=
  [(true, .enqueue 7), (true, .step false), (true, .step false), (true, .step false),
    (true, .step false), (true, .step false), (true, .enqueue 8), (true, .step false),
    (true, .step false), (true, .step false), (true, .step false), (true, .step false),
    (true, .enqueue 9), (true, .step false)]

theorem failure_justified_filling : ∃ s, run empty filling = some s ∧
    s.pc true = .loadFree 9 2 ∧ s.enqueues.length = 2 ∧ s.Full 1 true 2 := by
  have hrun : (run empty filling).bind (fun s => (s.step true (.step false)).map fun s' =>
      (s.enqueues.length, s.pc true, s'.pc true)) = some (2, .loadFree 9 2, .idle) := by decide
  obtain ⟨s, hs, hstep⟩ := Option.bind_eq_some_iff.1 hrun
  obtain ⟨s', hs', hfst⟩ := Option.map_eq_some_iff.1 hstep
  simp only [Prod.mk.injEq] at hfst
  obtain ⟨hlen, hpc, hidle⟩ := hfst
  have hreach : (system Bool ℕ (2 ^ 1)).Reachable s :=
    reachable_run (.init ⟨rfl, fun _ => rfl, rfl, rfl, rfl⟩) hs
  have hfull := (failure_justified le_rfl (by decide) hreach (by omega) hs' hidle).1
  exact ⟨s, hs, hpc, hlen, hfull 9 2 hpc⟩

end MpmcQueue

end CqlClient
