/-
  CqlClient formalization — the bounded queue when nobody is on it.

  Whatever the threads have done to each other, once all of them have returned
  the queue is the list of the elements that were enqueued and not dequeued, in
  the order of their tickets (`represents_of_idle`).  So nothing was lost or
  returned twice, and what one thread does from then on is what it does to that
  list (`fifo_of_idle`).
-/
import CqlClient.MpmcProgress

namespace CqlClient

open Word

namespace MpmcQueue
variable {τ α : Type}

namespace State
variable {s : State τ α} {k : ℕ}

/-- The elements that no dequeue has claimed, the oldest one first. -/
def held (s : State τ α) : List α := (s.enqueues.drop s.dequeues.length).map Prod.snd

theorem length_held (s : State τ α) : s.held.length = s.enqueues.length - s.dequeues.length := by
  simp [held]

theorem getElem?_held (s : State τ α) (i : ℕ) : s.held[i]? = s.value (s.dequeues.length + i) := by
  simp [held, value]

/-! ## The slots of a queue that nobody is on -/

/-- A ticket that was dequeued is returned. -/
theorem Inv.mem_returned (hi : s.Inv k) (hidle : ∀ x, s.pc x = .idle) {t : ℕ}
    (ht : t < s.dequeues.length) : (t, s.value t) ∈ s.returned := by
  rcases hi.taken t ht with ⟨x, hx⟩ | hret
  · rw [hidle x] at hx
    cases hx
  · exact hret

/-- A ticket that waits is stored in its slot. -/
theorem Inv.stored (hi : s.Inv k) (hidle : ∀ x, s.pc x = .idle) {t : ℕ}
    (hle : s.dequeues.length ≤ t) (ht : t < s.enqueues.length) : s.Stored t := by
  rcases hi.waiting t hle ht with ⟨x, hx⟩ | hst
  · rw [hidle x] at hx
    cases hx
  · exact hst

/-- The slot of a ticket that comes next on its lap is not ahead of it. -/
theorem Laps.seq_le (hl : s.Laps k) (hi : s.Inv k) {t : ℕ} (hle : s.enqueues.length ≤ t) :
    (s.queue.node t).seq ≤ t := by
  have hdeq := hi.le
  rcases hl.seq t with hseq | ⟨u, hu, hslot, hseq⟩ | ⟨u, hu, -, hseq⟩
  · rw [hseq, slot_eq hi.mask]
    exact Nat.mod_le _ _
  · rw [slot_eq hi.mask, slot_eq hi.mask] at hslot
    have hdvd := (Nat.modEq_iff_dvd' (by omega)).1 hslot
    have := Nat.le_of_dvd (by omega) hdvd
    omega
  · omega

/-- The slots behind the last element are free for the tickets to come. -/
theorem Laps.free (hl : s.Laps k) (hi : s.Inv k) (hidle : ∀ x, s.pc x = .idle) {t : ℕ}
    (hle : s.enqueues.length ≤ t) (ht : t < s.dequeues.length + 2 ^ k) :
    (s.queue.node t).seq = t := by
  have hdeq := hi.le
  refine Nat.le_antisymm (hl.seq_le hi hle) ?_
  rcases Nat.lt_or_ge t (2 ^ k) with hlap | hlap
  · -- the first lap: the slot was never used
    have hself : s.queue.slot t = t := by rw [slot_eq hi.mask, Nat.mod_eq_of_lt hlap]
    have hnot : ∀ u < t, s.queue.slot u ≠ t := by
      intro u hu heq
      rw [slot_eq hi.mask, Nat.mod_eq_of_lt (hu.trans hlap)] at heq
      omega
    rcases hl.seq t with hseq | ⟨u, hu, hslot, -⟩ | ⟨u, hu, hslot, -⟩
    · rw [hseq, hself]
    · exact absurd (hslot.trans hself) (hnot u (by omega))
    · exact absurd (hslot.trans hself) (hnot u (by omega))
  · -- the ticket of the lap before was dequeued and its slot released
    obtain ⟨u, rfl⟩ := Nat.exists_eq_add_of_le' hlap
    have hrel := hl.released u _ (hi.mem_returned hidle (t := u) (by omega))
    have hslot : s.queue.slot (u + 2 ^ k) = s.queue.slot u := by
      rw [slot_eq hi.mask, slot_eq hi.mask, Nat.add_mod_right]
    rwa [node_congr hslot]

/-- **The queue is the list of its elements.** -/
theorem represents_of_idle (hk64 : k < 64) (hl : s.Laps k) (hi : s.Inv k)
    (hfew : s.enqueues.length < 2 ^ 63) (hidle : ∀ x, s.pc x = .idle) :
    Represents k s.dequeues.length s.held s.queue := by
  have hpow : 2 ^ k ≤ 2 ^ 63 := Nat.pow_le_pow_right (by norm_num) (by omega)
  have hdeq := hi.le
  have hcap := hl.capacity
  have hlen := s.length_held
  have hnode : ∀ t, s.queue.buffer (t % 2 ^ k) = s.queue.node t := by
    intro t
    rw [node, slot_eq hi.mask]
  constructor
  · exact hi.mask
  · rw [hi.tail]
    omega
  · rw [hi.head]
    omega
  · omega
  · intro i data hdata
    obtain ⟨hlt, -⟩ := List.getElem?_eq_some_iff.1 hdata
    rw [getElem?_held] at hdata
    rw [hnode, hi.stored hidle (by omega) (by omega), hdata]
    congr 1
    omega
  · intro i hge hlt
    rw [hnode, hl.free hi hidle (by omega) (by omega)]
    omega

/-! ## What went through the queue -/

/-- The dequeues returned the oldest elements, each once. -/
theorem Inv.perm_returned (hi : s.Inv k) (hidle : ∀ x, s.pc x = .idle) :
    (s.returned.map Prod.snd).Perm ((List.range s.dequeues.length).map s.value) := by
  have hsnd : s.returned.map Prod.snd = (s.returned.map Prod.fst).map s.value := by
    rw [List.map_map]
    refine List.map_congr_left fun p hp => ?_
    exact (hi.returned p hp).2.1
  rw [hsnd]
  refine List.Perm.map _ ((List.perm_ext_iff_of_nodup hi.nodup List.nodup_range).2 fun t => ?_)
  rw [List.mem_map, List.mem_range]
  constructor
  · rintro ⟨p, hp, rfl⟩
    exact (hi.returned p hp).1
  · intro ht
    exact ⟨_, hi.mem_returned hidle ht, rfl⟩

/-- The elements by their tickets. -/
theorem map_value (s : State τ α) (hle : s.dequeues.length ≤ s.enqueues.length) :
    (s.enqueues.map fun e => some e.2) =
      (List.range s.dequeues.length).map s.value ++ s.held.map some := by
  refine List.ext_getElem? fun i => ?_
  rcases Nat.lt_or_ge i s.dequeues.length with hi | hi
  · rw [List.getElem?_append_left (by simpa using hi)]
    have hlt : i < s.enqueues.length := by omega
    simp [value, hi, hlt]
  · rw [List.getElem?_append_right (by simpa using hi), List.length_map, List.length_range,
      List.getElem?_map, List.getElem?_map, getElem?_held, value, Nat.add_sub_cancel' hi]
    cases s.enqueues[i]? <;> rfl

end State

/-! ## Runs -/

/-- The calls of one thread, from a queue that is a list. -/
theorem Represents.runs {k n : ℕ} {l : List α} {q₀ q : MpmcQueue α} (h : Represents k n l q₀)
    (hk : 1 ≤ k) (hk64 : k < 64) {ops : List (Op α)} (hruns : Runs q₀ ops q) :
    ∃ n, Represents k n (ops.foldl (fun l op => (fifo (2 ^ k) l op).1) l) q := by
  induction hruns with
  | nil => exact ⟨n, h⟩
  | call _ hc ih =>
    obtain ⟨n, hrep⟩ := ih
    rw [List.foldl_append]
    exact ((hrep.call hk hk64 _).1 _ hc).2.2

variable [DecidableEq τ] {k : ℕ} {s : State τ α}

/-- **When nobody is on the queue**, every element that was enqueued was returned once or
    is held.  From then on one thread finds the list of those that are held, and each of
    its calls returns once its compare-exchange does not fail. -/
theorem fifo_of_idle (hk : 1 ≤ k) (hk64 : k < 64) (h : (system τ α (2 ^ k)).Reachable s)
    (hfew : s.enqueues.length < 2 ^ 63) (hidle : ∀ x, s.pc x = .idle) :
    (s.enqueues.map fun e => some e.2).Perm (s.returned.map Prod.snd ++ s.held.map some) ∧
      ∀ ops q, Runs s.queue ops q → ∀ op flags,
        (∀ q' out, q.call flags op = some (q', out) →
          out = (fifo (2 ^ k) (ops.foldl (fun l op => (fifo (2 ^ k) l op).1) s.held) op).2) ∧
        (false ∈ flags → (q.call flags op).isSome) := by
  have hi := inv_of_reachable hk hk64 h hfew
  have hl := laps_of_reachable hk hk64 h hfew
  constructor
  · rw [s.map_value hi.le]
    exact ((hi.perm_returned hidle).append_right _).symm
  · intro ops q hruns op flags
    obtain ⟨n, hrep⟩ := (State.represents_of_idle hk64 hl hi hfew hidle).runs hk hk64 hruns
    exact (hrep.call hk hk64 op).imp_left fun hcall q' out hc => (hcall _ hc).1

/-- Two threads have enqueued an element each, and one has dequeued the first of them. -/
def exchange : List (Bool × Label ℕ) :=
  racing ++ resolving ++ [(true, .dequeue), (true, .step false), (true, .step false),
    (true, .step false), (true, .step false), (true, .step false)]

theorem fifo_of_idle_exchange : ∃ s, run empty exchange = some s ∧
    (s.enqueues.map fun e => some e.2).Perm (s.returned.map Prod.snd ++ s.held.map some) ∧
    ∀ ops q, Runs s.queue ops q → ∀ op flags,
      (∀ q' out, q.call flags op = some (q', out) →
        out = (fifo (2 ^ 1) (ops.foldl (fun l op => (fifo (2 ^ 1) l op).1) s.held) op).2) ∧
      (false ∈ flags → (q.call flags op).isSome) := by
  have hrun : (run empty exchange).map (fun s => (s.enqueues.length, s.pc true, s.pc false)) =
      some (2, .idle, .idle) := by decide
  obtain ⟨s, hs, hfst⟩ := Option.map_eq_some_iff.1 hrun
  simp only [Prod.mk.injEq] at hfst
  obtain ⟨hlen, htrue, hfalse⟩ := hfst
  have hreach : (system Bool ℕ (2 ^ 1)).Reachable s :=
    reachable_run (.init ⟨rfl, fun _ => rfl, rfl, rfl, rfl⟩) hs
  refine ⟨s, hs, fifo_of_idle le_rfl (by decide) hreach (by omega) fun x => ?_⟩
  cases x with
  | true => exact htrue
  | false => exact hfalse

end MpmcQueue

end CqlClient
