/-
  CqlClient formalization — the bounded queue is safe.

  Whatever the threads do, the elements leave in the order of their tickets, each
  once and as it was enqueued (`safe_of_reachable`).
-/
import CqlClient.MpmcTickets

namespace CqlClient

namespace MpmcQueue
variable {τ α : Type}

namespace State

/-- The thread is between its compare-exchange and its store on the slot `i`. -/
def Owns (s : State τ α) (x : τ) (i : ℕ) : Prop :=
  ∃ t, ((s.pc x).writes = some t ∨ (s.pc x).reads = some t) ∧ s.queue.slot t = i

/-- Where an element is, from the claim of its ticket on. -/
inductive Element (s : State τ α) (t : ℕ) (data : α) : Prop where
  /-- its enqueue has not stored it yet -/
  | written (x : τ) (hx : s.pc x = .writeData data t ∨ s.pc x = .storeFull data t)
    (hdeq : t ∉ s.dequeues)
  /-- it waits in its slot -/
  | stored (hnode : s.queue.node t = ⟨some data, t + 1⟩) (hdeq : t ∉ s.dequeues)
  /-- its dequeue is about to read it -/
  | taken (x : τ) (hx : s.pc x = .readData t) (hnode : s.queue.node t = ⟨some data, t + 1⟩)
    (hdeq : t ∈ s.dequeues)
  /-- its dequeue has read it -/
  | read (x : τ) (hx : s.pc x = .storeFree t (some data)) (hdeq : t ∈ s.dequeues)
  | returned (h : (t, some data) ∈ s.returned)

/-- The safety of the queue. -/
structure Safe (s : State τ α) : Prop where
  /-- at most one thread at a time is on a slot -/
  exclusive : ∀ x y i, s.Owns x i → s.Owns y i → x = y
  /-- every ticket is claimed by one enqueue, in order -/
  enqueues : s.enqueues.map Prod.fst = List.range s.enqueues.length
  /-- the elements leave in the order of their tickets -/
  dequeues : s.dequeues = List.range s.dequeues.length
  le : s.dequeues.length ≤ s.enqueues.length
  /-- a dequeue returns what the enqueue of its ticket was called with -/
  returned : ∀ t out, (t, out) ∈ s.returned → t ∈ s.dequeues ∧
    ∃ data, out = some data ∧ (t, data) ∈ s.enqueues
  /-- no ticket is returned twice -/
  once : (s.returned.map Prod.fst).Nodup
  /-- no element is dequeued before its enqueue has stored it -/
  before : ∀ x t, (s.pc x).writes = some t → t ∉ s.dequeues
  /-- no element is lost or overwritten -/
  kept : ∀ t data, (t, data) ∈ s.enqueues → s.Element t data

variable {s : State τ α} {k : ℕ}

namespace Inv

/-- The entry of a ticket is at its place. -/
theorem mem_enqueues (h : s.Inv k) {t : ℕ} {data : α} :
    (t, data) ∈ s.enqueues ↔ s.enqueues[t]? = some (t, data) := by
  refine ⟨fun hmem => ?_, List.mem_of_getElem?⟩
  obtain ⟨i, hi⟩ := List.getElem?_of_mem hmem
  have hfst : (s.enqueues.map Prod.fst)[i]? = some t := by
    rw [List.getElem?_map, hi]
    rfl
  rw [h.enqueues, List.getElem?_range (List.getElem?_eq_some_iff.1 hi).1] at hfst
  cases hfst
  exact hi

theorem mem_dequeues (h : s.Inv k) {t : ℕ} : t ∈ s.dequeues ↔ t < s.dequeues.length := by
  rw [h.dequeues, List.mem_range, List.length_range]

/-- A ticket that was claimed has data. -/
theorem value_eq (h : s.Inv k) {t : ℕ} (ht : t < s.enqueues.length) :
    ∃ data, (t, data) ∈ s.enqueues ∧ s.value t = some data := by
  obtain ⟨⟨i, data⟩, hget⟩ : ∃ entry, s.enqueues[t]? = some entry :=
    ⟨_, List.getElem?_eq_getElem ht⟩
  have hfst : (s.enqueues.map Prod.fst)[t]? = some i := by
    rw [List.getElem?_map, hget]
    rfl
  rw [h.enqueues, List.getElem?_range ht] at hfst
  cases hfst
  exact ⟨data, List.mem_of_getElem? hget, by rw [value, hget]; rfl⟩

/-- At most one thread at a time is on a slot. -/
theorem exclusive (hk : 1 ≤ k) (h : s.Inv k) {x y : τ} {i : ℕ} (hx : s.Owns x i)
    (hy : s.Owns y i) : x = y := by
  obtain ⟨t, ht, rfl⟩ := hx
  obtain ⟨u, hu, hslot⟩ := hy
  have hrelies : s.Relies (s.pc y) u := by
    rcases hp : s.pc y with _ | _ | _ | _ | _ | _ | _ | _ | _ | _ | _ <;> rw [hp] at hu <;>
      rcases hu with hu | hu <;> cases hu <;> rfl
  by_contra hne
  rcases ht with ht | ht
  · exact h.writes_apart hk ht (Ne.symm hne) hrelies hslot
  · exact h.reads_apart hk ht (Ne.symm hne) hrelies hslot

/-- No element is lost or overwritten. -/
theorem kept (h : s.Inv k) {t : ℕ} {data : α} (hmem : (t, data) ∈ s.enqueues) :
    s.Element t data := by
  have hget := h.mem_enqueues.1 hmem
  have hvalue : s.value t = some data := by
    rw [value, hget]
    rfl
  rcases Nat.lt_or_ge t s.dequeues.length with hlt | hge
  · have hdeq := h.mem_dequeues.2 hlt
    rcases h.taken t hlt with ⟨x, hx⟩ | hret
    · have hx' := h.threads x
      rcases hp : s.pc x with _ | _ | _ | _ | _ | _ | _ | _ | _ | u | ⟨u, out⟩ <;>
        rw [hp] at hx hx' <;> cases hx
      · exact .taken x hp (hvalue ▸ hx'.2) hdeq
      · exact .read x (by rw [hp, hx'.2.2, hvalue]) hdeq
    · exact .returned (hvalue ▸ hret)
  · have hdeq : t ∉ s.dequeues := fun hmem => Nat.not_lt.2 hge (h.mem_dequeues.1 hmem)
    rcases h.waiting t hge (List.getElem?_eq_some_iff.1 hget).1 with ⟨x, hx⟩ | hst
    · have hx' := h.threads x
      rcases hp : s.pc x with _ | _ | _ | _ | ⟨out, u⟩ | ⟨out, u⟩ | _ | _ | _ | _ | _ <;>
        rw [hp] at hx hx' <;> cases hx
      · have heq := hget.symm.trans hx'.1
        cases heq
        exact .written x (.inl hp) hdeq
      · have heq := hget.symm.trans hx'.1
        cases heq
        exact .written x (.inr hp) hdeq
    · exact .stored (hvalue ▸ hst) hdeq

theorem safe (hk : 1 ≤ k) (h : s.Inv k) : s.Safe where
  exclusive _ _ _ hx hy := h.exclusive hk hx hy
  enqueues := h.enqueues
  dequeues := h.dequeues
  le := h.le
  returned t out hmem := by
    obtain ⟨hlt, hout, -⟩ := h.returned (t, out) hmem
    obtain ⟨data, hdata, hvalue⟩ := h.value_eq (hlt.trans_le h.le)
    exact ⟨h.mem_dequeues.2 hlt, data, hout.trans hvalue, hdata⟩
  once := h.nodup
  before x t hx hmem := Nat.not_lt.2 (h.writes hx).1 (h.mem_dequeues.1 hmem)
  kept _ _ hmem := h.kept hmem

end Inv

/-! ## Runs -/

variable [DecidableEq τ]

/-- Claims are not taken back. -/
theorem enqueues_le {s' : State τ α} {x : τ} (h : Steps s x s') :
    s.enqueues.length ≤ s'.enqueues.length := by
  cases h with
  | claimHead data hx => simp [claimHead]
  | _ => exact le_rfl

end State

variable [DecidableEq τ] {k : ℕ} {s : State τ α}

theorem inv_of_reachable (hk : 1 ≤ k) (hk64 : k < 64) (h : (system τ α (2 ^ k)).Reachable s)
    (hfew : s.enqueues.length < 2 ^ 63) : s.Inv k := by
  induction h with
  | init h => exact State.init_inv hk64 h
  | step _ hs ih =>
    have hsteps := steps_of_step hs
    exact (ih ((State.enqueues_le hsteps).trans_lt hfew)).steps hk hk64 hsteps hfew

/-- **The queue is safe** in every run of any number of threads with fewer than
    `2 ^ 63` enqueues. -/
theorem safe_of_reachable (hk : 1 ≤ k) (hk64 : k < 64)
    (h : (system τ α (2 ^ k)).Reachable s) (hfew : s.enqueues.length < 2 ^ 63) : s.Safe :=
  (inv_of_reachable hk hk64 h hfew).safe hk

/-- The steps `as`, one after another. -/
def run (s : State τ α) : List (τ × Label α) → Option (State τ α)
  | [] => some s
  | (x, label) :: as => (s.step x label).bind fun s => run s as

theorem reachable_run {size : ℕ} {as : List (τ × Label α)} {s' : State τ α}
    (h : (system τ α size).Reachable s) (hrun : run s as = some s') :
    (system τ α size).Reachable s' := by
  induction as generalizing s with
  | nil => cases hrun; exact h
  | cons a as ih =>
    rw [run] at hrun
    obtain ⟨s₁, hs, hrest⟩ := Option.bind_eq_some_iff.1 hrun
    exact ih (h.step (a := a) hs) hrest

/-- A queue of two, and nobody on it. -/
def empty : State Bool ℕ where
  queue := { size := 2, mask := 1, buffer := fun i => { seq := i } }
  pc _ := .idle
  enqueues := []
  dequeues := []
  returned := []

/-- One thread enqueues while the other dequeues, which finds the queue empty at
    first. -/
def handover : List (Bool × Label ℕ) :=
  [(true, .dequeue), (false, .enqueue 7), (true, .step false), (false, .step false),
    (true, .step false), (false, .step false), (false, .step true), (false, .step false),
    (false, .step false), (true, .dequeue), (false, .step false), (true, .step false),
    (false, .step false), (true, .step false), (true, .step false), (true, .step false),
    (true, .step false)]

theorem safe_handover : ∃ s, run empty handover = some s ∧ s.returned = [(0, some 7)] ∧
    s.Safe := by
  have hrun : (run empty handover).map (fun s => (s.enqueues.length, s.returned)) =
      some (1, [(0, some 7)]) := by decide
  obtain ⟨s, hs, hfst⟩ := Option.map_eq_some_iff.1 hrun
  obtain ⟨hlen, hret⟩ := Prod.mk.inj hfst
  have hreach : (system Bool ℕ (2 ^ 1)).Reachable s :=
    reachable_run (.init ⟨rfl, fun _ => rfl, rfl, rfl, rfl⟩) hs
  exact ⟨s, hs, hret, safe_of_reachable le_rfl (by decide) hreach (by omega)⟩

end MpmcQueue

end CqlClient
