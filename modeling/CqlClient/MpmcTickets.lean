/-
  CqlClient formalization — the tickets of the bounded queue.

  A slot is used by the tickets that are equal up to the size, one after another.
  What its sequence says, and what a thread with a ticket may rely on, is the
  invariant `Inv`; it holds as long as no sequence wraps.
-/
import CqlClient.MpmcQueue

namespace CqlClient

open Word

namespace MpmcQueue
variable {τ α : Type}

/-! ## Sequences -/

theorem dif_eq_zero {a b : ℕ} (ha : a < 2 ^ 64) (hb : b < 2 ^ 64) : dif a b = 0 ↔ a = b := by
  unfold dif toInt64
  rw [← Int.sub_bmod, ← Int.dvd_iff_bmod_eq_zero]
  omega

theorem new_pow {k : ℕ} (hk : k < 64) {q : MpmcQueue α} (h : new (2 ^ k) = .ok q) :
    q.mask = 2 ^ k - 1 ∧ q.headSeq = 0 ∧ q.tailSeq = 0 ∧ ∀ i, q.buffer i = { seq := i } := by
  unfold new at h
  split at h
  · cases h
    refine ⟨?_, rfl, rfl, fun _ => rfl⟩
    have hlt : 2 ^ k < 2 ^ 64 := Nat.pow_lt_pow_right (by norm_num) hk
    have hpos : 0 < 2 ^ k := Nat.two_pow_pos k
    rw [← Nat.cast_one, ← Nat.cast_sub hpos]
    exact toSizeT_natCast (by omega)
  · cases h

/-- Two tickets of one slot. -/
theorem slot_eq {q : MpmcQueue α} {k : ℕ} (hmask : q.mask = 2 ^ k - 1) (t : ℕ) :
    q.slot t = t % 2 ^ k := by
  rw [slot, hmask, Nat.and_two_pow_sub_one_eq_mod]

/-- The next ticket is not one of the same slot. -/
theorem slot_succ_ne {q : MpmcQueue α} {k : ℕ} (hk : 1 ≤ k) (hmask : q.mask = 2 ^ k - 1) (t : ℕ) :
    q.slot (t + 1) ≠ q.slot t := by
  rw [slot_eq hmask, slot_eq hmask]
  intro h
  have hdvd : 2 ^ k ∣ 1 := by
    have := (Nat.modEq_iff_dvd' (Nat.le_succ t)).1 h.symm
    simpa using this
  have hlt : 2 ^ 0 < 2 ^ k := Nat.pow_lt_pow_right (by norm_num) hk
  have := Nat.le_of_dvd one_pos hdvd
  omega

theorem node_setNode (q : MpmcQueue α) (t u : ℕ) (n : Node α) :
    (q.setNode t n).node u = if q.slot u = q.slot t then n else q.node u := by
  change Function.update q.buffer (q.slot t) n (q.slot u) = _
  rw [Function.update_apply, node]

namespace State

/-- The data that the ticket was claimed for. -/
def value (s : State τ α) (t : ℕ) : Option α := (s.enqueues[t]?).map Prod.snd

/-- What a thread at `p` relies on. -/
def Holds (s : State τ α) : Pc α → Prop
  | .loadFree _ t => t ≤ s.enqueues.length
  | .claimHead _ t => t ≤ s.enqueues.length ∧
    (t = s.enqueues.length → (s.queue.node t).seq = t)
  | .writeData data t => s.enqueues[t]? = some (t, data) ∧ s.dequeues.length ≤ t ∧
    (s.queue.node t).seq = t
  | .storeFull data t => s.enqueues[t]? = some (t, data) ∧ s.dequeues.length ≤ t ∧
    s.queue.node t = ⟨some data, t⟩
  | .loadFull t => t ≤ s.dequeues.length
  | .claimTail t => t ≤ s.dequeues.length ∧
    (t = s.dequeues.length → (s.queue.node t).seq = t + 1)
  | .readData t => t < s.dequeues.length ∧ s.queue.node t = ⟨s.value t, t + 1⟩
  | .storeFree t data => t < s.dequeues.length ∧ (s.queue.node t).seq = t + 1 ∧ data = s.value t
  | .idle | .loadHead _ | .loadTail => True

/-- The ticket waits in its slot. -/
def Stored (s : State τ α) (t : ℕ) : Prop := s.queue.node t = ⟨s.value t, t + 1⟩

structure Inv (k : ℕ) (s : State τ α) : Prop where
  mask : s.queue.mask = 2 ^ k - 1
  head : s.queue.headSeq = s.enqueues.length
  tail : s.queue.tailSeq = s.dequeues.length
  enqueues : s.enqueues.map Prod.fst = List.range s.enqueues.length
  dequeues : s.dequeues = List.range s.dequeues.length
  le : s.dequeues.length ≤ s.enqueues.length
  bound : ∀ t, (s.queue.node t).seq < 2 ^ 64
  /-- a slot waits for a ticket of its own, or holds one that was claimed -/
  seq : ∀ t, s.queue.slot (s.queue.node t).seq = s.queue.slot t ∨
    ∃ u < s.enqueues.length, s.queue.slot u = s.queue.slot t ∧ (s.queue.node t).seq = u + 1
  threads : ∀ x, s.Holds (s.pc x)
  writer : ∀ x y t, (s.pc x).writes = some t → (s.pc y).writes = some t → x = y
  reader : ∀ x y t, (s.pc x).reads = some t → (s.pc y).reads = some t → x = y
  /-- a ticket that no dequeue has claimed is being written or waits in its slot -/
  waiting : ∀ t, s.dequeues.length ≤ t → t < s.enqueues.length →
    (∃ x, (s.pc x).writes = some t) ∨ s.Stored t
  /-- a ticket that a dequeue has claimed is being read or was returned -/
  taken : ∀ t < s.dequeues.length,
    (∃ x, (s.pc x).reads = some t) ∨ (t, s.value t) ∈ s.returned
  returned : ∀ p ∈ s.returned, p.1 < s.dequeues.length ∧ p.2 = s.value p.1 ∧
    ∀ x, (s.pc x).reads ≠ some p.1
  nodup : (s.returned.map Prod.fst).Nodup

variable {s s' : State τ α} {k : ℕ} {x : τ}

theorem init_inv [DecidableEq τ] (hk : k < 64) (h : (system τ α (2 ^ k)).init s) : s.Inv k := by
  obtain ⟨hnew, hpc, henq, hdeq, hret⟩ := h
  obtain ⟨hmask, hhead, htail, hbuffer⟩ := new_pow hk hnew
  have hnode : ∀ t, s.queue.node t = ⟨none, t % 2 ^ k⟩ := by
    intro t
    rw [node, hbuffer, slot_eq hmask]
  have hlt : 2 ^ k < 2 ^ 64 := Nat.pow_lt_pow_right (by norm_num) hk
  exact {
    mask := hmask
    head := by rw [hhead, henq]; rfl
    tail := by rw [htail, hdeq]; rfl
    enqueues := by rw [henq]; rfl
    dequeues := by rw [hdeq]; rfl
    le := by rw [hdeq]; exact Nat.zero_le _
    bound := fun t => by
      rw [hnode]
      exact (Nat.mod_lt t (Nat.two_pow_pos k)).trans hlt
    seq := fun t => by
      rw [hnode, slot_eq hmask, slot_eq hmask, Nat.mod_mod]
      exact .inl rfl
    threads := fun x => by rw [hpc]; trivial
    writer := fun x y t hx => by rw [hpc] at hx; cases hx
    reader := fun x y t hx => by rw [hpc] at hx; cases hx
    waiting := fun t _ ht => by rw [henq] at ht; cases ht
    taken := fun t ht => by rw [hdeq] at ht; cases ht
    returned := fun p hp => by rw [hret] at hp; cases hp
    nodup := by rw [hret]; exact List.nodup_nil }

/-! ## Slots -/

theorem node_congr {q : MpmcQueue α} {t u : ℕ} (h : q.slot u = q.slot t) :
    q.node u = q.node t := by
  rw [node, node, h]

/-- A thread at `p` relies on the slot of the ticket. -/
def Relies (s : State τ α) : Pc α → ℕ → Prop
  | .claimHead _ u, t => u = t ∧ t = s.enqueues.length
  | .writeData _ u, t | .storeFull _ u, t | .readData u, t | .storeFree u _, t => u = t
  | .claimTail u, t => u = t ∧ t = s.dequeues.length
  | _, _ => False

/-- Only the slots that are relied on matter. -/
theorem Holds.of_node {p : Pc α} (h : s.Holds p)
    (hnode : ∀ t, s.Relies p t → s'.queue.node t = s.queue.node t)
    (henq : s'.enqueues = s.enqueues) (hdeq : s'.dequeues = s.dequeues) : s'.Holds p := by
  cases p with
  | claimHead data t =>
    rw [Holds, henq]
    refine ⟨h.1, fun ht => ?_⟩
    rw [hnode t ⟨rfl, ht⟩]
    exact h.2 ht
  | claimTail t =>
    rw [Holds, hdeq]
    refine ⟨h.1, fun ht => ?_⟩
    rw [hnode t ⟨rfl, ht⟩]
    exact h.2 ht
  | writeData data t | storeFull data t | readData t | storeFree t data =>
    simp only [Holds, value, henq, hdeq, hnode t rfl] at h ⊢
    exact h
  | loadFree data t => rw [Holds, henq]; exact h
  | loadFull t => rw [Holds, hdeq]; exact h
  | idle | loadHead | loadTail => trivial

namespace Inv

/-- The slot of a ticket that is being written. -/
theorem writes (h : s.Inv k) {t : ℕ} (hx : (s.pc x).writes = some t) :
    s.dequeues.length ≤ t ∧ t < s.enqueues.length ∧ (s.queue.node t).seq = t := by
  have hx' := h.threads x
  rcases hp : s.pc x with _ | _ | _ | _ | ⟨data, u⟩ | ⟨data, u⟩ | _ | _ | _ | _ | _ <;>
    rw [hp] at hx hx' <;> cases hx
  · exact ⟨hx'.2.1, (List.getElem?_eq_some_iff.1 hx'.1).1, hx'.2.2⟩
  · exact ⟨hx'.2.1, (List.getElem?_eq_some_iff.1 hx'.1).1, by rw [hx'.2.2]⟩

/-- The slot of a ticket that is being read. -/
theorem reads (h : s.Inv k) {t : ℕ} (hx : (s.pc x).reads = some t) :
    t < s.dequeues.length ∧ (s.queue.node t).seq = t + 1 := by
  have hx' := h.threads x
  rcases hp : s.pc x with _ | _ | _ | _ | _ | _ | _ | _ | _ | u | ⟨u, data⟩ <;>
    rw [hp] at hx hx' <;> cases hx
  · exact ⟨hx'.1, by rw [hx'.2]⟩
  · exact ⟨hx'.1, hx'.2.1⟩

/-- What the slot of a ticket says to a thread that relies on it. -/
theorem relies (h : s.Inv k) {t : ℕ} (hx : s.Relies (s.pc x) t) :
    ((s.pc x).writes = some t ∨ (s.pc x).reads = some t) ∨
    (t = s.enqueues.length ∧ (s.queue.node t).seq = t) ∨
    (t = s.dequeues.length ∧ (s.queue.node t).seq = t + 1) := by
  have hx' := h.threads x
  rcases hp : s.pc x with
    _ | _ | _ | ⟨data, u⟩ | ⟨data, u⟩ | ⟨data, u⟩ | _ | _ | u | u | ⟨u, data⟩ <;>
    rw [hp] at hx hx'
  case claimHead =>
    obtain ⟨rfl, hlen⟩ := hx
    exact .inr (.inl ⟨hlen, hx'.2 hlen⟩)
  case claimTail =>
    obtain ⟨rfl, hlen⟩ := hx
    exact .inr (.inr ⟨hlen, hx'.2 hlen⟩)
  case writeData | storeFull => exact .inl (.inl (congrArg some hx))
  case readData | storeFree => exact .inl (.inr (congrArg some hx))
  all_goals cases hx

variable {y : τ} {t u : ℕ}

/-- No other thread relies on a slot that is being written. -/
theorem writes_apart (hk : 1 ≤ k) (h : s.Inv k) (hx : (s.pc x).writes = some t) (hy : y ≠ x)
    (hu : s.Relies (s.pc y) u) : s.queue.slot u ≠ s.queue.slot t := by
  intro hslot
  have hnode := node_congr hslot
  obtain ⟨hle, hlt, hseq⟩ := h.writes hx
  rw [← hnode] at hseq
  rcases h.relies hu with (hw | hr) | ⟨hlen, hseq'⟩ | ⟨hlen, hseq'⟩
  · have hut : u = t := (h.writes hw).2.2.symm.trans hseq
    exact hy (h.writer y x t (hut ▸ hw) hx)
  · rw [(h.reads hr).2] at hseq
    exact slot_succ_ne hk h.mask u (hseq ▸ hslot.symm)
  · omega
  · rw [hseq'] at hseq
    exact slot_succ_ne hk h.mask u (hseq ▸ hslot.symm)

/-- No other thread relies on a slot that is being read. -/
theorem reads_apart (hk : 1 ≤ k) (h : s.Inv k) (hx : (s.pc x).reads = some t) (hy : y ≠ x)
    (hu : s.Relies (s.pc y) u) : s.queue.slot u ≠ s.queue.slot t := by
  intro hslot
  have hnode := node_congr hslot
  obtain ⟨hlt, hseq⟩ := h.reads hx
  rw [← hnode] at hseq
  rcases h.relies hu with (hw | hr) | ⟨hlen, hseq'⟩ | ⟨hlen, hseq'⟩
  · rw [(h.writes hw).2.2] at hseq
    exact slot_succ_ne hk h.mask t (hseq ▸ hslot)
  · rw [(h.reads hr).2] at hseq
    have hut : u = t := by omega
    exact hy (h.reader y x t (hut ▸ hr) hx)
  · rw [hseq'] at hseq
    exact slot_succ_ne hk h.mask t (hseq ▸ hslot)
  · omega

/-- No ticket waits in a slot that is being written. -/
theorem writes_stored (hk : 1 ≤ k) (h : s.Inv k) (hx : (s.pc x).writes = some t)
    (hu : s.Stored u) : s.queue.slot u ≠ s.queue.slot t := by
  intro hslot
  obtain ⟨-, -, hseq⟩ := h.writes hx
  rw [← node_congr hslot, hu] at hseq
  have hseq : u + 1 = t := hseq
  exact slot_succ_ne hk h.mask u (hseq ▸ hslot.symm)

/-- No ticket waits in a slot that is being read. -/
theorem reads_stored (h : s.Inv k) (hx : (s.pc x).reads = some t)
    (hle : s.dequeues.length ≤ u) (hu : s.Stored u) : s.queue.slot u ≠ s.queue.slot t := by
  intro hslot
  obtain ⟨hlt, hseq⟩ := h.reads hx
  rw [← node_congr hslot, hu] at hseq
  simp only at hseq
  omega

/-- A slot whose sequence is one more than a ticket of its own holds that ticket. -/
theorem lt_of_seq (hk : 1 ≤ k) (h : s.Inv k) (hseq : (s.queue.node t).seq = t + 1) :
    t < s.enqueues.length := by
  rcases h.seq t with hslot | ⟨u, hu, -, hseq'⟩
  · rw [hseq] at hslot
    exact absurd hslot (slot_succ_ne hk h.mask t)
  · omega

/-- The next ticket to be dequeued waits in its slot. -/
theorem stored_of_seq (hk : 1 ≤ k) (h : s.Inv k) (hle : s.dequeues.length ≤ t)
    (hseq : (s.queue.node t).seq = t + 1) : s.Stored t := by
  rcases h.waiting t hle (h.lt_of_seq hk hseq) with ⟨y, hy⟩ | hst
  · have := (h.writes hy).2.2
    omega
  · exact hst

end Inv

/-! ## Steps -/

variable [DecidableEq τ] {p : Pc α} {t : ℕ}

theorem value_claimHead (s : State τ α) (data : α) (ht : t < s.enqueues.length) :
    (s.claimHead x data).value t = s.value t := by
  simp only [value, claimHead, List.getElem?_append_left ht]

/-- A ticket still has one owner when a thread moves on. -/
theorem unique_update {f : Pc α → Option ℕ} {pc : τ → Pc α}
    (h : ∀ x y t, f (pc x) = some t → f (pc y) = some t → x = y)
    (hp : ∀ t, f p = some t → ∀ y ≠ x, f (pc y) ≠ some t) :
    ∀ y z t, f (Function.update pc x p y) = some t → f (Function.update pc x p z) = some t →
      y = z := by
  intro y z t hy hz
  rw [Function.update_apply] at hy hz
  split at hy <;> split at hz
  · rename_i hyx hzx
    exact hyx.trans hzx.symm
  · rename_i hyx hzx
    exact absurd hz (hp t hy z hzx)
  · rename_i hyx hzx
    exact absurd hy (hp t hz y hyx)
  · exact h y z t hy hz

/-- What holds of all threads still does when one moves on to where it holds. -/
theorem forall_update {P : Pc α → Prop} {pc : τ → Pc α} (hp : P p) (h : ∀ y ≠ x, P (pc y)) :
    ∀ y, P (Function.update pc x p y) :=
  (Function.forall_update_iff pc fun _ p => P p).2 ⟨hp, h⟩

/-- A ticket that no thread reads. -/
theorem unread_update {pc : τ → Pc α} (hp : p.reads ≠ some t) (h : ∀ y, (pc y).reads ≠ some t) :
    ∀ y, (Function.update pc x p y).reads ≠ some t :=
  forall_update (P := fun p => p.reads ≠ some t) hp fun y _ => h y

/-- A ticket keeps its owner when another thread moves on, or the owner does so with
    its ticket. -/
theorem owner_update {f : Pc α → Option ℕ} {pc : τ → Pc α}
    (hp : f (pc x) = some t → f p = some t) (h : ∃ y, f (pc y) = some t) :
    ∃ y, f (Function.update pc x p y) = some t := by
  obtain ⟨y, hy⟩ := h
  refine ⟨y, ?_⟩
  rw [Function.update_apply]
  split
  · rename_i hyx
    exact hp (hyx ▸ hy)
  · exact hy

namespace Inv

theorem loads (h : s.Inv k) (hfew : s.enqueues.length < 2 ^ 63) (hw : (s.pc x).writes = none)
    (hr : (s.pc x).reads = none) (hp : s.queue.Loads (s.pc x) p) : (s.goto x p).Inv k := by
  have hp' : p.writes = none ∧ p.reads = none := by
    cases p with
    | writeData | storeFull | readData | storeFree => cases hp
    | _ => exact ⟨rfl, rfl⟩
  have hholds : s.Holds p := by
    have hx := h.threads x
    cases p with
    | idle | loadHead | loadTail => trivial
    | loadFree data t => exact (hp.trans h.head).le
    | claimHead data t =>
      rw [hp.1] at hx
      have hle : t ≤ s.enqueues.length := hx
      exact ⟨hle, fun _ => (dif_eq_zero (h.bound t) (by omega)).1 hp.2⟩
    | loadFull t => exact (hp.trans h.tail).le
    | claimTail t =>
      rw [hp.1] at hx
      have hle : t ≤ s.dequeues.length := hx
      have hle' := h.le
      refine ⟨hle, fun _ => ?_⟩
      have hseq := hp.2
      rw [← Nat.cast_succ, toSizeT_natCast (by omega)] at hseq
      exact (dif_eq_zero (h.bound t) (by omega)).1 hseq
    | writeData | storeFull | readData | storeFree => cases hp
  exact {
    h with
    threads := forall_update (P := s.Holds) hholds fun y _ => h.threads y
    writer := unique_update h.writer fun t ht => by rw [hp'.1] at ht; cases ht
    reader := unique_update h.reader fun t ht => by rw [hp'.2] at ht; cases ht
    waiting := fun t hle hlt =>
      (h.waiting t hle hlt).imp_left (owner_update fun ht => by rw [hw] at ht; cases ht)
    taken := fun t ht =>
      (h.taken t ht).imp_left (owner_update fun ht => by rw [hr] at ht; cases ht)
    returned := fun q hq => by
      obtain ⟨hlt, heq, hnot⟩ := h.returned q hq
      refine ⟨hlt, heq, unread_update ?_ hnot⟩
      rw [hp'.2]
      nofun }

/-- A claim changes no slot: the other threads rely on what they did. -/
theorem holds_claimHead (h : s.Inv k) {p : Pc α} (data : α) (hp : s.Holds p) :
    (s.claimHead x data).Holds p := by
  have hvalue : ∀ t < s.dequeues.length, (s.claimHead x data).value t = s.value t := by
    intro t ht
    exact s.value_claimHead data (ht.trans_le h.le)
  cases p with
  | loadFree data t => exact (Nat.le_succ_of_le hp).trans_eq (by simp [State.claimHead])
  | claimHead data t =>
    refine ⟨(Nat.le_succ_of_le hp.1).trans_eq (by simp [State.claimHead]), fun ht => ?_⟩
    have hle := hp.1
    simp only [claimHead, List.length_append, List.length_singleton] at ht
    omega
  | writeData data t | storeFull data t =>
    refine ⟨?_, hp.2⟩
    simp only [State.claimHead]
    rw [List.getElem?_append_left (List.getElem?_eq_some_iff.1 hp.1).1]
    exact hp.1
  | readData t | storeFree t data =>
    simp only [Holds] at hp ⊢
    rw [hvalue t hp.1]
    exact hp
  | loadFull t | claimTail t => exact hp
  | idle | loadHead | loadTail => trivial

theorem claimHead {data : α} (h : s.Inv k) (hfew : s.enqueues.length + 1 < 2 ^ 63)
    (hx : s.pc x = .claimHead data s.queue.headSeq) : (s.claimHead x data).Inv k := by
  have hx' := h.threads x
  rw [hx, h.head] at hx'
  have hvalue := fun (t : ℕ) (ht : t < s.enqueues.length) => s.value_claimHead (x := x) data ht
  have hle := h.le
  exact {
    mask := h.mask
    head := by
      simp only [State.claimHead, List.length_append, List.length_singleton]
      rw [h.head, ← Nat.cast_succ, toSizeT_natCast (by omega)]
    tail := h.tail
    enqueues := by
      simp only [State.claimHead, List.map_append, List.map_singleton, List.length_append,
        List.length_singleton, List.range_succ, h.enqueues, h.head]
    dequeues := h.dequeues
    le := by
      simp only [State.claimHead, List.length_append, List.length_singleton]
      omega
    bound := h.bound
    seq := fun t => (h.seq t).imp_right fun ⟨u, hu, hslot⟩ => ⟨u, by
      simp only [State.claimHead, List.length_append, List.length_singleton]
      omega, hslot⟩
    threads := by
      refine forall_update (P := (s.claimHead x data).Holds) ⟨?_, ?_, ?_⟩ fun y _ =>
        h.holds_claimHead data (h.threads y)
      · simp only [State.claimHead, h.head]
        exact List.getElem?_concat_length
      · rw [h.head]
        exact hle
      · rw [h.head]
        exact hx'.2 rfl
    writer := unique_update h.writer fun t ht y _ hy => by
      cases ht
      have hlt := (h.writes hy).2.1
      rw [h.head] at hlt
      exact Nat.lt_irrefl _ hlt
    reader := unique_update h.reader fun t ht => by cases ht
    waiting := fun t hle hlt => by
      simp only [State.claimHead, List.length_append, List.length_singleton] at hlt
      by_cases ht : t = s.enqueues.length
      · refine .inl ⟨x, ?_⟩
        simp only [State.claimHead, Function.update_self, h.head, ht]
        rfl
      · have hlt : t < s.enqueues.length := by omega
        refine (h.waiting t hle hlt).imp (owner_update fun hw => ?_) fun hst => ?_
        · rw [hx] at hw
          cases hw
        · rw [Stored, hvalue t hlt]
          exact hst
    taken := fun t ht => by
      rw [hvalue t (ht.trans_le hle)]
      refine (h.taken t ht).imp_left (owner_update fun hr => ?_)
      rw [hx] at hr
      cases hr
    returned := fun q hq => by
      obtain ⟨hlt, heq, hnot⟩ := h.returned q hq
      rw [hvalue q.1 (hlt.trans_le hle)]
      exact ⟨hlt, heq, unread_update nofun hnot⟩
    nodup := h.nodup }

/-- The other threads rely on what they did: the slot that is claimed is full. -/
theorem holds_claimTail {p : Pc α} (hst : s.Stored s.dequeues.length)
    (hp : s.Holds p) : (s.claimTail x).Holds p := by
  have hlen : (s.claimTail x).dequeues.length = s.dequeues.length + 1 := by
    simp [State.claimTail]
  have hwrite : ∀ t, s.dequeues.length ≤ t → (s.queue.node t).seq = t →
      (s.claimTail x).dequeues.length ≤ t := by
    intro t hle hseq
    rw [hlen]
    refine Nat.lt_of_le_of_ne hle ?_
    rintro rfl
    rw [hst] at hseq
    exact Nat.succ_ne_self _ hseq
  cases p with
  | loadFull t => exact (Nat.le_succ_of_le hp).trans_eq hlen.symm
  | claimTail t =>
    refine ⟨(Nat.le_succ_of_le hp.1).trans_eq hlen.symm, fun ht => ?_⟩
    have hle := hp.1
    omega
  | writeData data t => exact ⟨hp.1, hwrite t hp.2.1 hp.2.2, hp.2.2⟩
  | storeFull data t => exact ⟨hp.1, hwrite t hp.2.1 (by rw [hp.2.2]), hp.2.2⟩
  | readData t | storeFree t data => exact ⟨(Nat.lt_succ_of_lt hp.1).trans_eq hlen.symm, hp.2⟩
  | loadFree data t | claimHead data t => exact hp
  | idle | loadHead | loadTail => trivial

theorem claimTail (hk : 1 ≤ k) (h : s.Inv k) (hfew : s.enqueues.length < 2 ^ 63)
    (hx : s.pc x = .claimTail s.queue.tailSeq) : (s.claimTail x).Inv k := by
  have hx' := h.threads x
  rw [hx, h.tail] at hx'
  have hseq := hx'.2 rfl
  have hlt := h.lt_of_seq hk hseq
  have hst := h.stored_of_seq hk le_rfl hseq
  have hlen : (s.claimTail x).dequeues.length = s.dequeues.length + 1 := by
    simp [State.claimTail]
  exact {
    mask := h.mask
    head := h.head
    tail := by
      rw [hlen]
      simp only [State.claimTail]
      rw [h.tail, ← Nat.cast_succ, toSizeT_natCast (by omega)]
    enqueues := h.enqueues
    dequeues := by
      rw [hlen, List.range_succ, ← h.dequeues, ← h.tail]
      rfl
    le := hlen.trans_le hlt
    bound := h.bound
    seq := h.seq
    threads := by
      refine forall_update (P := (s.claimTail x).Holds) ⟨?_, ?_⟩ fun y _ =>
        holds_claimTail hst (h.threads y)
      · rw [h.tail, hlen]
        exact Nat.lt_succ_self _
      · rw [h.tail]
        exact hst
    writer := unique_update h.writer fun t ht => by cases ht
    reader := unique_update h.reader fun t ht y _ hy => by
      cases ht
      have hlt := (h.reads hy).1
      rw [h.tail] at hlt
      exact Nat.lt_irrefl _ hlt
    waiting := fun t hle hlt => by
      rw [hlen] at hle
      refine (h.waiting t (Nat.le_of_succ_le hle) hlt).imp_left (owner_update fun hw => ?_)
      rw [hx] at hw
      cases hw
    taken := fun t ht => by
      rw [hlen] at ht
      by_cases heq : t = s.dequeues.length
      · refine .inl ⟨x, ?_⟩
        simp only [State.claimTail, Function.update_self, h.tail, heq]
        rfl
      · refine (h.taken t (by omega)).imp_left (owner_update fun hr => ?_)
        rw [hx] at hr
        cases hr
    returned := fun q hq => by
      obtain ⟨hlt, heq, hnot⟩ := h.returned q hq
      refine ⟨(Nat.lt_succ_of_lt hlt).trans_eq hlen.symm, heq, unread_update (fun hr => ?_) hnot⟩
      have hq : s.queue.tailSeq = q.1 := Option.some.inj hr
      rw [h.tail] at hq
      omega
    nodup := h.nodup }

theorem readData (h : s.Inv k) (hx : s.pc x = .readData t) : (s.readData x t).Inv k := by
  have hx' := h.threads x
  rw [hx] at hx'
  have hreads : (s.pc x).reads = some t := by rw [hx]; rfl
  exact {
    h with
    threads := by
      refine forall_update (P := s.Holds) ⟨hx'.1, ?_, ?_⟩ fun y _ => h.threads y
      · rw [hx'.2]
      · rw [hx'.2]
    writer := unique_update h.writer fun t ht => by cases ht
    reader := unique_update h.reader fun u hu y hne hy => by
      cases hu
      exact hne (h.reader y x t hy hreads)
    waiting := fun u hle hlt => (h.waiting u hle hlt).imp_left (owner_update fun hw => by
      rw [hx] at hw
      cases hw)
    taken := fun u hu => (h.taken u hu).imp_left (owner_update fun hr => by
      rw [hx] at hr
      exact hr)
    returned := fun q hq => by
      obtain ⟨hlt, heq, hnot⟩ := h.returned q hq
      exact ⟨hlt, heq, unread_update (fun hr => hnot x (hreads.trans hr)) hnot⟩ }

theorem writeData {data : α} (hk : 1 ≤ k) (h : s.Inv k) (hx : s.pc x = .writeData data t) :
    (s.writeData x data t).Inv k := by
  have hx' := h.threads x
  rw [hx] at hx'
  have hwrites : (s.pc x).writes = some t := by rw [hx]; rfl
  have hnode := s.queue.node_setNode t
  have hseq : ∀ u, ((s.writeData x data t).queue.node u).seq = (s.queue.node u).seq := by
    intro u
    simp only [State.writeData, hnode]
    split
    · rename_i hslot
      rw [node_congr hslot]
    · rfl
  exact {
    h with
    bound := fun u => (hseq u).trans_lt (h.bound u)
    seq := fun u => by
      rw [hseq]
      exact h.seq u
    threads := by
      refine forall_update (P := (s.writeData x data t).Holds) ⟨hx'.1, hx'.2.1, ?_⟩ fun y hy =>
        (h.threads y).of_node (fun u hu => ?_) rfl rfl
      · simp only [State.writeData, hnode, if_true, hx'.2.2]
      · simp only [State.writeData, hnode, if_neg (h.writes_apart hk hwrites hy hu)]
    writer := unique_update h.writer fun u hu y hne hy => by
      cases hu
      exact hne (h.writer y x t hy hwrites)
    reader := unique_update h.reader fun t ht => by cases ht
    waiting := fun u hle hlt => by
      refine (h.waiting u hle hlt).imp (owner_update fun hw => ?_) fun hst => ?_
      · rw [hx] at hw
        exact hw
      · simp only [Stored, State.writeData, hnode, if_neg (h.writes_stored hk hwrites hst)]
        exact hst
    taken := fun u hu => (h.taken u hu).imp_left (owner_update fun hr => by
      rw [hx] at hr
      cases hr)
    returned := fun q hq => by
      obtain ⟨hlt, heq, hnot⟩ := h.returned q hq
      exact ⟨hlt, heq, unread_update nofun hnot⟩ }

theorem storeFull {data : α} (hk : 1 ≤ k) (h : s.Inv k) (hfew : s.enqueues.length < 2 ^ 63)
    (hx : s.pc x = .storeFull data t) : (s.storeFull x t).Inv k := by
  have hx' := h.threads x
  rw [hx] at hx'
  have hwrites : (s.pc x).writes = some t := by rw [hx]; rfl
  obtain ⟨-, hlt, -⟩ := h.writes hwrites
  have hwrap : toSizeT (t + 1) = t + 1 := by
    rw [← Nat.cast_succ, toSizeT_natCast (by omega)]
  have hnode := s.queue.node_setNode t
  exact {
    h with
    bound := fun u => by
      simp only [State.storeFull, hnode]
      split
      · exact hwrap.trans_lt (by omega)
      · exact h.bound u
    seq := fun u => by
      simp only [State.storeFull, hnode]
      split
      · rename_i hslot
        exact .inr ⟨t, hlt, hslot.symm, hwrap⟩
      · exact h.seq u
    threads := by
      refine forall_update (P := (s.storeFull x t).Holds) trivial fun y hy =>
        (h.threads y).of_node (fun u hu => ?_) rfl rfl
      simp only [State.storeFull, hnode, if_neg (h.writes_apart hk hwrites hy hu)]
    writer := unique_update h.writer fun t ht => by cases ht
    reader := unique_update h.reader fun t ht => by cases ht
    waiting := fun u hle hlt => by
      by_cases hut : u = t
      · subst hut
        refine .inr ?_
        simp only [Stored, State.storeFull, hnode, if_true, hwrap, hx'.2.2, value, hx'.1,
          Option.map_some]
      · refine (h.waiting u hle hlt).imp (owner_update fun hw => ?_) fun hst => ?_
        · rw [hwrites] at hw
          exact absurd (Option.some.inj hw).symm hut
        · simp only [Stored, State.storeFull, hnode, if_neg (h.writes_stored hk hwrites hst)]
          exact hst
    taken := fun u hu => (h.taken u hu).imp_left (owner_update fun hr => by
      rw [hx] at hr
      cases hr)
    returned := fun q hq => by
      obtain ⟨hlt, heq, hnot⟩ := h.returned q hq
      exact ⟨hlt, heq, unread_update nofun hnot⟩ }

theorem storeFree {data : Option α} (hk : 1 ≤ k) (hk64 : k < 64) (h : s.Inv k)
    (hfew : s.enqueues.length < 2 ^ 63) (hx : s.pc x = .storeFree t data) :
    (s.storeFree x t data).Inv k := by
  have hx' := h.threads x
  rw [hx] at hx'
  obtain ⟨hlt, -, rfl⟩ := hx'
  have hreads : (s.pc x).reads = some t := by rw [hx]; rfl
  have hle := h.le
  have hpow : 2 ^ k ≤ 2 ^ 63 := Nat.pow_le_pow_right (by norm_num) (by omega)
  have hpos : 0 < 2 ^ k := Nat.two_pow_pos k
  have hwrap : toSizeT (t + s.queue.mask + 1) = t + 2 ^ k := by
    rw [h.mask, ← Nat.cast_add, ← Nat.cast_succ, toSizeT_natCast (by omega)]
    omega
  have hslot : s.queue.slot (t + 2 ^ k) = s.queue.slot t := by
    rw [slot_eq h.mask, slot_eq h.mask, Nat.add_mod_right]
  have hnode := s.queue.node_setNode t
  exact {
    h with
    bound := fun u => by
      simp only [State.storeFree, hnode]
      split
      · exact hwrap.trans_lt (by omega)
      · exact h.bound u
    seq := fun u => by
      simp only [State.storeFree, hnode]
      split
      · rename_i hu
        rw [hwrap]
        exact .inl (hslot.trans hu.symm)
      · exact h.seq u
    threads := by
      refine forall_update (P := (s.storeFree x t (s.value t)).Holds) trivial fun y hy =>
        (h.threads y).of_node (fun u hu => ?_) rfl rfl
      simp only [State.storeFree, hnode, if_neg (h.reads_apart hk hreads hy hu)]
    writer := unique_update h.writer fun t ht => by cases ht
    reader := unique_update h.reader fun t ht => by cases ht
    waiting := fun u hle hlt => by
      refine (h.waiting u hle hlt).imp (owner_update fun hw => ?_) fun hst => ?_
      · rw [hx] at hw
        cases hw
      · simp only [Stored, State.storeFree, hnode, if_neg (h.reads_stored hreads hle hst)]
        exact hst
    taken := fun u hu => by
      by_cases hut : u = t
      · subst hut
        exact .inr (List.mem_append_right _ (List.mem_singleton_self _))
      · refine (h.taken u hu).imp (owner_update fun hr => ?_) (List.mem_append_left _)
        rw [hreads] at hr
        exact absurd (Option.some.inj hr).symm hut
    returned := fun q hq => by
      rcases List.mem_append.1 hq with hq | hq
      · obtain ⟨hlt, heq, hnot⟩ := h.returned q hq
        exact ⟨hlt, heq, unread_update nofun hnot⟩
      · rw [List.mem_singleton] at hq
        subst hq
        exact ⟨hlt, rfl, forall_update (P := fun p => p.reads ≠ some t) nofun fun y hy hr =>
          hy (h.reader y x t hr hreads)⟩
    nodup := by
      simp only [State.storeFree, List.map_append, List.map_singleton]
      refine h.nodup.append (List.nodup_singleton _) ?_
      rw [List.disjoint_singleton]
      intro hmem
      obtain ⟨q, hq, rfl⟩ := List.mem_map.1 hmem
      exact (h.returned q hq).2.2 x hreads }

/-- **The invariant is kept by every step**, as long as no sequence wraps. -/
theorem steps (hk : 1 ≤ k) (hk64 : k < 64) (h : s.Inv k) (hs : Steps s x s')
    (hfew : s'.enqueues.length < 2 ^ 63) : s'.Inv k := by
  cases hs with
  | loads p hw hr hp => exact h.loads hfew hw hr hp
  | claimHead data hx =>
    simp only [State.claimHead, List.length_append, List.length_singleton] at hfew
    exact h.claimHead hfew hx
  | writeData data t hx => exact h.writeData hk hx
  | storeFull data t hx => exact h.storeFull hk hfew hx
  | claimTail hx => exact h.claimTail hk hfew hx
  | readData t hx => exact h.readData hx
  | storeFree t data hx => exact h.storeFree hk hk64 hfew hx

end Inv

end State

end MpmcQueue

end CqlClient
