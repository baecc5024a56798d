/-
  CqlClient formalization — the bounded queue as a list.

  Used by one thread, the queue holds the elements of a list whose length its size
  bounds (`Represents`); the sequences may wrap any number of times.  A queue of
  size 1 is accepted by the constructor, but its full slot looks like a free one
  (`refines_iff`).
-/
import CqlClient.MpmcCalls
import CqlClient.MpmcTickets

namespace CqlClient

open Word

namespace MpmcQueue
variable {α : Type}

/-! ## The abstract queue -/

/-- A list of at most `size` elements, the oldest one first. -/
def fifo (size : ℕ) (l : List α) : Op α → List α × Out α
  | .enqueue data =>
    if l.length = size then (l, .enqueued false) else (l ++ [data], .enqueued true)
  | .dequeue =>
    match l with
    | [] => ([], .empty)
    | data :: l => (l, .dequeued (some data))

/-- What the list holds after the calls `ops`. -/
def contents (size : ℕ) (ops : List (Op α)) : List α :=
  ops.foldl (fun l op => (fifo size l op).1) []

/-- One thread makes the calls `ops`, and all of them return. -/
inductive Runs (q₀ : MpmcQueue α) : List (Op α) → MpmcQueue α → Prop where
  | nil : Runs q₀ [] q₀
  | call {q q' : MpmcQueue α} {ops : List (Op α)} {op : Op α} {flags : List Bool} {out : Out α}
    (h : Runs q₀ ops q) (hc : q.call flags op = some (q', out)) : Runs q₀ (ops ++ [op]) q'

/-- After every run a call returns what it returns on the list, and a call that leaves
    the list as it is leaves the queue as it is.  It does return, as soon as its
    compare-exchange does not fail spuriously. -/
def Refines (size : ℕ) (q₀ : MpmcQueue α) : Prop :=
  ∀ ops q, Runs q₀ ops q → ∀ op flags,
    (∀ q' out, q.call flags op = some (q', out) →
      out = (fifo size (contents size ops) op).2 ∧
      ((fifo size (contents size ops) op).1 = contents size ops → q' = q)) ∧
    (false ∈ flags → (q.call flags op).isSome)

/-! ## Sizes -/

/-- The sizes that the constructor accepts are the powers of two. -/
theorem size_of_new {size : ℕ} (hsize : size < 2 ^ 64) {q : MpmcQueue α}
    (h : new size = .ok q) : ∃ k < 64, size = 2 ^ k := by
  have hpow : size ≠ 0 ∧ size &&& toSizeT (2 ^ 64 - 1 - size + 1) = size := by
    unfold new at h
    split at h
    · assumption
    · cases h
  obtain ⟨hpos, hand⟩ := hpow
  have hneg : toSizeT (2 ^ 64 - 1 - size + 1) = 2 ^ 64 - (size - 1 + 1) := by
    have := toSizeT_eq (x := 2 ^ 64 - 1 - size + 1) (by omega) (by omega)
    omega
  rw [hneg] at hand
  -- no bit is set both in the size and in its predecessor
  have hzero : size &&& (size - 1) = 0 := by
    refine Nat.eq_of_testBit_eq fun i => ?_
    have hbit := congrArg (Nat.testBit · i) hand
    simp only [Nat.testBit_and, Nat.testBit_two_pow_sub_succ (x := size - 1) (n := 64) (by omega),
      Nat.zero_testBit] at hbit ⊢
    cases hs : size.testBit i
    · rfl
    · rw [hs] at hbit
      simp only [Bool.true_and, Bool.and_eq_true, Bool.not_eq_true'] at hbit ⊢
      exact hbit.2
  obtain ⟨k, hk⟩ := (Nat.and_sub_one_eq_zero_iff_isPowerOfTwo hpos).1 hzero
  refine ⟨k, ?_, hk⟩
  rw [hk] at hsize
  exact (Nat.pow_lt_pow_iff_right (by norm_num)).1 hsize

/-! ## The list in the slots -/

/-- The queue holds the elements of `l`, and the oldest one has the ticket `n`, up to
    wrapping. -/
structure Represents (k n : ℕ) (l : List α) (q : MpmcQueue α) : Prop where
  mask : q.mask = 2 ^ k - 1
  tail : q.tailSeq = n % 2 ^ 64
  head : q.headSeq = (n + l.length) % 2 ^ 64
  le : l.length ≤ 2 ^ k
  held : ∀ i data, l[i]? = some data →
    q.buffer ((n + i) % 2 ^ k) = ⟨some data, (n + i + 1) % 2 ^ 64⟩
  free : ∀ i, l.length ≤ i → i < 2 ^ k → (q.buffer ((n + i) % 2 ^ k)).seq = (n + i) % 2 ^ 64

/-- The difference of two wrapped sequences. -/
theorem dif_wrap {a b : ℕ} (h₁ : b ≤ a + 2 ^ 63) (h₂ : a < b + 2 ^ 63) :
    dif (a % 2 ^ 64) (b % 2 ^ 64) = (a : ℤ) - b := by
  unfold dif toInt64
  rw [← Int.sub_bmod, Int.natCast_mod, Int.natCast_mod, Int.emod_sub_bmod, Int.sub_emod_bmod]
  exact Int.bmod_eq_of_le (by norm_num; omega) (by norm_num; omega)

theorem toSizeT_add (a b : ℕ) : toSizeT ((a % 2 ^ 64 : ℕ) + b) = (a + b) % 2 ^ 64 := by
  simp only [toSizeT]
  omega

theorem toSizeT_succ (a : ℕ) : toSizeT ((a % 2 ^ 64 : ℕ) + 1) = (a + 1) % 2 ^ 64 := by
  simp only [toSizeT]
  omega

variable {k n : ℕ} {l : List α} {q q' : MpmcQueue α} {flags : List Bool} {out : Out α}

theorem represents_new (hk : k < 64) (h : new (2 ^ k) = .ok q) : Represents k 0 [] q := by
  obtain ⟨hmask, hhead, htail, hbuffer⟩ := new_pow hk h
  have hlt : 2 ^ k < 2 ^ 64 := Nat.pow_lt_pow_right (by norm_num) hk
  constructor
  · exact hmask
  · exact htail
  · exact hhead
  · exact Nat.zero_le _
  · intro i data hget
    cases hget
  · intro i _ hi
    rw [hbuffer, Nat.zero_add, Nat.mod_eq_of_lt hi, Nat.mod_eq_of_lt (hi.trans hlt)]

namespace Represents

/-- The slot of a wrapped ticket. -/
theorem node (h : Represents k n l q) (hk : k < 64) (t : ℕ) :
    q.node (t % 2 ^ 64) = q.buffer (t % 2 ^ k) := by
  rw [MpmcQueue.node, slot_eq h.mask, Nat.mod_mod_of_dvd _ (Nat.pow_dvd_pow 2 hk.le)]

/-- The difference that `enqueue` looks at: it is zero exactly when the list has room,
    or a ticket is a whole lap. -/
theorem dif_head (h : Represents k n l q) (hk : k < 64) :
    dif (q.node q.headSeq).seq q.headSeq = if l.length < 2 ^ k then 0 else 1 - 2 ^ k := by
  have hpow : 2 ^ k ≤ 2 ^ 63 := Nat.pow_le_pow_right (by norm_num) (by omega)
  rw [h.head, h.node hk]
  split
  · rename_i hlt
    rw [h.free _ le_rfl hlt, dif_wrap (by omega) (by omega)]
    omega
  · rename_i hge
    have hlen : l.length = 2 ^ k := by
      have := h.le
      omega
    have hpos : 0 < l.length := hlen.trans_gt (Nat.two_pow_pos k)
    have hheld := h.held 0 _ (List.getElem?_eq_getElem hpos)
    rw [Nat.add_zero] at hheld
    rw [hlen, Nat.add_mod_right, hheld, dif_wrap (by omega) (by omega)]
    push_cast
    ring

/-- The difference that `dequeue` looks at. -/
theorem dif_tail (h : Represents k n l q) (hk : k < 64) :
    dif (q.node q.tailSeq).seq (toSizeT (q.tailSeq + 1)) = if l = [] then -1 else 0 := by
  rw [h.tail, h.node hk, toSizeT_succ]
  split
  · rename_i hnil
    have hfree := h.free 0 (by rw [hnil]; rfl) (Nat.two_pow_pos k)
    rw [Nat.add_zero] at hfree
    rw [hfree, dif_wrap (by omega) (by omega)]
    omega
  · rename_i hne
    have hheld := h.held 0 _ (List.getElem?_eq_getElem (List.length_pos_iff.2 hne))
    rw [Nat.add_zero] at hheld
    rw [hheld, dif_wrap (by omega) (by omega)]
    omega

/-- Two tickets less than a lap apart have different slots. -/
theorem slot_ne {i j : ℕ} (hij : i < j) (hj : j < i + 2 ^ k) :
    (n + i) % 2 ^ k ≠ (n + j) % 2 ^ k := by
  intro hmod
  have hdvd := (Nat.modEq_iff_dvd' (by omega)).1 hmod
  have := Nat.le_of_dvd (by omega) hdvd
  omega

theorem accept (h : Represents k n l q) (hk : k < 64) (hlt : l.length < 2 ^ k) (data : α) :
    Represents k n (l ++ [data]) (q.accept data q.headSeq) := by
  have hslot : q.slot q.headSeq = (n + l.length) % 2 ^ k := by
    rw [h.head, slot_eq h.mask, Nat.mod_mod_of_dvd _ (Nat.pow_dvd_pow 2 hk.le)]
  have hbuffer : (q.accept data q.headSeq).buffer = Function.update q.buffer
      ((n + l.length) % 2 ^ k) ⟨some data, (n + l.length + 1) % 2 ^ 64⟩ := by
    rw [← hslot, ← toSizeT_succ, ← h.head]
    simp only [MpmcQueue.accept, setNode, MpmcQueue.node, slot, Function.update_self,
      Function.update_idem]
  constructor
  · exact h.mask
  · exact h.tail
  · change toSizeT (q.headSeq + 1) = _
    rw [h.head, toSizeT_succ, List.length_append, List.length_singleton, Nat.add_assoc]
  · rw [List.length_append, List.length_singleton]
    exact hlt
  · intro i out hget
    rw [hbuffer]
    rcases Nat.lt_or_ge i l.length with hi | hi
    · rw [List.getElem?_append_left hi] at hget
      rw [Function.update_of_ne (slot_ne hi (by omega))]
      exact h.held i out hget
    · rw [List.getElem?_append_right hi] at hget
      obtain ⟨hlen, hdata⟩ := List.getElem?_eq_some_iff.1 hget
      have hi : i = l.length := by
        rw [List.length_singleton] at hlen
        omega
      subst hi
      simp only [Nat.sub_self, List.getElem_cons_zero] at hdata
      rw [Function.update_self, hdata]
  · intro i hi hi'
    rw [List.length_append, List.length_singleton] at hi
    rw [hbuffer, Function.update_of_ne (slot_ne hi (by omega)).symm]
    exact h.free i (by omega) hi'

theorem release {data : α} (h : Represents k n (data :: l) q) (hk : k < 64) :
    Represents k (n + 1) l (q.release q.tailSeq) := by
  have hpos := Nat.two_pow_pos k
  have hle : l.length + 1 ≤ 2 ^ k := h.le
  have hslot : q.slot q.tailSeq = n % 2 ^ k := by
    rw [h.tail, slot_eq h.mask, Nat.mod_mod_of_dvd _ (Nat.pow_dvd_pow 2 hk.le)]
  have hseq : toSizeT (q.tailSeq + q.mask + 1) = (n + 2 ^ k) % 2 ^ 64 := by
    rw [h.tail, h.mask, add_assoc, ← Nat.cast_succ, Nat.succ_eq_add_one, Nat.sub_add_cancel hpos,
      toSizeT_add]
  have hbuffer : (q.release q.tailSeq).buffer = Function.update q.buffer (n % 2 ^ k)
      { q.buffer (n % 2 ^ k) with seq := (n + 2 ^ k) % 2 ^ 64 } := by
    rw [← hslot, ← hseq]
    rfl
  constructor
  · exact h.mask
  · change toSizeT (q.tailSeq + 1) = _
    rw [h.tail, toSizeT_succ]
  · refine h.head.trans ?_
    rw [List.length_cons, Nat.add_assoc, Nat.add_comm l.length]
  · omega
  · intro i out hget
    have hi := (List.getElem?_eq_some_iff.1 hget).1
    have hne : n % 2 ^ k ≠ (n + (i + 1)) % 2 ^ k := slot_ne (i := 0) (Nat.succ_pos i) (by omega)
    rw [hbuffer, Nat.add_assoc, Nat.add_comm 1, Function.update_of_ne hne.symm]
    exact h.held (i + 1) out hget
  · intro i hi hi'
    rw [hbuffer, Nat.add_assoc, Nat.add_comm 1]
    rcases Nat.lt_or_ge (i + 1) (2 ^ k) with hlt | hge
    · have hne : n % 2 ^ k ≠ (n + (i + 1)) % 2 ^ k := slot_ne (i := 0) (Nat.succ_pos i) (by omega)
      rw [Function.update_of_ne hne.symm]
      exact h.free (i + 1) (Nat.succ_le_succ hi) hlt
    · -- the slot that was released is the last one of the next lap
      have hlast : i + 1 = 2 ^ k := by omega
      rw [hlast, Nat.add_mod_right, Function.update_self]

end Represents

/-! ## The calls -/

/-- `enqueue` with a free slot at its ticket writes it, once its compare-exchange does
    not fail. -/
theorem enqueueLoop_accepts (data : α) (flags : List Bool)
    (hdif : dif (q.node q.headSeq).seq q.headSeq = 0) :
    (∀ r, q.enqueueLoop data q.headSeq flags = some r →
      r = (q.accept data q.headSeq, .enqueued true)) ∧
    (false ∈ flags → (q.enqueueLoop data q.headSeq flags).isSome) := by
  induction flags with
  | nil => exact ⟨nofun, nofun⟩
  | cons spurious flags ih =>
    unfold enqueueLoop
    simp only [hdif, if_true]
    cases spurious with
    | false =>
      simp only [and_self, if_true]
      constructor
      · intro r hr
        exact (Option.some.inj hr).symm
      · exact fun _ => rfl
    | true =>
      simp only [Bool.true_eq_false, and_false, if_false, List.mem_cons, Bool.false_eq_true,
        false_or]
      exact ih

/-- `enqueue` with a slot behind its ticket leaves the queue as it is. -/
theorem enqueueLoop_rejects (data : α) (flags : List Bool)
    (hdif : dif (q.node q.headSeq).seq q.headSeq < 0) :
    (∀ r, q.enqueueLoop data q.headSeq flags = some r → r = (q, .enqueued false)) ∧
    (false ∈ flags → (q.enqueueLoop data q.headSeq flags).isSome) := by
  cases flags with
  | nil => exact ⟨nofun, nofun⟩
  | cons spurious flags =>
    unfold enqueueLoop
    simp only [if_neg hdif.ne, if_pos hdif]
    constructor
    · intro r hr
      exact (Option.some.inj hr).symm
    · exact fun _ => rfl

theorem dequeueLoop_releases
    (hdif : dif (q.node q.tailSeq).seq (toSizeT (q.tailSeq + 1)) = 0) :
    (∀ r, q.dequeueLoop q.tailSeq flags = some r →
      r = (q.release q.tailSeq, .dequeued (q.node q.tailSeq).data)) ∧
    (false ∈ flags → (q.dequeueLoop q.tailSeq flags).isSome) := by
  induction flags with
  | nil => exact ⟨nofun, nofun⟩
  | cons spurious flags ih =>
    unfold dequeueLoop
    simp only [hdif, if_true]
    cases spurious with
    | false =>
      simp only [and_self, if_true]
      constructor
      · intro r hr
        exact (Option.some.inj hr).symm
      · exact fun _ => rfl
    | true =>
      simp only [Bool.true_eq_false, and_false, if_false, List.mem_cons, Bool.false_eq_true,
        false_or]
      exact ih

theorem dequeueLoop_empty (hdif : dif (q.node q.tailSeq).seq (toSizeT (q.tailSeq + 1)) < 0) :
    (∀ r, q.dequeueLoop q.tailSeq flags = some r → r = (q, .empty)) ∧
    (false ∈ flags → (q.dequeueLoop q.tailSeq flags).isSome) := by
  cases flags with
  | nil => exact ⟨nofun, nofun⟩
  | cons spurious flags =>
    unfold dequeueLoop
    simp only [if_neg hdif.ne, if_pos hdif]
    constructor
    · intro r hr
      exact (Option.some.inj hr).symm
    · exact fun _ => rfl

/-- One call does what the list does. -/
theorem Represents.call (h : Represents k n l q) (hk : 1 ≤ k) (hk64 : k < 64) (op : Op α) :
    (∀ r, q.call flags op = some r → r.2 = (fifo (2 ^ k) l op).2 ∧
      ((fifo (2 ^ k) l op).1 = l → r.1 = q) ∧
      ∃ n, Represents k n (fifo (2 ^ k) l op).1 r.1) ∧
    (false ∈ flags → (q.call flags op).isSome) := by
  cases op with
  | enqueue data =>
    have hdif := h.dif_head hk64
    rcases Nat.lt_or_ge l.length (2 ^ k) with hlt | hge
    · rw [if_pos hlt] at hdif
      refine (enqueueLoop_accepts data flags hdif).imp_left fun hcall r hr => ?_
      rw [hcall r hr, fifo, if_neg hlt.ne]
      refine ⟨rfl, fun hl => ?_, n, h.accept hk64 hlt data⟩
      simp at hl
    · have hlen := Nat.le_antisymm h.le hge
      have hpow : (2 : ℤ) ^ 1 ≤ 2 ^ k := pow_le_pow_right₀ (by norm_num) hk
      rw [if_neg (Nat.not_lt.2 hge)] at hdif
      refine (enqueueLoop_rejects data flags (by omega)).imp_left fun hcall r hr => ?_
      rw [hcall r hr, fifo, if_pos hlen]
      exact ⟨rfl, fun _ => rfl, n, h⟩
  | dequeue =>
    have hdif := h.dif_tail hk64
    cases l with
    | nil =>
      rw [if_pos rfl] at hdif
      refine (dequeueLoop_empty (by omega)).imp_left fun hcall r hr => ?_
      rw [hcall r hr]
      exact ⟨rfl, fun _ => rfl, n, h⟩
    | cons data l =>
      rw [if_neg (List.cons_ne_nil data l)] at hdif
      refine (dequeueLoop_releases hdif).imp_left fun hcall r hr => ?_
      have hheld := h.held 0 data rfl
      rw [Nat.add_zero, ← h.node hk64, ← h.tail] at hheld
      rw [hcall r hr, hheld]
      refine ⟨rfl, fun hl => ?_, n + 1, h.release hk64⟩
      exact absurd hl (List.cons_ne_self data l).symm

/-! ## Runs -/

/-- The queue represents the list after every run. -/
theorem represents_of_runs (hk : 1 ≤ k) (hk64 : k < 64) {q₀ : MpmcQueue α}
    (hnew : new (2 ^ k) = .ok q₀) {ops : List (Op α)} (h : Runs q₀ ops q) :
    ∃ n, Represents k n (contents (2 ^ k) ops) q := by
  induction h with
  | nil => exact ⟨0, represents_new hk64 hnew⟩
  | call h hc ih =>
    obtain ⟨n, hrep⟩ := ih
    rw [contents, List.foldl_append]
    exact ((hrep.call hk hk64 _).1 _ hc).2.2

theorem refines (hk : 1 ≤ k) (hk64 : k < 64) (hnew : new (2 ^ k) = .ok q) :
    Refines (2 ^ k) q := by
  intro ops q' hruns op flags
  obtain ⟨n, hrep⟩ := represents_of_runs hk hk64 hnew hruns
  refine (hrep.call hk hk64 op).imp_left fun hcall q'' out hc => ?_
  exact ⟨(hcall _ hc).1, (hcall _ hc).2.1⟩

/-- A call on a queue of size 1 that can take an element returns true. -/
theorem Represents.call_one (h : Represents 0 n l q) (data : α) :
    q.call [false] (.enqueue data) = some (q.accept data q.headSeq, .enqueued true) := by
  have hdif := h.dif_head (by norm_num)
  have hzero : dif (q.node q.headSeq).seq q.headSeq = 0 := by
    rw [hdif]
    split <;> rfl
  obtain ⟨hcall, hsome⟩ := enqueueLoop_accepts data [false] hzero
  obtain ⟨r, hr⟩ := Option.isSome_iff_exists.1 (hsome (List.mem_singleton_self false))
  exact hr.trans (congrArg some (hcall r hr))

/-- A queue of size 1 takes a second element for its only slot. -/
theorem not_refines_one (hnew : new 1 = .ok q) (data : α) : ¬ Refines 1 q := by
  intro hrefines
  have hrep : Represents 0 0 [] q := represents_new (by norm_num) hnew
  have hruns : Runs q ([] ++ [.enqueue data]) (q.accept data q.headSeq) :=
    .call .nil (hrep.call_one data)
  -- the sequence of the full slot is the ticket of the next lap
  have hrep' : Represents 0 0 ([] ++ [data]) (q.accept data q.headSeq) :=
    hrep.accept (by norm_num) (by norm_num) data
  have hout := ((hrefines _ _ hruns (.enqueue data) [false]).1 _ _ (hrep'.call_one data)).1
  cases hout

/-- **The queue is a bounded list for every size that the constructor accepts but 1.** -/
theorem refines_iff [Inhabited α] {size : ℕ} (hsize : size < 2 ^ 64) {q : MpmcQueue α}
    (hnew : new size = .ok q) : Refines size q ↔ 2 ≤ size := by
  obtain ⟨k, hk, rfl⟩ := size_of_new hsize hnew
  constructor
  · intro hrefines
    by_contra hlt
    have hpos := Nat.two_pow_pos k
    have hone : 2 ^ k = 1 := by omega
    rw [hone] at hnew hrefines
    exact not_refines_one hnew default hrefines
  · intro hle
    have hpos : 1 ≤ k := by
      by_contra hzero
      rw [Nat.lt_one_iff.1 (Nat.not_le.1 hzero)] at hle
      omega
    exact refines hpos hk hnew

theorem refines_two : ∃ q : MpmcQueue ℕ, new 2 = .ok q ∧ Refines 2 q := by
  obtain ⟨q, hq⟩ : ∃ q : MpmcQueue ℕ, new 2 = .ok q := ⟨_, rfl⟩
  exact ⟨q, hq, (refines_iff (by norm_num) hq).2 le_rfl⟩

/-- On a queue of size 1 the second element replaces the first. -/
theorem not_refines : ∃ q : MpmcQueue ℕ, new 1 = .ok q ∧ ¬ Refines 1 q := by
  obtain ⟨q, hq⟩ : ∃ q : MpmcQueue ℕ, new 1 = .ok q := ⟨_, rfl⟩
  exact ⟨q, hq, not_refines_one hq 7⟩

end MpmcQueue

end CqlClient
