/-
  CqlClient formalization — `std::map<std::string, β>` as the list of its
  entries in key order.

  `insert` keeps the order (`Sorted.insertNew`) and adds an entry whose key is
  new (`mem_insertNew`), so that entries with distinct keys, inserted one by one,
  are the entries of the result (`mem_foldl_insertNew`).  Two maps with the same
  entries are the same (`Sorted.eq_of_mem_iff`).
-/
import CqlClient.Serialization

namespace CqlClient

variable {β : Type}

/-! ## The order of the keys -/

theorem key_lt_trans {a b c : List UInt8} (hab : a < b) (hbc : b < c) : a < c :=
  haveI : Trans (· < · : UInt8 → UInt8 → Prop) (· < ·) (· < ·) := ⟨UInt8.lt_trans⟩
  List.lt_trans hab hbc

theorem key_lt_of_not {a b : List UInt8} (hne : a ≠ b) (hlt : ¬ a < b) : b < a := by
  rcases List.le_iff_lt_or_eq.1 (List.not_lt.1 hlt) with h | h
  · exact h
  · exact absurd h.symm hne

namespace StringMap

/-- The keys increase. -/
def Sorted (m : StringMap β) : Prop := m.Pairwise fun it it' => it.1 < it'.1

/-- No key occurs twice. -/
def Distinct (m : StringMap β) : Prop := m.Pairwise fun it it' => it.1 ≠ it'.1

instance (m : StringMap β) : Decidable m.Sorted := inferInstanceAs (Decidable (List.Pairwise _ _))

instance (m : StringMap β) : Decidable m.Distinct :=
  inferInstanceAs (Decidable (List.Pairwise _ _))

theorem Sorted.distinct {m : StringMap β} (h : m.Sorted) : m.Distinct := by
  refine List.Pairwise.imp ?_ h
  intro it it' hlt heq
  rw [heq] at hlt
  exact List.lt_irrefl _ hlt

theorem Distinct.nodup {m : StringMap β} (h : m.Distinct) : m.Nodup := by
  refine List.Pairwise.imp ?_ h
  rintro it _ hne rfl
  exact hne rfl

/-- A map is determined by its entries. -/
theorem Sorted.eq_of_mem_iff {m m' : StringMap β} (h : m.Sorted) (h' : m'.Sorted)
    (hmem : ∀ it, it ∈ m ↔ it ∈ m') : m = m' := by
  have hperm : m.Perm m' :=
    (List.perm_ext_iff_of_nodup h.distinct.nodup h'.distinct.nodup).2 hmem
  refine List.Perm.eq_of_pairwise ?_ h h' hperm
  intro it it' _ _ hlt hgt
  exact absurd (key_lt_trans hlt hgt) (List.lt_irrefl _)

/-! ## `find` -/

theorem lookup_eq_some {m : StringMap β} (h : m.Distinct) {k : List UInt8} {v : β} :
    m.lookup k = some v ↔ (k, v) ∈ m := by
  induction m with
  | nil => simp
  | cons it m ih =>
    obtain ⟨k', v'⟩ := it
    obtain ⟨hk', hm⟩ := List.pairwise_cons.1 h
    rw [List.lookup_cons, List.mem_cons, Prod.mk.injEq]
    by_cases hk : k = k'
    · subst hk
      have hout : (k, v) ∉ m := by
        intro hmem
        exact hk' _ hmem rfl
      simp [hout, eq_comm]
    · simp [hk, beq_false_of_ne hk, ih hm]

/-- Where no key occurs twice, the entries decide what is found. -/
theorem lookup_congr {m m' : StringMap β} (h : m.Distinct) (h' : m'.Distinct)
    (hmem : ∀ it, it ∈ m ↔ it ∈ m') (k : List UInt8) : m.lookup k = m'.lookup k := by
  ext v
  rw [lookup_eq_some h, lookup_eq_some h', hmem]

/-! ## `insert` -/

theorem mem_of_mem_insertNew {m : StringMap β} {k : List UInt8} {v : β} {it : List UInt8 × β}
    (h : it ∈ m.insertNew k v) : it = (k, v) ∨ it ∈ m := by
  induction m with
  | nil => exact Or.inl (List.mem_singleton.1 h)
  | cons it' m ih =>
    rw [insertNew] at h
    split at h
    · exact Or.inr h
    split at h
    · exact List.mem_cons.1 h
    rcases List.mem_cons.1 h with rfl | h
    · exact Or.inr List.mem_cons_self
    · exact (ih h).imp_right (List.mem_cons_of_mem _)

/-- An entry with a new key is added. -/
theorem mem_insertNew {m : StringMap β} {k : List UInt8} {v : β} (hk : ∀ it ∈ m, it.1 ≠ k)
    (it : List UInt8 × β) : it ∈ m.insertNew k v ↔ it = (k, v) ∨ it ∈ m := by
  refine ⟨mem_of_mem_insertNew, ?_⟩
  induction m with
  | nil => simp [insertNew]
  | cons it' m ih =>
    obtain ⟨hne, hm⟩ := List.forall_mem_cons.1 hk
    have ih := ih hm
    rw [insertNew, if_neg (Ne.symm hne)]
    split
    · exact List.mem_cons.2
    · rintro (h | h)
      · exact List.mem_cons_of_mem _ (ih (Or.inl h))
      rcases List.mem_cons.1 h with rfl | h
      · exact List.mem_cons_self
      · exact List.mem_cons_of_mem _ (ih (Or.inr h))

theorem length_insertNew_le (m : StringMap β) (k : List UInt8) (v : β) :
    (m.insertNew k v).length ≤ m.length + 1 := by
  induction m with
  | nil => simp [insertNew]
  | cons it m ih =>
    rw [insertNew]
    split
    · simp
    split
    · simp
    · simpa using ih

theorem Sorted.insertNew {m : StringMap β} (h : m.Sorted) (k : List UInt8) (v : β) :
    (m.insertNew k v).Sorted := by
  induction m with
  | nil => exact List.pairwise_singleton _ _
  | cons it m ih =>
    obtain ⟨hlt, hm⟩ := List.pairwise_cons.1 h
    rw [StringMap.insertNew]
    split
    · exact h
    split
    · rename_i hk
      refine List.Pairwise.cons ?_ h
      rintro it' (_ | ⟨_, hit'⟩)
      · exact hk
      · exact key_lt_trans hk (hlt it' hit')
    · rename_i hne hk
      refine List.Pairwise.cons ?_ (ih hm)
      intro it' hit'
      rcases mem_of_mem_insertNew hit' with rfl | hit'
      · exact key_lt_of_not hne hk
      · exact hlt it' hit'

/-! ## Entries inserted one by one -/

theorem Sorted.foldl_insertNew (entries : StringMap β) {m : StringMap β} (h : m.Sorted) :
    (entries.foldl (fun m it => m.insertNew it.1 it.2) m).Sorted := by
  induction entries generalizing m with
  | nil => exact h
  | cons it entries ih => exact ih (h.insertNew it.1 it.2)

theorem mem_foldl_insertNew {entries m : StringMap β} (hentries : entries.Distinct)
    (hnew : ∀ it ∈ m, ∀ it' ∈ entries, it.1 ≠ it'.1) (it : List UInt8 × β) :
    it ∈ entries.foldl (fun m it => m.insertNew it.1 it.2) m ↔ it ∈ entries ∨ it ∈ m := by
  induction entries generalizing m with
  | nil => simp
  | cons it' entries ih =>
    obtain ⟨hit', hentries⟩ := List.pairwise_cons.1 hentries
    have hmem := mem_insertNew (v := it'.2) (fun it hit => hnew it hit it' List.mem_cons_self)
    have hnew' : ∀ it ∈ m.insertNew it'.1 it'.2, ∀ it'' ∈ entries, it.1 ≠ it''.1 := by
      intro it hit it'' hit''
      rcases (hmem it).1 hit with rfl | hit
      · exact hit' it'' hit''
      · exact hnew it hit it'' (List.mem_cons_of_mem _ hit'')
    rw [List.foldl_cons, ih hentries hnew', hmem, List.mem_cons]
    tauto

end StringMap

end CqlClient
