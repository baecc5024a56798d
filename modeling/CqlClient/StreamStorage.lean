/-
  CqlClient formalization — the stream allocator (`cql_stream_storage.hpp`).

  The free ids are `available_streams_` from `available_streams_index_` on, a
  stack.  Over the code stands the map from ids to values that the allocator is
  for (`holder`): `set_stream` adds an id that is not in it, and a releasing
  `get_stream` takes one out.  `allocated_streams_` and `storage_` are read as
  maps on the ids.
-/
import CqlClient.Lib.Slice
import CqlClient.Lib.Run
import CqlClient.Basic

namespace CqlClient

open Slice Word

variable {α : Type} {max : ℕ}

structure StreamStorage (α : Type) (max : ℕ) where
  availableStreamsIndex : ℕ
  availableStreams : ℕ → ℕ
  allocatedStreams : ℕ → Bool
  storage : ℕ → α

def noAvailableStreams : Error :=
  ⟨cqlErrorSourceLibrary, cqlErrorLibNoStreams, ascii "no available streams"⟩

def alreadyReleased : Error :=
  ⟨cqlErrorSourceLibrary, cqlErrorLibNoStreams, ascii "this stream has already been released"⟩

namespace StreamStorage

/-- `StreamStorage()`; `storage_` is left as it is. -/
def new (storage : ℕ → α) : StreamStorage α max where
  availableStreamsIndex := 0
  availableStreams i := i + 1
  allocatedStreams _ := false
  storage := storage

/-- `set_stream(input, output)`: the id, or the error. -/
def setStream (s : StreamStorage α max) (input : α) : StreamStorage α max × Except Error ℕ :=
  if max ≤ s.availableStreamsIndex then (s, .error noAvailableStreams)
  else
    let output := s.availableStreams s.availableStreamsIndex
    ({ availableStreamsIndex := s.availableStreamsIndex + 1
       availableStreams := s.availableStreams
       allocatedStreams := Function.update s.allocatedStreams output true
       storage := Function.update s.storage output input }, .ok output)

/-- `get_stream(input, output, releaseStream)`: `output`, and the error if any.
    `output` is assigned in both cases. -/
def getStream (s : StreamStorage α max) (input : ℕ) (releaseStream : Bool) :
    StreamStorage α max × α × Option Error :=
  let output := s.storage input
  if releaseStream then
    if s.allocatedStreams input then
      let index := toSizeT (s.availableStreamsIndex - 1)
      ({ availableStreamsIndex := index
         availableStreams := Function.update s.availableStreams index input
         allocatedStreams := Function.update s.allocatedStreams input false
         storage := s.storage }, output, none)
    else (s, output, some alreadyReleased)
  else (s, output, none)

/-- `available_streams()`. -/
def availableCount (s : StreamStorage α max) : ℕ := toSizeT (max - s.availableStreamsIndex)

/-! ## The free list -/

/-- The free ids, the next one first. -/
def free (s : StreamStorage α max) : List ℕ :=
  slice s.availableStreams s.availableStreamsIndex max

/-- The allocated ids. -/
def allocated (s : StreamStorage α max) : Finset ℕ :=
  (Finset.Icc 1 max).filter fun id => s.allocatedStreams id = true

/-- The free list has the ids that are not allocated, each once. -/
structure Inv (s : StreamStorage α max) : Prop where
  index_le : s.availableStreamsIndex ≤ max
  nodup : s.free.Nodup
  mem_free : ∀ id, id ∈ s.free ↔ 1 ≤ id ∧ id ≤ max ∧ s.allocatedStreams id = false
  range : ∀ id, s.allocatedStreams id = true → 1 ≤ id ∧ id ≤ max

variable {s : StreamStorage α max}

/-- The index counts the allocated ids. -/
theorem Inv.card (h : Inv s) : s.allocated.card = s.availableStreamsIndex := by
  have hfree : (Finset.Icc 1 max).filter (fun id => ¬ s.allocatedStreams id = true) =
      s.free.toFinset := by
    ext id
    simp [h.mem_free, and_assoc]
  have hsum := Finset.card_filter_add_card_filter_not (s := Finset.Icc 1 max)
    (fun id => s.allocatedStreams id = true)
  rw [hfree, List.toFinset_card_of_nodup h.nodup, Nat.card_Icc, free, length_slice] at hsum
  have := h.index_le
  rw [allocated]
  omega

/-- The ids that are available and those that are allocated are all. -/
theorem Inv.availableCount (h : Inv s) (hmax : max < 2 ^ 64) :
    s.availableCount + s.allocated.card = max := by
  have hle := h.index_le
  have hcount : s.availableCount = max - s.availableStreamsIndex := by
    rw [StreamStorage.availableCount, ← Nat.cast_sub hle]
    exact toSizeT_natCast (by omega)
  rw [hcount, h.card]
  omega

theorem inv_new (storage : ℕ → α) : Inv (new storage : StreamStorage α max) := by
  have hmem : ∀ id, id ∈ (new storage : StreamStorage α max).free ↔ 1 ≤ id ∧ id ≤ max := by
    intro id
    simp only [free, new, slice, List.mem_map, List.mem_range'_1]
    constructor
    · rintro ⟨i, hi, rfl⟩
      omega
    · rintro ⟨h₁, h₂⟩
      exact ⟨id - 1, by omega, by omega⟩
  refine ⟨Nat.zero_le _, ?_, fun id => ?_, fun id h => by cases h⟩
  · refine List.Nodup.map (fun a b hab => ?_) List.nodup_range'
    simpa [new] using hab
  · rw [hmem]
    simp [new]

/-! ## The two operations -/

theorem setStream_error (h : max ≤ s.availableStreamsIndex) (input : α) :
    s.setStream input = (s, .error noAvailableStreams) := if_pos h

/-- `set_stream` with a free id left. -/
theorem setStream_ok (h : s.availableStreamsIndex < max) (input : α) :
    ∃ id rest, s.free = id :: rest ∧ (s.setStream input).2 = .ok id ∧
      (s.setStream input).1.free = rest ∧
      (s.setStream input).1.availableStreamsIndex = s.availableStreamsIndex + 1 ∧
      (s.setStream input).1.allocatedStreams = Function.update s.allocatedStreams id true ∧
      (s.setStream input).1.storage = Function.update s.storage id input := by
  rw [setStream, if_neg (by omega)]
  exact ⟨_, _, slice_pop _ h, rfl, rfl, rfl, rfl, rfl⟩

/-- **`set_stream` keeps the free list.** -/
theorem Inv.setStream (hs : Inv s) (input : α) : Inv (s.setStream input).1 := by
  rcases Nat.lt_or_ge s.availableStreamsIndex max with h | h
  swap
  · rw [setStream_error h]
    exact hs
  obtain ⟨id, rest, hfree, -, hfree', hindex, halloc, -⟩ := setStream_ok h input
  have hnodup := hs.nodup
  rw [hfree, List.nodup_cons] at hnodup
  have hid := (hs.mem_free id).1 (by simp [hfree])
  refine ⟨by omega, hfree' ▸ hnodup.2, fun i => ?_, fun i hi => ?_⟩
  · have hi := hs.mem_free i
    rw [hfree, List.mem_cons] at hi
    rw [hfree', halloc]
    by_cases hii : i = id
    · subst hii
      simp [hnodup.1]
    · rw [Function.update_of_ne hii, ← hi]
      simp [hii]
  · rw [halloc] at hi
    by_cases hii : i = id
    · subst hii
      exact ⟨hid.1, hid.2.1⟩
    · rw [Function.update_of_ne hii] at hi
      exact hs.range i hi

/-- While an id is allocated the index is not 0. -/
theorem Inv.index_pos (hs : Inv s) {id : ℕ} (h : s.allocatedStreams id = true) :
    0 < s.availableStreamsIndex := by
  rw [← hs.card, Finset.card_pos]
  exact ⟨id, by simpa [allocated, h] using hs.range id h⟩

theorem Inv.index_pred (hs : Inv s) (hmax : max < 2 ^ 64) {id : ℕ}
    (h : s.allocatedStreams id = true) :
    toSizeT (s.availableStreamsIndex - 1) = s.availableStreamsIndex - 1 := by
  have hle := hs.index_le
  rw [← Nat.cast_pred (hs.index_pos h)]
  exact toSizeT_natCast (by omega)

/-- A releasing `get_stream` of an allocated id. -/
theorem getStream_release (hs : Inv s) (hmax : max < 2 ^ 64) {id : ℕ}
    (h : s.allocatedStreams id = true) :
    (s.getStream id true).2 = (s.storage id, none) ∧
      (s.getStream id true).1.free = id :: s.free ∧
      (s.getStream id true).1.availableStreamsIndex + 1 = s.availableStreamsIndex ∧
      (s.getStream id true).1.allocatedStreams = Function.update s.allocatedStreams id false ∧
      (s.getStream id true).1.storage = s.storage := by
  have hpos := hs.index_pos h
  have hindex := hs.index_pred hmax h
  have heq : s.getStream id true =
      (⟨s.availableStreamsIndex - 1,
        Function.update s.availableStreams (s.availableStreamsIndex - 1) id,
        Function.update s.allocatedStreams id false, s.storage⟩, s.storage id, none) := by
    simp only [getStream, if_true, h, hindex]
  rw [heq]
  refine ⟨rfl, ?_, Nat.sub_add_cancel hpos, rfl, rfl⟩
  have hle := hs.index_le
  rw [free, slice_push _ (by omega), Nat.sub_add_cancel hpos]
  rfl

theorem getStream_released {id : ℕ} (h : s.allocatedStreams id = false) :
    s.getStream id true = (s, s.storage id, some alreadyReleased) := by
  simp [getStream, h]

/-- **`get_stream` keeps the free list.** -/
theorem Inv.getStream (hs : Inv s) (hmax : max < 2 ^ 64) (id : ℕ) (releaseStream : Bool) :
    Inv (s.getStream id releaseStream).1 := by
  rcases releaseStream with _ | _
  · exact hs
  rcases h : s.allocatedStreams id with _ | _
  · rw [getStream_released h]
    exact hs
  obtain ⟨-, hfree, hindex, halloc, -⟩ := getStream_release hs hmax h
  have hid := hs.range id h
  have hmem : id ∉ s.free := fun hm => by
    have := (hs.mem_free id).1 hm
    rw [h] at this
    cases this.2.2
  refine ⟨by have := hs.index_le; omega, ?_, fun i => ?_, fun i hi => ?_⟩
  · rw [hfree, List.nodup_cons]
    exact ⟨hmem, hs.nodup⟩
  · rw [hfree, halloc, List.mem_cons]
    by_cases hii : i = id
    · subst hii
      simp [hid]
    · rw [Function.update_of_ne hii, hs.mem_free]
      simp [hii]
  · rw [halloc] at hi
    by_cases hii : i = id
    · subst hii
      exact hid
    · rw [Function.update_of_ne hii] at hi
      exact hs.range i hi

/-! ## Runs -/

/-- A call and what it returned. -/
inductive Call (α : Type) where
  | setStream (input : α) (output : Except Error ℕ)
  | getStream (input : ℕ) (releaseStream : Bool) (output : α) (error : Option Error)

/-- The map from ids to values that the calls made, the last call first: the id
    is outstanding with the value of the last `set_stream` that returned it. -/
def holder : List (Call α) → ℕ → Option α
  | [], _ => none
  | .setStream input (.ok output) :: calls, id =>
    if id = output then some input else holder calls id
  | .setStream _ (.error _) :: calls, id => holder calls id
  | .getStream input releaseStream _ _ :: calls, id =>
    if releaseStream = true ∧ id = input then none else holder calls id

/-- The runs of the allocator, with the calls made so far. -/
def system (α : Type) (max : ℕ) : System (StreamStorage α max × List (Call α)) (Call α) where
  init s := s.2 = [] ∧ ∃ storage, s.1 = new storage
  step s call s' := s'.2 = call :: s.2 ∧
    match call with
    | .setStream input output => s.1.setStream input = (s'.1, output)
    | .getStream input releaseStream output error =>
      input ≤ max ∧ s.1.getStream input releaseStream = (s'.1, output, error)

/-- The code's arrays and the map say the same. -/
structure Refines (s : StreamStorage α max) (calls : List (Call α)) : Prop where
  inv : Inv s
  allocated : ∀ id, s.allocatedStreams id = (holder calls id).isSome
  storage : ∀ id v, holder calls id = some v → s.storage id = v

/-- The map after a `set_stream`. -/
theorem Refines.setStream {calls : List (Call α)} (hs : Refines s calls) (input : α) :
    Refines (s.setStream input).1 (.setStream input (s.setStream input).2 :: calls) := by
  rcases Nat.lt_or_ge s.availableStreamsIndex max with h | h
  swap
  · rw [setStream_error h]
    exact ⟨hs.inv, hs.allocated, hs.storage⟩
  obtain ⟨output, rest, -, hout, -, -, halloc, hstore⟩ := setStream_ok h input
  refine ⟨hs.inv.setStream input, fun id => ?_, fun id v hv => ?_⟩
  · rw [halloc, hout, holder]
    by_cases hid : id = output
    · subst hid
      simp
    · rw [Function.update_of_ne hid, if_neg hid, hs.allocated]
  · rw [hout, holder] at hv
    rw [hstore]
    by_cases hid : id = output
    · subst hid
      rw [if_pos rfl] at hv
      cases hv
      exact Function.update_self ..
    · rw [if_neg hid] at hv
      rw [Function.update_of_ne hid, hs.storage id v hv]

/-- The map after a `get_stream`. -/
theorem Refines.getStream {calls : List (Call α)} (hs : Refines s calls) (hmax : max < 2 ^ 64)
    (input : ℕ) (releaseStream : Bool) (output : α) (error : Option Error) :
    Refines (s.getStream input releaseStream).1
      (.getStream input releaseStream output error :: calls) := by
  refine ⟨hs.inv.getStream hmax input releaseStream, fun id => ?_, fun id v hv => ?_⟩
  · rw [holder]
    rcases releaseStream with _ | _
    · exact hs.allocated id
    rcases h : s.allocatedStreams input with _ | _
    · rw [getStream_released h, hs.allocated]
      by_cases hid : id = input
      · subst hid
        rw [if_pos ⟨rfl, rfl⟩, ← hs.allocated, h]
        rfl
      · rw [if_neg (by simp [hid])]
    · rw [(getStream_release hs.inv hmax h).2.2.2.1]
      by_cases hid : id = input
      · subst hid
        simp
      · rw [Function.update_of_ne hid, hs.allocated, if_neg (by simp [hid])]
  · rw [holder] at hv
    have hv' : holder calls id = some v := by
      split at hv
      · cases hv
      · exact hv
    rw [← hs.storage id v hv']
    rcases releaseStream with _ | _
    · rfl
    rcases h : s.allocatedStreams input with _ | _
    · rw [getStream_released h]
    · rw [(getStream_release hs.inv hmax h).2.2.2.2]

/-- **The code refines the map** in every run. -/
theorem refines_of_reachable (hmax : max < 2 ^ 64) {s : StreamStorage α max × List (Call α)}
    (h : (system α max).Reachable s) : Refines s.1 s.2 := by
  refine h.invariant (I := fun s => Refines s.1 s.2) ?_ ?_
  · rintro ⟨s, calls⟩ ⟨rfl, storage, rfl⟩
    exact ⟨inv_new storage, fun id => rfl, fun id v hv => by cases hv⟩
  · rintro ⟨s, calls⟩ call ⟨s', calls'⟩ - hs ⟨rfl, hstep⟩
    cases call with
    | setStream input output =>
      have h := hs.setStream input
      rwa [hstep] at h
    | getStream input releaseStream output error =>
      have h := hs.getStream hmax input releaseStream output error
      rwa [hstep.2] at h

/-! ## The allocator -/

/-- What the allocator promises after the calls `calls`. -/
structure Allocates (s : StreamStorage α max) (calls : List (Call α)) : Prop where
  /-- the free list, and the index -/
  inv : Inv s
  card : s.availableStreamsIndex = s.allocated.card
  allocated : ∀ id, id ∈ s.allocated ↔ ∃ v, holder calls id = some v
  /-- `set_stream` returns an id that is not outstanding, or all of them are -/
  setStream : ∀ input,
    (∃ id, (s.setStream input).2 = .ok id ∧ 1 ≤ id ∧ id ≤ max ∧ holder calls id = none) ∨
    (s.setStream input = (s, .error noAvailableStreams) ∧ s.allocated = Finset.Icc 1 max)
  /-- `get_stream` of an outstanding id returns the value of the last `set_stream`
      that returned it -/
  getStream : ∀ id releaseStream v, holder calls id = some v →
    (s.getStream id releaseStream).2 = (v, none)
  /-- releasing any other id fails and changes nothing -/
  released : ∀ id, holder calls id = none →
    s.getStream id true = (s, s.storage id, some alreadyReleased)
  available : s.availableCount + s.allocated.card = max

/-- **The stream allocator**: in every run from a fresh one. -/
theorem allocates_of_reachable (hmax : max < 2 ^ 64) {s : StreamStorage α max}
    {calls : List (Call α)} (h : (system α max).Reachable (s, calls)) : Allocates s calls := by
  obtain ⟨hinv, halloc, hstore⟩ : Refines s calls := refines_of_reachable hmax h
  have hnone : ∀ id, holder calls id = none → s.allocatedStreams id = false := by
    intro id hid
    rw [halloc, hid]
    rfl
  refine ⟨hinv, hinv.card.symm, fun id => ?_, fun input => ?_, fun id releaseStream v hv => ?_,
    fun id hid => getStream_released (hnone id hid), ?_⟩
  · rw [← Option.isSome_iff_exists, ← halloc, StreamStorage.allocated, Finset.mem_filter,
      Finset.mem_Icc]
    exact ⟨fun hid => hid.2, fun hid => ⟨hinv.range id hid, hid⟩⟩
  · rcases Nat.lt_or_ge s.availableStreamsIndex max with hlt | hge
    · obtain ⟨id, rest, hfree, hout, -⟩ := setStream_ok hlt input
      obtain ⟨h₁, h₂, h₃⟩ := (hinv.mem_free id).1 (by simp [hfree])
      refine .inl ⟨id, hout, h₁, h₂, ?_⟩
      rw [halloc] at h₃
      simpa using h₃
    · refine .inr ⟨setStream_error hge input, ?_⟩
      refine Finset.eq_of_subset_of_card_le (s := s.allocated) (Finset.filter_subset _ _) ?_
      rw [hinv.card, Nat.card_Icc]
      omega
  · have hid : s.allocatedStreams id = true := by rw [halloc, hv]; rfl
    rcases releaseStream with _ | _
    · rw [StreamStorage.getStream, ← hstore id v hv]
      rfl
    · rw [(getStream_release hinv hmax hid).1, hstore id v hv]
  · exact hinv.availableCount hmax

/-- Two ids: one is handed out, released and handed out again. -/
theorem allocates_two :
    let s₀ : StreamStorage ℕ 2 := new fun _ => 0
    let s₁ := (s₀.setStream 7).1
    let s₂ := (s₁.getStream 1 true).1
    Allocates (s₂.setStream 8).1
      [.setStream 8 (.ok 1), .getStream 1 true 7 none, .setStream 7 (.ok 1)] := by
  intro s₀ s₁ s₂
  have h₀ : (system ℕ 2).Reachable (s₀, []) := .init ⟨rfl, _, rfl⟩
  have h₁ : (system ℕ 2).Reachable (s₁, [.setStream 7 (.ok 1)]) := h₀.step ⟨rfl, rfl⟩
  have h₂ : (system ℕ 2).Reachable (s₂, [.getStream 1 true 7 none, .setStream 7 (.ok 1)]) :=
    h₁.step ⟨rfl, by decide, rfl⟩
  exact allocates_of_reachable (by decide) (h₂.step ⟨rfl, rfl⟩)

end StreamStorage

end CqlClient
