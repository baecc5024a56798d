/-
  CqlClient formalization — the indexes of the stream allocator.

  The ids are from 1 to `max`, and `allocated_streams_` and `storage_` have `max` elements.
  The id `max` is at the bottom of the stack of the free ids until it is handed out, which is
  when it is the only one left (`Spare.setStream`).  So a run is in bounds exactly when it
  never takes the last free id (`inBounds_iff`).
-/
import CqlClient.StreamStorage

namespace CqlClient

open Slice Word

namespace StreamStorage

variable {α : Type} {max : ℕ}

/-! ## The indexes that are used -/

/-- The indexes on `available_streams_`, `storage_` and `allocated_streams_` in
    `set_stream`. -/
def setStreamIndexes (s : StreamStorage α max) : List ℕ :=
  if max ≤ s.availableStreamsIndex then []
  else
    let output := s.availableStreams s.availableStreamsIndex
    [s.availableStreamsIndex, output, output]

/-- The indexes in `get_stream(input, output, releaseStream)`, likewise. -/
def getStreamIndexes (s : StreamStorage α max) (input : ℕ) (releaseStream : Bool) : List ℕ :=
  input :: if releaseStream then
    input :: if s.allocatedStreams input then [toSizeT (s.availableStreamsIndex - 1), input]
      else []
  else []

/-- The indexes in the constructor: `i - 1`, for each `i` from 1 to `Max`. -/
def newIndexes (max : ℕ) : List ℕ := (List.range max).flatMap fun i => [i, i]

/-- A storage with the ids that it has returned, and the indexes that were used. -/
structure Indexed (α : Type) (max : ℕ) where
  streams : StreamStorage α max
  returned : List ℕ := []
  indexes : List ℕ := newIndexes max

inductive Request (α : Type) where
  | setStream (input : α)
  | getStream (input : ℕ) (releaseStream : Bool)

/-- A call. -/
def Indexed.call (x : Indexed α max) : Request α → Indexed α max
  | .setStream input =>
    { streams := (x.streams.setStream input).1
      returned := (x.streams.setStream input).2.toOption.toList ++ x.returned
      indexes := x.indexes ++ x.streams.setStreamIndexes }
  | .getStream input releaseStream =>
    { x with
      streams := (x.streams.getStream input releaseStream).1
      indexes := x.indexes ++ x.streams.getStreamIndexes input releaseStream }

/-- The runs from a fresh storage; `get_stream` is called with ids that were returned. -/
def indexed (α : Type) (max : ℕ) : System (Indexed α max) (Request α) where
  init x := ∃ storage, x = { streams := new storage }
  step x request x' := x' = x.call request ∧
    ∀ input releaseStream, request = .getStream input releaseStream → input ∈ x.returned

def Indexed.InBounds (x : Indexed α max) : Prop := ∀ i ∈ x.indexes, i < max

/-- It is not the last free id that is taken. -/
def Indexed.LeavesOne (x : Indexed α max) : Request α → Prop
  | .setStream _ => x.streams.availableStreamsIndex + 1 ≠ max
  | .getStream _ _ => True

/-! ## The bottom of the stack -/

/-- The id `max` is at the bottom of the stack, and the others have been in use. -/
structure Spare (x : Indexed α max) : Prop where
  inv : Inv x.streams
  bottom : ∀ i, i + 1 = max → x.streams.availableStreamsIndex ≤ i ∧
    x.streams.availableStreams i = max
  returned : ∀ id ∈ x.returned, id < max

variable {x : Indexed α max}

theorem inBounds_newIndexes : ∀ i ∈ newIndexes max, i < max := by
  intro i hi
  obtain ⟨j, hj, hij⟩ := List.mem_flatMap.1 hi
  have hlt := List.mem_range.1 hj
  have heq : i = j := by simpa using hij
  rwa [heq]

theorem spare_new (storage : ℕ → α) : Spare { streams := (new storage : StreamStorage α max) } :=
  ⟨inv_new storage, fun i hi => ⟨Nat.zero_le i, hi⟩, List.forall_mem_nil _⟩

/-- With another id left, `set_stream` takes one that is less than `max`. -/
theorem Spare.setStream (h : Spare x) (input : α)
    (hone : x.streams.availableStreamsIndex + 1 ≠ max) :
    Spare (x.call (.setStream input)) ∧ ∀ i ∈ x.streams.setStreamIndexes, i < max := by
  rcases Nat.lt_or_ge x.streams.availableStreamsIndex max with hlt | hge
  swap
  · have herror := setStream_error hge input
    refine ⟨⟨h.inv.setStream input, ?_, ?_⟩, ?_⟩
    · simp only [Indexed.call, herror]
      exact h.bottom
    · simp only [Indexed.call, herror]
      exact h.returned
    · rw [setStreamIndexes, if_pos hge]
      exact List.forall_mem_nil _
  obtain ⟨i, rfl⟩ : ∃ i, max = i + 1 := ⟨max - 1, by omega⟩
  obtain ⟨-, hbottom⟩ := h.bottom i rfl
  have hnodup := h.inv.nodup
  generalize hid : x.streams.availableStreams x.streams.availableStreamsIndex = id
  have hfree : x.streams.free = id :: slice x.streams.availableStreams
      (x.streams.availableStreamsIndex + 1) (i + 1) := by
    rw [← hid]
    exact slice_pop _ hlt
  have hrange := (h.inv.mem_free id).1 (by rw [hfree]; exact List.mem_cons_self)
  -- the id at the bottom is another one
  have hne : id ≠ i + 1 := by
    rintro rfl
    rw [hfree] at hnodup
    exact (List.nodup_cons.1 hnodup).1 ((mem_slice _).2 ⟨i, by omega, by omega, hbottom⟩)
  refine ⟨⟨h.inv.setStream input, ?_, ?_⟩, ?_⟩
  · intro j hj
    obtain rfl : j = i := by omega
    simp only [Indexed.call, StreamStorage.setStream, if_neg (not_le.2 hlt)]
    exact ⟨by omega, hbottom⟩
  · simp only [Indexed.call, StreamStorage.setStream, if_neg (not_le.2 hlt), hid]
    exact List.forall_mem_cons.2 ⟨by omega, h.returned⟩
  · rw [setStreamIndexes, if_neg (not_le.2 hlt), hid]
    simp only [List.forall_mem_cons]
    exact ⟨by omega, by omega, by omega, List.forall_mem_nil _⟩

/-- `set_stream` with only one id left takes the one at the bottom. -/
theorem Spare.last (h : Spare x) (hone : x.streams.availableStreamsIndex + 1 = max) :
    max ∈ x.streams.setStreamIndexes := by
  obtain ⟨-, hbottom⟩ := h.bottom _ hone
  rw [setStreamIndexes, if_neg (by omega), hbottom]
  exact List.mem_cons_of_mem _ List.mem_cons_self

theorem Spare.getStream (h : Spare x) (hmax : max < 2 ^ 64) {input : ℕ} (releaseStream : Bool)
    (hinput : input ∈ x.returned) :
    Spare (x.call (.getStream input releaseStream)) ∧
      ∀ i ∈ x.streams.getStreamIndexes input releaseStream, i < max := by
  have hlt := h.returned input hinput
  have hinv := h.inv.getStream hmax input releaseStream
  cases releaseStream with
  | false => exact ⟨⟨hinv, h.bottom, h.returned⟩, by simpa [getStreamIndexes] using hlt⟩
  | true =>
    cases hallocated : x.streams.allocatedStreams input with
    | false =>
      refine ⟨⟨hinv, ?_, h.returned⟩, by simpa [getStreamIndexes, hallocated] using hlt⟩
      simp only [Indexed.call, getStream_released hallocated]
      exact h.bottom
    | true =>
      have hpos := h.inv.index_pos hallocated
      have hindex := h.inv.index_pred hmax hallocated
      refine ⟨⟨hinv, ?_, h.returned⟩, ?_⟩
      · intro i hi
        obtain ⟨hle, hbottom⟩ := h.bottom i hi
        simp only [Indexed.call, StreamStorage.getStream, if_true, hallocated, hindex]
        refine ⟨by omega, ?_⟩
        rw [Function.update_of_ne (by omega)]
        exact hbottom
      · have hle := h.inv.index_le
        simp only [getStreamIndexes, if_true, hallocated, hindex, List.forall_mem_cons]
        exact ⟨hlt, hlt, by omega, hlt, List.forall_mem_nil _⟩

/-! ## Runs -/

theorem inBounds_of_call {request : Request α} (h : (x.call request).InBounds) : x.InBounds := by
  intro i hi
  cases request with
  | setStream | getStream => exact h i (List.mem_append_left _ hi)

/-- As long as a run is in bounds, the id `max` is in reserve. -/
theorem spare_of_reachable (hmax : max < 2 ^ 64) (h : (indexed α max).Reachable x)
    (hbounds : x.InBounds) : Spare x := by
  revert hbounds
  refine h.invariant (I := fun x => x.InBounds → Spare x) ?_ ?_
  · rintro x ⟨storage, rfl⟩ -
    exact spare_new storage
  · rintro x request x' - ih ⟨rfl, hreturned⟩ hbounds
    have hspare := ih (inBounds_of_call hbounds)
    cases request with
    | setStream input =>
      refine (hspare.setStream input fun hone => ?_).1
      exact absurd (hbounds max (List.mem_append_right _ (hspare.last hone))) (lt_irrefl max)
    | getStream input releaseStream =>
      exact (hspare.getStream hmax releaseStream (hreturned input releaseStream rfl)).1

/-- **The bounds.**  The indexes of a run are in bounds just if it never takes the last
    free id. -/
theorem inBounds_iff (hmax : max < 2 ^ 64) {steps : List (Indexed α max × Request α)}
    (h : (indexed α max).Run x steps) :
    (x.InBounds ∧ ∀ step ∈ steps, step.1.InBounds) ↔
      ∀ step ∈ steps, step.1.LeavesOne step.2 := by
  refine h.forall_iff (P := Indexed.InBounds) ?_ ?_
  · rintro x ⟨storage, rfl⟩
    exact inBounds_newIndexes
  · rintro x request x' hreach hbounds ⟨rfl, hreturned⟩
    have hspare := spare_of_reachable hmax hreach hbounds
    cases request with
    | setStream input =>
      constructor
      · intro hbounds' hone
        exact absurd (hbounds' max (List.mem_append_right _ (hspare.last hone))) (lt_irrefl max)
      · intro hone
        exact List.forall_mem_append.2 ⟨hbounds, (hspare.setStream input hone).2⟩
    | getStream input releaseStream =>
      refine iff_of_true ?_ trivial
      exact List.forall_mem_append.2
        ⟨hbounds, (hspare.getStream hmax releaseStream (hreturned input releaseStream rfl)).2⟩

/-- The first of two ids is handed out and released. -/
theorem inBounds_first :
    let x₀ : Indexed ℕ 2 := { streams := new fun _ => 0 }
    let x₁ := x₀.call (.setStream 7)
    (x₁.call (.getStream 1 true)).InBounds := by
  intro x₀ x₁
  have hrun : (indexed ℕ 2).Run x₁ [(x₀, .setStream 7)] :=
    .step (.init ⟨_, rfl⟩) ⟨rfl, nofun⟩
  have hrun' : (indexed ℕ 2).Run (x₁.call (.getStream 1 true))
      [(x₁, .getStream 1 true), (x₀, .setStream 7)] := by
    refine .step hrun ⟨rfl, ?_⟩
    rintro input releaseStream ⟨⟩
    exact List.mem_cons_self
  refine ((inBounds_iff (by norm_num) hrun').2 ?_).1
  simp [Indexed.LeavesOne, x₀, new]

/-- A storage of one id is written behind its end by the first `set_stream`. -/
theorem not_inBounds_one : ¬ ∀ x, (indexed ℕ 1).Reachable x → x.InBounds := by
  intro h
  have hreach : (indexed ℕ 1).Reachable
      (({ streams := new fun _ => 0 } : Indexed ℕ 1).call (.setStream 7)) :=
    .step (.init ⟨_, rfl⟩) ⟨rfl, nofun⟩
  have hbounds := h _ hreach 1 (by decide)
  exact absurd hbounds (lt_irrefl 1)

end StreamStorage

end CqlClient
