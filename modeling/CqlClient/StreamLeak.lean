/-
  CqlClient formalization — streams that are never released.

  With every frame answered its stream should be free again.  A response that is
  not a RESULT, and a RESULT of kind keyspace, leaves its stream allocated for
  good: a run has no leak exactly when all its responses release their streams
  (`noLeak_iff`).
-/
import CqlClient.Correlation

namespace CqlClient

open StreamStorage

namespace Core
variable {s s' : Core} {answered : List ℕ} {f : SentFrame} {message : Message}

/-- The allocated streams are those of the frames that wait for their answer. -/
def NoLeak (s : Core) (answered : List ℕ) : Prop :=
  ∀ id, s.streamStorage.allocatedStreams id = true ↔
    ∃ k f, s.Unanswered answered k f ∧ f.stream = id

/-- A frame is sent: its stream is allocated, and it waits. -/
theorem NoLeak.sends (h : s.NoLeak answered) (hans : s.Answers answered)
    (hsends : s.Sends f s') : s'.NoLeak answered := by
  intro id
  rw [hsends.allocated]
  by_cases hid : id = f.stream
  · subst hid
    have hnew : s.writes.length ∉ answered := fun hmem =>
      absurd (hans.known _ hmem) (Nat.lt_irrefl _)
    simp only [if_true, true_iff]
    exact ⟨s.writes.length, f, ⟨(hsends.frames _ _).2 (.inr ⟨rfl, rfl⟩), hnew⟩, rfl⟩
  · rw [if_neg hid, h id]
    constructor
    · rintro ⟨k, g, ⟨hk, ha⟩, hg⟩
      exact ⟨k, g, ⟨(hsends.frames k g).2 (.inl hk), ha⟩, hg⟩
    · rintro ⟨k, g, ⟨hk, ha⟩, hg⟩
      rcases (hsends.frames k g).1 hk with hk | ⟨-, rfl⟩
      · exact ⟨k, g, ⟨hk, ha⟩, hg⟩
      · exact absurd hg.symm hid

theorem NoLeak.own (h : s.NoLeak answered) (hans : s.Answers answered) (hown : s.Own s') :
    s'.NoLeak answered := by
  rcases hown with rfl | ⟨f, -, hsends⟩
  · exact h
  · exact h.sends hans hsends

/-- **Without a response nothing leaks.** -/
theorem NoLeak.acts (h : s.NoLeak answered) (hans : s.Answers answered) (hacts : s.Acts s') :
    s'.NoLeak answered := by
  cases hacts with
  | own hown => exact h.own hans hown
  | output bytes heq =>
    subst heq
    intro id
    simp only [Unanswered, s.frame_output bytes]
    exact h id
  | request hreq =>
    rcases hreq with ⟨r, f, -, hres, -, hsends⟩ | ⟨r, -, -, -, rfl⟩
    · have h' : ({ s with requests := s.requests ++ [r] } : Core).NoLeak answered := h
      exact h'.sends (hans.request hres) hsends
    · exact h

/-- A stream that its response did not release is leaked. -/
theorem not_noLeak_of_keeps (hans : s.Answers answered) (hs : StreamStorage.Inv s.streamStorage)
    {k : ℕ} (hk : s.Unanswered answered k f)
    (hown : ({ s with responses := s.responses ++ [message] } : Core).Own s') :
    ¬ s'.NoLeak (answered ++ [k]) := by
  intro h
  have halloc := (hans.waits k f hk).1
  -- the stream is still allocated, and no other frame has it
  have hother : ∀ k' g, s.Frame k' g → k' ∉ answered ++ [k] → g.stream ≠ f.stream := by
    intro k' g hk' ha he
    rw [List.mem_append, List.mem_singleton, not_or] at ha
    exact ha.2 (hans.distinct k' k g f ⟨hk', ha.1⟩ hk he)
  rcases hown with rfl | ⟨g, -, hsends⟩
  · obtain ⟨k', g, ⟨hk', ha⟩, hg⟩ := (h f.stream).1 halloc
    exact hother k' g hk' ha hg
  · have hfree := (Sends.free_stream (s := { s with responses := s.responses ++ [message] }) hs
      hsends).2.2
    obtain ⟨k', g', ⟨hk', ha⟩, hg⟩ := (h f.stream).1 (by
      rw [hsends.allocated]
      split
      · rfl
      · exact halloc)
    rcases (hsends.frames k' g').1 hk' with hk' | ⟨-, rfl⟩
    · exact hother k' g' hk' ha hg
    · change s.streamStorage.allocatedStreams g'.stream = false at hfree
      rw [hg, halloc] at hfree
      cases hfree

/-- **A response leaks its stream exactly when it does not release it.** -/
theorem NoLeak.dispatches_iff (h : s.NoLeak answered) (hans : s.Answers answered) (hinv : s.Inv)
    {k : ℕ} (hk : s.Unanswered answered k f) (hstream : message.stream = f.stream)
    (hd : s.Dispatches message s') : s'.NoLeak (answered ++ [k]) ↔ Releases message := by
  have hid : message.stream.toNat = f.stream := by rw [hstream, Int.toNat_natCast]
  have halloc := (hans.waits k f hk).1
  cases hd with
  | keeps hrel hown =>
    exact iff_of_false (not_noLeak_of_keeps hans hinv.streams hk hown) hrel
  | unknown hrel hfree heq =>
    rw [hid, halloc] at hfree
    cases hfree
  | completes hrel i halloc' hstorage heq =>
    refine iff_of_true (fun id => ?_) hrel
    rw [hid] at halloc' hstorage heq
    have hc : s.Completes f.stream i s' := by
      subst heq
      exact ⟨⟨halloc', hstorage⟩, rfl, rfl, rfl⟩
    simp only [Unanswered, hc.frames]
    rw [hc.allocated hinv.streams]
    by_cases hid' : id = f.stream
    · subst hid'
      simp only [if_true, Bool.false_eq_true, false_iff]
      rintro ⟨k', g, ⟨hk', ha⟩, hg⟩
      rw [List.mem_append, List.mem_singleton, not_or] at ha
      exact ha.2 (hans.distinct k' k g f ⟨hk', ha.1⟩ hk hg)
    · rw [if_neg hid', h id]
      constructor
      · rintro ⟨k', g, ⟨hk', ha⟩, hg⟩
        refine ⟨k', g, ⟨hk', ?_⟩, hg⟩
        rw [List.mem_append, List.mem_singleton, not_or]
        refine ⟨ha, ?_⟩
        rintro rfl
        have : f = g := by
          have hkf := hk.1
          rw [Frame] at hkf hk'
          rw [hkf] at hk'
          cases hk'
          rfl
        exact hid' (this ▸ hg.symm)
      · rintro ⟨k', g, ⟨hk', ha⟩, hg⟩
        exact ⟨k', g, ⟨hk', fun hmem => ha (by simp [hmem])⟩, hg⟩

/-! ## Counting -/

/-- The frame at position `k`, if there is one. -/
def frameAt (s : Core) (k : ℕ) : Option SentFrame :=
  match s.writes[k]? with
  | some (.frame f) => some f
  | _ => none

theorem frameAt_eq_some {k : ℕ} : s.frameAt k = some f ↔ s.Frame k f := by
  rw [frameAt, Frame]
  rcases s.writes[k]? with _ | _ | _ <;> simp

/-- The positions of the frames that wait for their answer. -/
def unanswered (s : Core) (answered : List ℕ) : Finset ℕ :=
  (Finset.range s.writes.length).filter fun k => k ∉ answered ∧ (s.frameAt k).isSome = true

theorem mem_unanswered {k : ℕ} : k ∈ s.unanswered answered ↔ ∃ f, s.Unanswered answered k f := by
  rw [unanswered, Finset.mem_filter, Finset.mem_range, Option.isSome_iff_exists]
  simp only [frameAt_eq_some, Unanswered]
  constructor
  · rintro ⟨-, ha, f, hf⟩
    exact ⟨f, hf, ha⟩
  · rintro ⟨f, hf, ha⟩
    exact ⟨(List.getElem?_eq_some_iff.1 hf).1, ha, f, hf⟩

/-- Each frame that waits has one stream of the 127. -/
theorem NoLeak.card (h : s.NoLeak answered) (hans : s.Answers answered) (hinv : s.Inv) :
    s.streamStorage.availableCount + (s.unanswered answered).card = cqlStreamIdMax := by
  have hat : ∀ k f, s.Frame k f → ((s.frameAt k).map SentFrame.stream).getD 0 = f.stream := by
    intro k f hk
    rw [frameAt_eq_some.2 hk]
    rfl
  have himage : (s.unanswered answered).image
      (fun k => ((s.frameAt k).map SentFrame.stream).getD 0) = s.streamStorage.allocated := by
    ext id
    rw [Finset.mem_image, StreamStorage.allocated, Finset.mem_filter, Finset.mem_Icc]
    constructor
    · rintro ⟨k, hk, rfl⟩
      obtain ⟨f, hk⟩ := mem_unanswered.1 hk
      have halloc := (h f.stream).2 ⟨k, f, hk, rfl⟩
      rw [hat k f hk.1]
      exact ⟨hinv.streams.range _ halloc, halloc⟩
    · rintro ⟨-, halloc⟩
      obtain ⟨k, f, hk, rfl⟩ := (h id).1 halloc
      exact ⟨k, mem_unanswered.2 ⟨f, hk⟩, hat k f hk.1⟩
  have hinj : Set.InjOn (fun k => ((s.frameAt k).map SentFrame.stream).getD 0)
      (s.unanswered answered) := by
    intro k hk k' hk' heq
    obtain ⟨f, hf⟩ := mem_unanswered.1 (Finset.mem_coe.1 hk)
    obtain ⟨f', hf'⟩ := mem_unanswered.1 (Finset.mem_coe.1 hk')
    simp only [hat k f hf.1, hat k' f' hf'.1] at heq
    exact hans.distinct k k' f f' hf hf' heq
  rw [← Finset.card_image_of_injOn hinj, himage]
  exact hinv.streams.availableCount (by decide)

end Core

/-! ## Runs -/

namespace Peers

/-- No stream is leaked: the allocated streams are those of the frames that wait
    for their answer, and `available_streams()` counts the others. -/
structure NoLeak (p : Peers) : Prop where
  allocated : p.conn.NoLeak p.answered
  available : p.conn.streamStorage.availableCount + (p.conn.unanswered p.answered).card =
    cqlStreamIdMax

/-- A response releases its stream. -/
def ReleasesStream : PeerAction → Prop
  | .act _ => True
  | .answer _ message => Releases message

/-- **A run has no leak exactly when all its responses release their streams.** -/
theorem noLeak_iff {p : Peers} {steps : List (Peers × PeerAction)} (h : system.Run p steps) :
    (NoLeak p ∧ ∀ x ∈ steps, NoLeak x.1) ↔ ∀ x ∈ steps, ReleasesStream x.2 := by
  have hiff : ∀ {p : Peers}, system.Reachable p → (NoLeak p ↔ p.conn.NoLeak p.answered) := by
    intro p hp
    obtain ⟨hinv, hans⟩ := inv_of_reachable hp
    exact ⟨NoLeak.allocated, fun hn => ⟨hn, hn.card hans hinv⟩⟩
  refine h.forall_iff (P := NoLeak) (G := fun _ a => ReleasesStream a) ?_ ?_
  · intro p hp
    rw [hiff (.init hp)]
    obtain ⟨⟨heap, nullString, ssl, prepareCallback, hc⟩, -⟩ := hp
    intro id
    simp [hc, Connection.new, StreamStorage.new, Core.Unanswered, Core.Frame]
  · intro p a p' hp hno hstep
    obtain ⟨hinv, hans⟩ := inv_of_reachable hp
    have hno' := hno.allocated
    rw [hiff (hp.step hstep)]
    cases a with
    | act a =>
      obtain ⟨hne, hperform, heq⟩ := hstep
      rw [heq]
      exact iff_of_true (hno'.acts hans (Connection.perform_effect hne hperform)) trivial
    | answer k message =>
      obtain ⟨⟨f, hk, hstream⟩, hperform, heq⟩ := hstep
      rw [heq]
      exact hno'.dispatches_iff hans hinv hk hstream (Connection.dispatch_effect hperform)

/-- A query that is answered: its stream is free again. -/
theorem noLeak_told : NoLeak told :=
  ((noLeak_iff run_told).2 (by
    simp only [List.forall_mem_cons, List.not_mem_nil, false_implies, implies_true, and_true]
    exact ⟨⟨rfl, _, rfl, by decide⟩, trivial⟩)).1

/-- The connection has sent OPTIONS. -/
def connected : Peers :=
  let c₁ := (Connection.perform (.init true true) fresh.conn).1
  let c₂ := (Connection.perform (.onResolve 0) c₁).1
  ⟨(Connection.perform (.onConnect 0) c₂).1, []⟩

theorem connected_reachable : system.Reachable connected := by
  have h₀ : system.Reachable fresh := .init ⟨⟨_, _, _, _, rfl⟩, rfl⟩
  have h₁ : system.Reachable ⟨(Connection.perform (.init true true) fresh.conn).1, []⟩ :=
    h₀.step (a := .act (.init true true)) ⟨fun _ => nofun, Prod.ext rfl rfl, rfl⟩
  have h₂ : system.Reachable ⟨(Connection.perform (.onResolve 0)
      (Connection.perform (.init true true) fresh.conn).1).1, []⟩ :=
    h₁.step (a := .act (.onResolve 0)) ⟨fun _ => nofun, Prod.ext rfl rfl, rfl⟩
  exact h₂.step (a := .act (.onConnect 0)) ⟨fun _ => nofun, Prod.ext rfl rfl, rfl⟩

/-- The server has answered OPTIONS, and the connection has sent STARTUP. -/
def greeted : Peers :=
  ⟨(Connection.perform (.dispatch supportedResponse) connected.conn).1, [0]⟩

/-- SUPPORTED does not release the stream of OPTIONS: 125 streams are left while
    one frame waits. -/
theorem not_noLeak_greeted : system.Reachable greeted ∧ ¬ NoLeak greeted := by
  constructor
  · exact connected_reachable.step (a := .answer 0 supportedResponse)
      ⟨⟨_, ⟨rfl, by simp [connected]⟩, rfl⟩, Prod.ext rfl rfl, rfl⟩
  · intro h
    exact absurd h.available (by decide)

end Peers

end CqlClient
