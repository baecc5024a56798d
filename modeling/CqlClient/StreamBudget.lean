/-
  CqlClient formalization — what the streams of a connection are used for.

  An allocated stream holds a request that was not notified, or one of the
  connection's own frames: OPTIONS, STARTUP and USE.  A request gives its stream
  back; an own frame never does, because the process ends when a result arrives
  for it.  So the own frames and the requests under way add up to the streams that
  are taken (`budget_of_reachable`), and a connection that has sent 127 own frames
  sends nothing any more (`spent_forever`).
-/
import CqlClient.Refused

namespace CqlClient

open StreamStorage

/-- The write is a frame of the connection's own. -/
def Write.isOwnFrame : Write → Bool
  | .frame f => f.request = .null
  | .sslOutput _ => false

/-- The frame, if the write is one. -/
def Write.frame? : Write → Option SentFrame
  | .frame f => some f
  | .sslOutput _ => none

namespace Core
variable {s s' : Core} {f : SentFrame} {message : Message}

/-- The frames of the connection's own that were sent. -/
def ownFrames (s : Core) : ℕ := s.writes.countP Write.isOwnFrame

/-- The requests that were not notified. -/
def underWay (s : Core) : ℕ := s.requests.countP fun r => r.notified = 0

/-- Every stream that is taken is taken by an own frame or by a request under way. -/
def Budget (s : Core) : Prop := s.streamStorage.availableStreamsIndex = s.ownFrames + s.underWay

/-! ## One step -/

theorem Sends.index (h : s.Sends f s') :
    s'.streamStorage.availableStreamsIndex = s.streamStorage.availableStreamsIndex + 1 := by
  obtain ⟨id, rest, -, -, -, hindex, -⟩ := setStream_ok h.free f.request
  rw [h.eq]
  exact hindex

theorem Sends.ownFrames (h : s.Sends f s') :
    s'.ownFrames = s.ownFrames + if f.request = .null then 1 else 0 := by
  rw [Core.ownFrames, Core.ownFrames, h.eq, List.countP_append, List.countP_singleton]
  simp [Write.isOwnFrame]

theorem underWay_append (s : Core) (r : CallerRequest) :
    ({ s with requests := s.requests ++ [r] } : Core).underWay =
      s.underWay + if r.notified = 0 then 1 else 0 := by
  simp [underWay, List.countP_append, List.countP_singleton]

/-- An own frame takes a stream. -/
theorem Budget.own (h : s.Budget) (hown : s.Own s') : s'.Budget := by
  rcases hown with rfl | ⟨f, hf, hsends⟩
  · exact h
  · have hway : s'.underWay = s.underWay := by rw [underWay, underWay, hsends.requests]
    rw [Budget, hsends.index, hsends.ownFrames, if_pos hf, hway, h]
    omega

/-- A request takes a stream, or is refused and told so. -/
theorem Budget.requests (h : s.Budget) (hreq : s.Requests s') : s'.Budget := by
  cases hreq with
  | sends r f hr hres hf hsends =>
    have hway : s'.underWay = s.underWay + 1 := by
      rw [underWay, hsends.requests]
      change ({ s with requests := s.requests ++ [r] } : Core).underWay = _
      rw [underWay_append, if_pos hr]
    have hown : s'.ownFrames = s.ownFrames := by
      rw [hsends.ownFrames, if_neg (by rw [hf]; simp)]
      rfl
    have hindex := hsends.index
    rw [Budget] at h
    rw [Budget, hindex, hown, hway]
    change s.streamStorage.availableStreamsIndex + 1 = _
    omega
  | refused r hr hres hfull heq =>
    subst heq
    rw [Budget, underWay_append, if_neg (by omega)]
    exact h

theorem Budget.acts (h : s.Budget) (hacts : s.Acts s') : s'.Budget := by
  cases hacts with
  | own hown => exact h.own hown
  | output bytes heq =>
    subst heq
    rw [Budget, ownFrames, List.countP_append, List.countP_singleton]
    exact h
  | request hreq => exact h.requests hreq

/-- One of the requests under way is notified. -/
theorem underWay_notify {l : List CallerRequest} {i : ℕ} {r : CallerRequest} {j : ℕ}
    (hr : l[i]? = some r) (hn : r.notified = 0) :
    ((l.modify i fun r => { r with result := some j }).modify i CallerRequest.notify).countP
      (fun r => r.notified = 0) + 1 = l.countP fun r => r.notified = 0 := by
  induction l generalizing i with
  | nil => cases hr
  | cons a l ih =>
    cases i with
    | zero =>
      obtain rfl : a = r := by simpa using hr
      simp [CallerRequest.notify, hn]
    | succ i =>
      have := ih (i := i) (by simpa using hr)
      simp only [List.modify_succ_cons, List.countP_cons]
      omega

/-- **A result gives the stream of its request back**, and no other response does. -/
theorem Budget.dispatches (h : s.Budget) (hinv : s.Inv) (hd : s.Dispatches message s') :
    s'.Budget := by
  cases hd with
  | keeps _ hown =>
    have h' : ({ s with responses := s.responses ++ [message] } : Core).Budget := h
    exact h'.own hown
  | unknown _ _ heq =>
    subst heq
    exact h
  | completes _ i halloc hstorage heq =>
    obtain ⟨r, hr, hn⟩ := (hinv.waiting i).2 ⟨_, halloc, hstorage⟩
    obtain ⟨-, -, hindex, -⟩ := getStream_release hinv.streams (by decide) halloc
    have hway := underWay_notify (j := s.responses.length) hr hn
    rw [Budget] at h
    subst heq
    simp only [Budget, ownFrames, underWay] at h hway hindex ⊢
    omega

/-! ## What is written -/

/-- Writes are added at the end, and without a free stream none of them is a frame. -/
def Appends (s s' : Core) : Prop :=
  ∃ ws, s'.writes = s.writes ++ ws ∧
    (cqlStreamIdMax ≤ s.streamStorage.availableStreamsIndex → ws.filterMap Write.frame? = [])

theorem Sends.appends (h : s.Sends f s') : s.Appends s' := by
  refine ⟨[.frame f], by rw [h.eq], fun hfull => ?_⟩
  have := h.free
  omega

theorem Own.appends (h : s.Own s') : s.Appends s' := by
  rcases h with rfl | ⟨f, -, hsends⟩
  · exact ⟨[], by simp, fun _ => rfl⟩
  · exact hsends.appends

theorem Acts.appends (h : s.Acts s') : s.Appends s' := by
  cases h with
  | own hown => exact hown.appends
  | output bytes heq => exact ⟨[.sslOutput bytes], by rw [heq], fun _ => rfl⟩
  | request hreq =>
    cases hreq with
    | sends r f _ _ _ hsends => exact hsends.appends
    | refused r _ _ _ heq => exact ⟨[], by simp [heq], fun _ => rfl⟩

theorem Dispatches.appends (h : s.Dispatches message s') : s.Appends s' := by
  cases h with
  | keeps _ hown => exact hown.appends
  | unknown _ _ heq => exact ⟨[], by simp [heq], fun _ => rfl⟩
  | completes _ i _ _ heq => exact ⟨[], by simp [heq], fun _ => rfl⟩

theorem Appends.ownFrames_le (h : s.Appends s') : s.ownFrames ≤ s'.ownFrames := by
  obtain ⟨ws, hws, -⟩ := h
  rw [ownFrames, ownFrames, hws, List.countP_append]
  exact Nat.le_add_right _ _

end Core

/-! ## Runs -/

namespace Connection
variable {c c' : Connection}

theorem budget_perform (hc : system.Reachable c) {a : Action} (h : c.toCore.Budget)
    (ha : perform a c = (c', none)) : c'.toCore.Budget := by
  by_cases hd : ∃ message, a = .dispatch message
  · obtain ⟨message, rfl⟩ := hd
    exact h.dispatches (inv_of_reachable hc) (dispatch_effect ha)
  · exact h.acts (perform_effect (fun message hm => hd ⟨message, hm⟩) ha)

theorem inv_budget (h : system.Reachable c) : c.toCore.Budget := by
  refine h.invariant (I := fun c => c.toCore.Budget) ?_ ?_
  · rintro c ⟨heap, nullString, ssl, prepareCallback, rfl⟩
    rfl
  · intro c a c' hc hinv hstep
    exact budget_perform hc hinv hstep

/-- A stream is available or taken. -/
theorem availableCount_add_index (h : system.Reachable c) :
    c.streamStorage.availableCount + c.streamStorage.availableStreamsIndex = cqlStreamIdMax := by
  have hstreams := (inv_of_reachable h).streams
  have hcount := hstreams.availableCount (by decide)
  rw [hstreams.card] at hcount
  omega

/-- **The streams are accounted for** in every run: a stream is available, or taken by a
    frame of the connection's own for good, or by a request under way. -/
theorem budget_of_reachable (h : system.Reachable c) :
    c.streamStorage.availableCount + c.ownFrames + c.underWay = cqlStreamIdMax := by
  rw [Nat.add_assoc, ← inv_budget h]
  exact availableCount_add_index h

theorem appends_perform {a : Action} (ha : perform a c = (c', none)) :
    c.toCore.Appends c'.toCore := by
  by_cases hd : ∃ message, a = .dispatch message
  · obtain ⟨message, rfl⟩ := hd
    exact (dispatch_effect ha).appends
  · exact (perform_effect (fun message hm => hd ⟨message, hm⟩) ha).appends

/-- With all streams taken by own frames, there is none for anything else. -/
theorem full_of_ownFrames (h : system.Reachable c) (hspent : cqlStreamIdMax ≤ c.ownFrames) :
    cqlStreamIdMax ≤ c.streamStorage.availableStreamsIndex := by
  rw [inv_budget h]
  exact hspent.trans (Nat.le_add_right _ _)

/-- **What the own frames have taken is never given back**: in every continuation of a
    run at least their streams are missing, and once a connection has sent 127 of them it
    sends no frame any more, and a request of the user is refused if it is made at all. -/
theorem spent_forever (hc : system.Reachable c) {as : List Action} (hp : system.Path c as c') :
    c'.streamStorage.availableCount + c.ownFrames ≤ cqlStreamIdMax ∧
      (cqlStreamIdMax ≤ c.ownFrames →
        c'.writes.filterMap Write.frame? = c.writes.filterMap Write.frame? ∧
        ∀ a, a.isRequest = true → (c'.nullString = .throws ∧ perform a c' = (c', none)) ∨
          (c'.nullString ≠ .throws ∧ c'.Refuses a)) := by
  induction hp with
  | nil c =>
    have hbudget : c.streamStorage.availableStreamsIndex = c.ownFrames + c.underWay := inv_budget hc
    have hcount := availableCount_add_index hc
    refine ⟨by omega, fun hspent => ⟨rfl, fun a ha => ?_⟩⟩
    have hfull := full_of_ownFrames hc hspent
    have hfree : c.streamStorage.free = [] := by
      refine List.length_eq_zero_iff.1 ?_
      rw [StreamStorage.free, Slice.length_slice]
      omega
    by_cases hthrows : c.nullString = .throws
    · exact .inl ⟨hthrows, perform_throws ha hthrows⟩
    · exact .inr ⟨hthrows, (refuses_iff hc hfree ha).2 hthrows⟩
  | @cons c c₁ c₂ a as hs hp ih =>
    obtain ⟨hle, hspent⟩ := ih (hc.step hs)
    have happends := appends_perform hs
    have hown := happends.ownFrames_le
    refine ⟨by omega, fun hall => ?_⟩
    obtain ⟨hframes, hrefuses⟩ := hspent (hall.trans hown)
    obtain ⟨ws, hws, hnone⟩ := happends
    refine ⟨?_, hrefuses⟩
    rw [hframes, hws, List.filterMap_append, hnone (full_of_ownFrames hc hall), List.append_nil]

/-! ## A connection that is used up -/

/-- A run in which OPTIONS is sent, and then keyspaces are set until no stream is left. -/
theorem exists_spent (nullString : NullString) : ∃ c, system.Reachable c ∧
    c.nullString = nullString ∧ c.ownFrames = cqlStreamIdMax ∧
    c.streamStorage.availableStreamsIndex = cqlStreamIdMax := by
  obtain ⟨c, hc, hnull, hreq, hindex⟩ := exists_allTaken nullString
  have hway : c.underWay = 0 := by rw [Core.underWay, hreq]; rfl
  have hbudget := inv_budget hc
  rw [Core.Budget, hindex, hway] at hbudget
  exact ⟨c, hc, hnull, hbudget.symm, hindex⟩

/-- After OPTIONS and 126 keyspaces another one is not written any more, and every query
    throws. -/
theorem spent_forever_keyspaces : ∃ c c', system.Reachable c ∧
    system.Path c [.setKeyspace (ascii "k")] c' ∧
    c'.writes.filterMap Write.frame? = c.writes.filterMap Write.frame? ∧
    ∀ a, a.isRequest = true → perform a c' = (c', none) := by
  obtain ⟨c, hc, hnull, hown, -⟩ := exists_spent .throws
  obtain ⟨streamStorage, writes, heq, -⟩ := sendOwn_eq cqlOpcodeQuery
    (.query { query := ascii "USE " ++ ascii "k" }) c rfl ⟨_, rfl⟩
  have hpath := System.Path.single (T := system) (a := .setKeyspace (ascii "k")) heq
  obtain ⟨hframes, hrequests⟩ := (spent_forever hc hpath).2 hown.ge
  refine ⟨c, _, hc, hpath, hframes, fun a ha => ?_⟩
  rcases hrequests a ha with ⟨-, hthrows⟩ | ⟨hne, -⟩
  · exact hthrows
  · exact absurd hnull hne

/-- A connection that has sent a query and set a keyspace, with a library that lets `exec`
    return. -/
theorem budget_of_reachable_used : ∃ c, system.Reachable c ∧ c.ownFrames = 1 ∧ c.underWay = 1 ∧
    c.streamStorage.availableCount + c.ownFrames + c.underWay = cqlStreamIdMax := by
  have h₀ : system.Reachable lenient := .init ⟨_, _, _, _, rfl⟩
  have h₁ : system.Reachable (perform (.exec queryMessage false) lenient).1 :=
    h₀.step (a := .exec queryMessage false) (Prod.ext rfl rfl)
  have h₂ : system.Reachable (perform (.setKeyspace (ascii "k"))
      (perform (.exec queryMessage false) lenient).1).1 :=
    h₁.step (a := .setKeyspace (ascii "k")) (Prod.ext rfl rfl)
  exact ⟨_, h₂, rfl, rfl, budget_of_reachable h₂⟩

end Connection

end CqlClient
