/-
  CqlClient formalization — which request gets which response.

  `ResultAt i j` says that request `i` has response `j` as its result, and
  `AnsweredBy i j` that response `j` is a RESULT that answers the frame of request
  `i`.  In every run of a connection with its server the two are the same
  (`exact_of_reachable`): a result is never lost, replaced or misdirected.
-/
import CqlClient.Correlation

namespace CqlClient

open StreamStorage

namespace Core
variable {s s' : Core} {answered : List ℕ} {f : SentFrame} {message : Message} {i j k : ℕ}

/-! ## Responses -/

theorem Own.responses (h : s.Own s') : s'.responses = s.responses := by
  rcases h with rfl | ⟨f, -, h⟩
  · rfl
  · exact h.responses

theorem Acts.responses (h : s.Acts s') : s'.responses = s.responses := by
  cases h with
  | own hown => exact hown.responses
  | output bytes heq => rw [heq]
  | request hreq =>
    rcases hreq with ⟨r, f, -, -, -, hsends⟩ | ⟨r, -, -, -, rfl⟩
    · exact hsends.responses
    · rfl

theorem Dispatches.responses (h : s.Dispatches message s') :
    s'.responses = s.responses ++ [message] := by
  cases h with
  | keeps _ hown => exact hown.responses
  | unknown _ _ heq => rw [heq]
  | completes _ _ _ _ heq => rw [heq]

/-! ## Results -/

/-- Request `i` has response `j` as its result. -/
def ResultAt (s : Core) (i j : ℕ) : Prop :=
  ∃ r : CallerRequest, s.requests[i]? = some r ∧ r.result = some j

/-- Response `j` is a RESULT other than SET_KEYSPACE, and answers the frame of
    request `i`. -/
def AnsweredBy (s : Core) (answered : List ℕ) (i j : ℕ) : Prop :=
  ∃ k f m, answered[j]? = some k ∧ s.Frame k f ∧ f.request = .request i ∧
    s.responses[j]? = some m ∧ Releases m

/-- The results of the requests are the answers to their frames. -/
def Exact (s : Core) (answered : List ℕ) : Prop :=
  ∀ i j, s.ResultAt i j ↔ s.AnsweredBy answered i j

theorem Frame.unique {f g : SentFrame} (hf : s.Frame k f) (hg : s.Frame k g) : f = g :=
  Write.frame.inj (Option.some.inj (hf.symm.trans hg))

/-- A frame that is sent was not answered yet. -/
theorem Exact.sends (h : s.Exact answered) (ha : s.Answers answered) (hsends : s.Sends f s') :
    s'.Exact answered := by
  intro i j
  rw [ResultAt, hsends.requests, ← ResultAt, h]
  constructor
  · rintro ⟨k, g, m, hk, hg, hreq, hm, hrel⟩
    rw [AnsweredBy, hsends.responses]
    exact ⟨k, g, m, hk, (hsends.frames k g).2 (.inl hg), hreq, hm, hrel⟩
  · rintro ⟨k, g, m, hk, hg, hreq, hm, hrel⟩
    rw [hsends.responses] at hm
    rcases (hsends.frames k g).1 hg with hg | ⟨rfl, -⟩
    · exact ⟨k, g, m, hk, hg, hreq, hm, hrel⟩
    · exact absurd (ha.known _ (List.mem_of_getElem? hk)) (Nat.lt_irrefl _)

theorem Exact.own (h : s.Exact answered) (ha : s.Answers answered) (hown : s.Own s') :
    s'.Exact answered := by
  rcases hown with rfl | ⟨f, -, hsends⟩
  · exact h
  · exact h.sends ha hsends

/-- A new request has no result. -/
theorem resultAt_append {r : CallerRequest} (hres : r.result = none) :
    ({ s with requests := s.requests ++ [r] } : Core).ResultAt i j ↔ s.ResultAt i j := by
  simp only [ResultAt, requests_append]
  constructor
  · rintro ⟨r', hr' | ⟨-, rfl⟩, hj⟩
    · exact ⟨r', hr', hj⟩
    · rw [hres] at hj
      cases hj
  · rintro ⟨r', hr', hj⟩
    exact ⟨r', .inl hr', hj⟩

theorem Exact.request (h : s.Exact answered) {r : CallerRequest} (hres : r.result = none) :
    ({ s with requests := s.requests ++ [r] } : Core).Exact answered := by
  intro i j
  rw [resultAt_append hres, h]
  exact Iff.rfl

/-- **Anything but a response.** -/
theorem Exact.acts (h : s.Exact answered) (ha : s.Answers answered) (hacts : s.Acts s') :
    s'.Exact answered := by
  cases hacts with
  | own hown => exact h.own ha hown
  | output bytes heq =>
    subst heq
    intro i j
    have hframes := s.frame_output bytes
    simp only [ResultAt, AnsweredBy, hframes] at h ⊢
    exact h i j
  | request hreq =>
    rcases hreq with ⟨r, f, -, hres, -, hsends⟩ | ⟨r, -, hres, -, rfl⟩
    · exact (h.request hres).sends (ha.request hres) hsends
    · exact h.request hres

theorem concat_getElem? {α : Type} {l : List α} {a b : α} {j : ℕ} :
    (l ++ [a])[j]? = some b ↔ l[j]? = some b ∨ j = l.length ∧ a = b := by
  rcases Nat.lt_trichotomy j l.length with hj | rfl | hj
  · rw [List.getElem?_append_left hj]
    simp [Nat.ne_of_lt hj]
  · simp
  · rw [List.getElem?_eq_none (by simp; omega), List.getElem?_eq_none (by omega)]
    simp [Nat.ne_of_gt hj]

/-- Who is answered when the frame at position `k` is: the requests so far, and the
    request of that frame if the response is a RESULT. -/
theorem answeredBy_received (ha : s.Answers answered) (hk : s.Frame k f) :
    ({ s with responses := s.responses ++ [message] } : Core).AnsweredBy (answered ++ [k]) i j ↔
      s.AnsweredBy answered i j ∨
        j = s.responses.length ∧ f.request = .request i ∧ Releases message := by
  have hlen := ha.length
  rcases Nat.lt_trichotomy j s.responses.length with hj | rfl | hj
  · simp only [AnsweredBy, List.getElem?_append_left hj,
      List.getElem?_append_left (show j < answered.length by omega), Nat.ne_of_lt hj, false_and,
      or_false]
    exact Iff.rfl
  · have hold : ¬ s.AnsweredBy answered i s.responses.length := by
      rintro ⟨k', g, m, -, -, -, hm, -⟩
      simp at hm
    have hnew : (answered ++ [k])[s.responses.length]? = some k := by
      rw [← hlen]
      simp
    simp only [hold, false_or, true_and]
    constructor
    · rintro ⟨k', g, m, hk', hg, hreq, hm, hrel⟩
      rw [hnew] at hk'
      obtain rfl := Option.some.inj hk'
      obtain rfl := hk.unique hg
      rw [List.getElem?_concat_length, Option.some.injEq] at hm
      exact ⟨hreq, hm ▸ hrel⟩
    · rintro ⟨hreq, hrel⟩
      exact ⟨k, f, message, hnew, hk, hreq, by simp, hrel⟩
  · have hnone : (s.responses ++ [message])[j]? = none := by
      rw [List.getElem?_eq_none_iff]
      simp
      omega
    have hnone' : s.responses[j]? = none := List.getElem?_eq_none_iff.2 hj.le
    constructor
    · rintro ⟨k', g, m, -, -, -, hm, -⟩
      rw [hnone] at hm
      cases hm
    · rintro (⟨k', g, m, -, -, -, hm, -⟩ | ⟨rfl, -⟩)
      · rw [hnone'] at hm
        cases hm
      · exact absurd hj (Nat.lt_irrefl _)

/-- A request whose frame is not answered has no answer. -/
theorem Unanswered.not_answeredBy (hk : s.Unanswered answered k f) (hinv : s.Inv)
    (hreq : f.request = .request i) : ¬ s.AnsweredBy answered i j := by
  rintro ⟨k', g, m, hk', hg, hreq', -, -⟩
  obtain rfl := hinv.single k' k g f i hg hk.1 hreq' hreq
  exact hk.2 (List.mem_of_getElem? hk')

/-- **A response to the frame `f`**, on its stream. -/
theorem Exact.dispatches (h : s.Exact answered) (ha : s.Answers answered) (hinv : s.Inv)
    (hk : s.Unanswered answered k f) (hstream : message.stream = f.stream)
    (hd : s.Dispatches message s') : s'.Exact (answered ++ [k]) := by
  have hid : message.stream.toNat = f.stream := by rw [hstream, Int.toNat_natCast]
  obtain ⟨halloc, hstorage⟩ := ha.waits k f hk
  cases hd with
  | keeps hrel hown =>
    have hrec : ({ s with responses := s.responses ++ [message] } : Core).Exact
        (answered ++ [k]) := by
      intro i j
      rw [answeredBy_received ha hk.1, ← h i j]
      simp only [hrel, and_false, or_false]
      exact Iff.rfl
    exact hrec.own (ha.received hk.1 message) hown
  | unknown _ hfree =>
    rw [hid, halloc] at hfree
    cases hfree
  | completes hrel i₀ _ hreq heq =>
    rw [hid] at hreq heq
    rw [hstorage] at hreq
    have hc : s.Completes f.stream i₀ s' := by
      subst heq
      exact ⟨⟨halloc, hstorage.trans hreq⟩, rfl, rfl, rfl⟩
    intro i j
    have hanswered : s'.AnsweredBy (answered ++ [k]) i j ↔
        s.AnsweredBy answered i j ∨ j = s.responses.length ∧ f.request = .request i := by
      have hsame : s'.AnsweredBy (answered ++ [k]) i j ↔
          ({ s with responses := s.responses ++ [message] } : Core).AnsweredBy
            (answered ++ [k]) i j := by
        subst heq
        exact Iff.rfl
      rw [hsame, answeredBy_received ha hk.1]
      simp only [hrel, and_true]
    rw [hanswered, ResultAt, hc.request]
    by_cases hi : i = i₀
    · -- the request that is completed now
      subst hi
      obtain ⟨r₀, hr₀, -⟩ := (hinv.waiting i).2 ⟨f.stream, hc.held⟩
      simp only [hr₀, if_true, Option.map_some, Option.some.injEq, hreq, and_true,
        hk.not_answeredBy hinv hreq, false_or]
      constructor
      · rintro ⟨r, rfl, hj⟩
        exact (Option.some.inj hj).symm
      · rintro rfl
        exact ⟨_, rfl, rfl⟩
    · have hne : ¬ f.request = .request i := by
        rw [hreq, RequestPtr.request.injEq]
        exact Ne.symm hi
      simp only [if_neg hi, hne, and_false, or_false]
      exact h i j

end Core

namespace Peers
variable {p : Peers}

/-- **In every run**, a request has a response as its result exactly if the response
    is a RESULT that answers the frame of the request. -/
theorem exact_of_reachable (h : system.Reachable p) : p.conn.Exact p.answered := by
  refine h.invariant (I := fun p => p.conn.Exact p.answered) ?_ ?_
  · rintro ⟨c, answered⟩ ⟨⟨heap, nullString, ssl, prepareCallback, rfl⟩, rfl⟩ i j
    simp [Core.ResultAt, Core.AnsweredBy, Connection.new]
  · rintro ⟨c, answered⟩ a ⟨c', answered'⟩ hreach hexact hstep
    obtain ⟨hinv, hans⟩ := inv_of_reachable hreach
    cases a with
    | act a =>
      obtain ⟨hne, hperform, rfl⟩ := hstep
      exact hexact.acts hans (Connection.perform_effect hne hperform)
    | answer k message =>
      obtain ⟨⟨f, hk, hstream⟩, hperform, rfl⟩ := hstep
      exact hexact.dispatches hans hinv hk hstream (Connection.dispatch_effect hperform)

end Peers

end CqlClient
