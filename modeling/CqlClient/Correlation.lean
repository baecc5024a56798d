/-
  CqlClient formalization — a connection and its server.

  The server answers a frame at most once, at any time, with any message on the
  frame's stream.  `answered` are the frames answered, in the order in which the
  responses were dispatched: response `j` answers the frame `answered[j]`.
-/
import CqlClient.Requests

namespace CqlClient

open StreamStorage

namespace Core
variable {s s' : Core} {answered : List ℕ} {f : SentFrame} {message : Message}

/-! ## Frames and their answers -/

/-- The frame `f`, at position `k`, was sent and not yet answered. -/
def Unanswered (s : Core) (answered : List ℕ) (k : ℕ) (f : SentFrame) : Prop :=
  s.Frame k f ∧ k ∉ answered

/-- Frames that wait for their answer hold their stream, each its own; a result
    is the answer to the request's own frame. -/
structure Answers (s : Core) (answered : List ℕ) : Prop where
  length : answered.length = s.responses.length
  known : ∀ k ∈ answered, k < s.writes.length
  waits : ∀ k f, s.Unanswered answered k f →
    s.streamStorage.allocatedStreams f.stream = true ∧
    s.streamStorage.storage f.stream = f.request
  distinct : ∀ k k' f f', s.Unanswered answered k f → s.Unanswered answered k' f' →
    f.stream = f'.stream → k = k'
  result : ∀ (i : ℕ) (r : CallerRequest) (j : ℕ), s.requests[i]? = some r →
    r.result = some j → ∃ k f, answered[j]? = some k ∧ s.Frame k f ∧ f.request = .request i ∧
      ∃ m : Message, s.responses[j]? = some m ∧ m.stream = f.stream

/-- A frame is sent. -/
theorem Answers.sends (h : s.Answers answered) (hs : StreamStorage.Inv s.streamStorage)
    (hsends : s.Sends f s') : s'.Answers answered where
  length := by rw [hsends.responses, h.length]
  known k hk := by
    have := h.known k hk
    rw [hsends.eq]
    simp only [List.length_append]
    omega
  waits k g hk := by
    obtain ⟨hk, hans⟩ := hk
    rw [hsends.allocated, hsends.storage]
    rcases (hsends.frames k g).1 hk with hk | ⟨-, rfl⟩
    · have hw := h.waits k g ⟨hk, hans⟩
      have hne : g.stream ≠ f.stream := by
        intro he
        have := (hsends.free_stream hs).2.2
        rw [← he, hw.1] at this
        cases this
      rw [if_neg hne, if_neg hne]
      exact hw
    · simp
  distinct k k' g g' hk hk' heq := by
    -- the stream of the new frame was free, those of the others were not
    have hnew : ∀ k g, s.Unanswered answered k g → g.stream ≠ f.stream := by
      intro k g hk he
      have := (hsends.free_stream hs).2.2
      rw [← he, (h.waits k g hk).1] at this
      cases this
    obtain ⟨hk, hans⟩ := hk
    obtain ⟨hk', hans'⟩ := hk'
    rcases (hsends.frames k g).1 hk with hk | ⟨rfl, rfl⟩ <;>
      rcases (hsends.frames k' g').1 hk' with hk' | ⟨rfl, rfl⟩
    · exact h.distinct k k' g g' ⟨hk, hans⟩ ⟨hk', hans'⟩ heq
    · exact absurd heq (hnew k g ⟨hk, hans⟩)
    · exact absurd heq.symm (hnew k' g' ⟨hk', hans'⟩)
    · rfl
  result i r j hr hj := by
    rw [hsends.requests] at hr
    obtain ⟨k, g, hk, hg, hrest⟩ := h.result i r j hr hj
    rw [hsends.responses]
    exact ⟨k, g, hk, (hsends.frames k g).2 (.inl hg), hrest⟩

theorem Answers.own (h : s.Answers answered) (hs : StreamStorage.Inv s.streamStorage)
    (hown : s.Own s') : s'.Answers answered := by
  rcases hown with rfl | ⟨f, -, hsends⟩
  · exact h
  · exact h.sends hs hsends

/-- A new request has no result. -/
theorem Answers.request (h : s.Answers answered) {r : CallerRequest} (hres : r.result = none) :
    ({ s with requests := s.requests ++ [r] } : Core).Answers answered where
  length := h.length
  known := h.known
  waits := h.waits
  distinct := h.distinct
  result i r' j hr' hj := by
    rcases requests_append.1 hr' with hr' | ⟨-, rfl⟩
    · exact h.result i r' j hr' hj
    · rw [hres] at hj
      cases hj

/-- **Anything but a response.** -/
theorem Answers.acts (h : s.Answers answered) (hs : StreamStorage.Inv s.streamStorage)
    (hacts : s.Acts s') : s'.Answers answered := by
  cases hacts with
  | own hown => exact h.own hs hown
  | output bytes heq =>
    subst heq
    have hframes := s.frame_output bytes
    refine ⟨h.length, fun k hk => ?_, by simpa only [Unanswered, hframes] using h.waits,
      by simpa only [Unanswered, hframes] using h.distinct, by simpa only [hframes] using h.result⟩
    have := h.known k hk
    simp only [List.length_append]
    omega
  | request hreq =>
    rcases hreq with ⟨r, f, -, hres, -, hsends⟩ | ⟨r, -, hres, -, rfl⟩
    · exact (h.request hres).sends hs hsends
    · exact h.request hres

theorem getElem?_append_of_eq_some {α : Type} {l m : List α} {i : ℕ} {a : α}
    (h : l[i]? = some a) : (l ++ m)[i]? = some a := by
  rw [List.getElem?_append_left (List.getElem?_eq_some_iff.1 h).1, h]

/-- The frame at position `k` is answered. -/
theorem Answers.received (h : s.Answers answered) {k : ℕ} (hk : s.Frame k f)
    (message : Message) :
    ({ s with responses := s.responses ++ [message] } : Core).Answers (answered ++ [k]) where
  length := by simp [h.length]
  known k' hk' := by
    rw [List.mem_append, List.mem_singleton] at hk'
    rcases hk' with hk' | rfl
    · exact h.known k' hk'
    · exact (List.getElem?_eq_some_iff.1 hk).1
  waits k' g hk' := h.waits k' g ⟨hk'.1, fun hmem => hk'.2 (by simp [hmem])⟩
  distinct k₁ k₂ g₁ g₂ h₁ h₂ := h.distinct k₁ k₂ g₁ g₂ ⟨h₁.1, fun hmem => h₁.2 (by simp [hmem])⟩
    ⟨h₂.1, fun hmem => h₂.2 (by simp [hmem])⟩
  result i r j hr hj := by
    obtain ⟨k', g, hk', hg, hreq, m, hm, hst⟩ := h.result i r j hr hj
    exact ⟨k', g, getElem?_append_of_eq_some hk', hg, hreq, m, getElem?_append_of_eq_some hm, hst⟩

/-- **A response to the frame `f`**, on its stream. -/
theorem Answers.dispatches (h : s.Answers answered) (hinv : s.Inv) {k : ℕ}
    (hk : s.Unanswered answered k f) (hstream : message.stream = f.stream)
    (hd : s.Dispatches message s') : s'.Answers (answered ++ [k]) := by
  have hid : message.stream.toNat = f.stream := by rw [hstream, Int.toNat_natCast]
  have hrec := h.received hk.1 message
  cases hd with
  | keeps _ hown => exact hrec.own hinv.streams hown
  | unknown _ _ heq =>
    subst heq
    exact hrec
  | completes _ i halloc hstorage heq =>
    rw [hid] at halloc hstorage heq
    have hc : s.Completes f.stream i s' := by
      subst heq
      exact ⟨⟨halloc, hstorage⟩, rfl, rfl, rfl⟩
    have hresp : s'.responses = s.responses ++ [message] := by rw [heq]
    refine ⟨by rw [hresp]; exact hrec.length, by rw [hc.writes]; exact hrec.known,
      fun k' g hk' => ?_, fun k₁ k₂ g₁ g₂ h₁ h₂ => ?_,
      fun i' r j hr hj => ?_⟩
    · obtain ⟨hk', hans⟩ := hk'
      rw [hc.frames] at hk'
      have hopen : s.Unanswered answered k' g := ⟨hk', fun hmem => hans (by simp [hmem])⟩
      have hne : g.stream ≠ f.stream := fun he =>
        hans (by simp [h.distinct k' k g f hopen hk he])
      rw [hc.allocated hinv.streams, if_neg hne, hc.storage hinv.streams]
      exact h.waits k' g hopen
    · exact hrec.distinct k₁ k₂ g₁ g₂ ⟨(hc.frames k₁ g₁).1 h₁.1, h₁.2⟩
        ⟨(hc.frames k₂ g₂).1 h₂.1, h₂.2⟩
    · rw [hc.request] at hr
      rw [hresp]
      by_cases hi : i' = i
      · -- the request that is completed now
        subst hi
        obtain ⟨r₀, hr₀, -⟩ := (hinv.waiting i').2 ⟨f.stream, hc.held⟩
        rw [if_pos rfl, hr₀] at hr
        cases hr
        cases hj
        refine ⟨k, f, ?_, (hc.frames k f).2 hk.1, ?_, message, ?_, hstream⟩
        · rw [← h.length]
          simp
        · rw [← (h.waits k f hk).2, hstorage]
        · simp
      · rw [if_neg hi] at hr
        obtain ⟨k', g, hk', hg, hrest⟩ := hrec.result i' r j hr hj
        exact ⟨k', g, hk', (hc.frames k' g).2 hg, hrest⟩

end Core

/-- A connection, and which of its frames the server has answered. -/
structure Peers where
  conn : Connection
  answered : List ℕ

inductive PeerAction where
  /-- anything but a response -/
  | act (a : Action)
  /-- the answer to the frame at position `k` -/
  | answer (k : ℕ) (message : Message)

namespace Peers

/-- The runs of a connection with its server. -/
def system : System Peers PeerAction where
  init p := Connection.system.init p.conn ∧ p.answered = []
  step p a p' :=
    match a with
    | .act a => (∀ message, a ≠ .dispatch message) ∧
      Connection.perform a p.conn = (p'.conn, none) ∧ p'.answered = p.answered
    | .answer k message =>
      (∃ f, p.conn.Unanswered p.answered k f ∧ message.stream = f.stream) ∧
      Connection.perform (.dispatch message) p.conn = (p'.conn, none) ∧
      p'.answered = p.answered ++ [k]

variable {p : Peers}

/-- The invariant of the connection and its server. -/
theorem inv_of_reachable (h : system.Reachable p) :
    p.conn.Inv ∧ p.conn.Answers p.answered := by
  refine h.invariant (I := fun p => p.conn.Inv ∧ p.conn.Answers p.answered) ?_ ?_
  · rintro ⟨c, answered⟩ ⟨⟨heap, nullString, ssl, prepareCallback, rfl⟩, rfl⟩
    refine ⟨Core.inv_new heap nullString ssl prepareCallback, rfl, ?_, ?_, ?_, ?_⟩
    · intro k hk
      cases hk
    · intro k f hk
      simp [Core.Unanswered, Core.Frame, Connection.new] at hk
    · intro k k' f f' hk
      simp [Core.Unanswered, Core.Frame, Connection.new] at hk
    · intro i r j hr
      simp [Connection.new] at hr
  · rintro ⟨c, answered⟩ a ⟨c', answered'⟩ - ⟨hinv, hans⟩ hstep
    cases a with
    | act a =>
      obtain ⟨hne, hperform, rfl⟩ := hstep
      exact ⟨Connection.inv_perform hinv hperform,
        hans.acts hinv.streams (Connection.perform_effect hne hperform)⟩
    | answer k message =>
      obtain ⟨⟨f, hk, hstream⟩, hperform, rfl⟩ := hstep
      exact ⟨Connection.inv_perform hinv hperform,
        hans.dispatches hinv hk hstream (Connection.dispatch_effect hperform)⟩

/-- Requests and responses are correlated: the streams of the frames that wait
    for their answers are distinct, no request is notified twice, and the result
    of a request is the answer to its own frame. -/
structure Correlated (p : Peers) : Prop where
  distinct : ∀ k k' f f', p.conn.Unanswered p.answered k f → p.conn.Unanswered p.answered k' f' →
    f.stream = f'.stream → k = k'
  once : ∀ (i : ℕ) (r : CallerRequest), p.conn.requests[i]? = some r → r.notified ≤ 1
  own : ∀ (i : ℕ) (r : CallerRequest) (j : ℕ), p.conn.requests[i]? = some r →
    r.result = some j → ∃ k f, p.answered[j]? = some k ∧ p.conn.Frame k f ∧
      f.request = .request i ∧ ∃ m : Message, p.conn.responses[j]? = some m ∧ m.stream = f.stream

/-- **Requests and responses are correlated** in every run. -/
theorem correlated_of_reachable (h : system.Reachable p) : Correlated p := by
  obtain ⟨hinv, hans⟩ := inv_of_reachable h
  exact ⟨hans.distinct, hinv.once, hans.result⟩

/-! ## A query and its answer -/

def fresh : Peers := ⟨Connection.fresh, []⟩

/-- With a library that lets `exec` return. -/
def lenient : Peers := ⟨Connection.lenient, []⟩

/-- The connection has sent a query. -/
def asked : Peers := ⟨(Connection.perform (.exec queryMessage false) lenient.conn).1, []⟩

/-- The server has answered the query. -/
def told : Peers := ⟨(Connection.perform (.dispatch voidResponse) asked.conn).1, [0]⟩

theorem run_told : system.Run told
    [(asked, .answer 0 voidResponse), (lenient, .act (.exec queryMessage false))] := by
  have h₀ : system.Run lenient [] := .init ⟨⟨_, _, _, _, rfl⟩, rfl⟩
  have h₁ : system.Run asked [(lenient, .act (.exec queryMessage false))] :=
    h₀.step ⟨fun _ => nofun, Prod.ext rfl rfl, rfl⟩
  exact h₁.step ⟨⟨_, ⟨rfl, by simp [asked]⟩, rfl⟩, Prod.ext rfl rfl, rfl⟩

/-- After the answer, the request has it as its result. -/
theorem correlated_told :
    Correlated told ∧ told.conn.requests.map CallerRequest.result = [some 0] :=
  ⟨correlated_of_reachable run_told.reachable, rfl⟩

end Peers

end CqlClient
