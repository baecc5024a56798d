/-
  CqlClient formalization — requests and the streams that hold them.

  `Core.Inv` is the invariant of every run, whatever the server sends: the
  requests that were not notified are exactly those that an allocated stream
  holds, each on one stream, and a stream that is allocated was the stream of a
  frame for what it holds.
-/
import CqlClient.Session

namespace CqlClient

open StreamStorage

namespace Core
variable {s s' : Core} {f : SentFrame} {message : Message}

/-- The stream `id` is allocated and holds the request `i`. -/
def Held (s : Core) (id i : ℕ) : Prop :=
  s.streamStorage.allocatedStreams id = true ∧ s.streamStorage.storage id = .request i

/-- The request `i` was not notified. -/
def Waiting (s : Core) (i : ℕ) : Prop :=
  ∃ r : CallerRequest, s.requests[i]? = some r ∧ r.notified = 0

/-- The write at position `k` is the frame `f`. -/
def Frame (s : Core) (k : ℕ) (f : SentFrame) : Prop := s.writes[k]? = some (.frame f)

structure Inv (s : Core) : Prop where
  streams : StreamStorage.Inv s.streamStorage
  once : ∀ (i : ℕ) (r : CallerRequest), s.requests[i]? = some r → r.notified ≤ 1
  waiting : ∀ i, s.Waiting i ↔ ∃ id, s.Held id i
  unique : ∀ id id' i, s.Held id i → s.Held id' i → id = id'
  frame : ∀ id, s.streamStorage.allocatedStreams id = true →
    ∃ k f, s.Frame k f ∧ f.stream = id ∧ f.request = s.streamStorage.storage id
  known : ∀ k f i, s.Frame k f → f.request = .request i → i < s.requests.length
  single : ∀ k k' f f' i, s.Frame k f → s.Frame k' f' → f.request = .request i →
    f'.request = .request i → k = k'

/-! ## Sending -/

/-- The streams after a frame is sent. -/
theorem Sends.allocated (h : s.Sends f s') (id : ℕ) :
    s'.streamStorage.allocatedStreams id = if id = f.stream then true
      else s.streamStorage.allocatedStreams id := by
  obtain ⟨id', rest, -, hout, -, -, halloc, -⟩ := setStream_ok h.free f.request
  rw [h.stream] at hout
  cases hout
  rw [h.eq]
  simp only [halloc, Function.update_apply]

theorem Sends.storage (h : s.Sends f s') (id : ℕ) :
    s'.streamStorage.storage id = if id = f.stream then f.request
      else s.streamStorage.storage id := by
  obtain ⟨id', rest, -, hout, -, -, -, hstorage⟩ := setStream_ok h.free f.request
  rw [h.stream] at hout
  cases hout
  rw [h.eq]
  simp only [hstorage, Function.update_apply]

/-- The stream was free. -/
theorem Sends.free_stream (hs : StreamStorage.Inv s.streamStorage) (h : s.Sends f s') :
    1 ≤ f.stream ∧ f.stream ≤ cqlStreamIdMax ∧
      s.streamStorage.allocatedStreams f.stream = false := by
  obtain ⟨id', rest, hfree, hout, -⟩ := setStream_ok h.free f.request
  rw [h.stream] at hout
  cases hout
  exact (hs.mem_free _).1 (by simp [hfree])

theorem Sends.streams (hs : StreamStorage.Inv s.streamStorage) (h : s.Sends f s') :
    StreamStorage.Inv s'.streamStorage := by
  rw [h.eq]
  exact hs.setStream f.request

theorem Sends.frames (h : s.Sends f s') (k : ℕ) (g : SentFrame) :
    s'.Frame k g ↔ s.Frame k g ∨ k = s.writes.length ∧ g = f := by
  rw [Frame, Frame, h.eq]
  rcases Nat.lt_trichotomy k s.writes.length with hk | rfl | hk
  · rw [List.getElem?_append_left hk]
    simp [Nat.ne_of_lt hk]
  · simp [eq_comm]
  · rw [List.getElem?_eq_none (by simp; omega), List.getElem?_eq_none (by omega)]
    simp [Nat.ne_of_gt hk]

theorem Sends.held (hs : StreamStorage.Inv s.streamStorage) (h : s.Sends f s') (id i : ℕ) :
    s'.Held id i ↔ s.Held id i ∨ id = f.stream ∧ f.request = .request i := by
  rw [Held, Held, h.allocated, h.storage]
  by_cases hid : id = f.stream
  · subst hid
    simp [(h.free_stream hs).2.2]
  · simp [hid]

theorem Sends.requests (h : s.Sends f s') : s'.requests = s.requests := by rw [h.eq]

theorem Sends.responses (h : s.Sends f s') : s'.responses = s.responses := by rw [h.eq]

/-! ## The invariant -/

/-- The invariant after a frame is sent, for the connection's own frames and for
    a request that is new. -/
theorem Inv.sends (hs : StreamStorage.Inv s.streamStorage)
    (honce : ∀ (i : ℕ) (r : CallerRequest), s.requests[i]? = some r → r.notified ≤ 1)
    (hwaiting : ∀ i, s.Waiting i ↔ (∃ id, s.Held id i) ∨ f.request = .request i)
    (hunique : ∀ id id' i, s.Held id i → s.Held id' i → id = id')
    (hframe : ∀ id, s.streamStorage.allocatedStreams id = true →
      ∃ k f, s.Frame k f ∧ f.stream = id ∧ f.request = s.streamStorage.storage id)
    (hknown : ∀ k f i, s.Frame k f → f.request = .request i → i < s.requests.length)
    (hsingle : ∀ k k' f f' i, s.Frame k f → s.Frame k' f' → f.request = .request i →
      f'.request = .request i → k = k')
    (hnew : ∀ i, f.request = .request i → i < s.requests.length ∧ (∀ id, ¬ s.Held id i) ∧
      ∀ k g, s.Frame k g → g.request ≠ .request i)
    (h : s.Sends f s') : s'.Inv where
  streams := h.streams hs
  once i r hr := honce i r (by rwa [h.requests] at hr)
  waiting i := by
    rw [Waiting, h.requests, ← Waiting, hwaiting]
    constructor
    · rintro (⟨id, hid⟩ | hf)
      · exact ⟨id, (h.held hs id i).2 (.inl hid)⟩
      · exact ⟨f.stream, (h.held hs _ i).2 (.inr ⟨rfl, hf⟩)⟩
    · rintro ⟨id, hid⟩
      rcases (h.held hs id i).1 hid with hid | ⟨-, hf⟩
      · exact .inl ⟨id, hid⟩
      · exact .inr hf
  unique id id' i h₁ h₂ := by
    rcases (h.held hs id i).1 h₁ with h₁ | ⟨rfl, hf₁⟩ <;>
      rcases (h.held hs id' i).1 h₂ with h₂ | ⟨rfl, hf₂⟩
    · exact hunique id id' i h₁ h₂
    · exact absurd h₁ ((hnew i hf₂).2.1 id)
    · exact absurd h₂ ((hnew i hf₁).2.1 id')
    · rfl
  frame id halloc := by
    rw [h.allocated] at halloc
    by_cases hid : id = f.stream
    · subst hid
      exact ⟨s.writes.length, f, (h.frames _ _).2 (.inr ⟨rfl, rfl⟩), rfl, by
        rw [h.storage, if_pos rfl]⟩
    · rw [if_neg hid] at halloc
      obtain ⟨k, g, hk, hg, hreq⟩ := hframe id halloc
      exact ⟨k, g, (h.frames k g).2 (.inl hk), hg, by rw [h.storage, if_neg hid, hreq]⟩
  known k g i hk hg := by
    rw [h.requests]
    rcases (h.frames k g).1 hk with hk | ⟨-, rfl⟩
    · exact hknown k g i hk hg
    · exact (hnew i hg).1
  single k k' g g' i hk hk' hg hg' := by
    rcases (h.frames k g).1 hk with hk | ⟨rfl, rfl⟩ <;>
      rcases (h.frames k' g').1 hk' with hk' | ⟨rfl, rfl⟩
    · exact hsingle k k' g g' i hk hk' hg hg'
    · exact absurd hg ((hnew i hg').2.2 k g hk)
    · exact absurd hg' ((hnew i hg).2.2 k' g' hk')
    · rfl

/-- The responses do not matter. -/
theorem Inv.responses (h : s.Inv) (ms : List Message) : ({ s with responses := ms } : Core).Inv :=
  ⟨h.streams, h.once, h.waiting, h.unique, h.frame, h.known, h.single⟩

/-- The connection's own frames. -/
theorem Inv.own (h : s.Inv) (hown : s.Own s') : s'.Inv := by
  rcases hown with rfl | ⟨f, hf, hsends⟩
  · exact h
  · exact Inv.sends h.streams h.once (fun i => by simp [h.waiting, hf]) h.unique h.frame h.known
      h.single (fun i hi => by rw [hf] at hi; cases hi) hsends

/-- A new request, at the end of the list. -/
theorem requests_append {l : List CallerRequest} {r r' : CallerRequest} {i : ℕ} :
    (l ++ [r])[i]? = some r' ↔ l[i]? = some r' ∨ i = l.length ∧ r = r' := by
  rcases Nat.lt_trichotomy i l.length with hi | rfl | hi
  · rw [List.getElem?_append_left hi]
    simp [Nat.ne_of_lt hi]
  · simp
  · rw [List.getElem?_eq_none (by simp; omega), List.getElem?_eq_none (by omega)]
    simp [Nat.ne_of_gt hi]

/-- A request that an allocated stream holds is one of the requests. -/
theorem Inv.held_lt (h : s.Inv) {id i : ℕ} (hid : s.Held id i) : i < s.requests.length := by
  obtain ⟨r, hr, -⟩ := (h.waiting i).2 ⟨id, hid⟩
  exact (List.getElem?_eq_some_iff.1 hr).1

/-- The output of the SSL session is not a frame. -/
theorem frame_output (s : Core) (bytes : List UInt8) (k : ℕ) (g : SentFrame) :
    ({ s with writes := s.writes ++ [.sslOutput bytes] } : Core).Frame k g ↔ s.Frame k g := by
  rw [Frame, Frame]
  rcases Nat.lt_trichotomy k s.writes.length with hk | rfl | hk
  · rw [List.getElem?_append_left hk]
  · simp
  · rw [List.getElem?_eq_none (by simp; omega), List.getElem?_eq_none (by omega)]

/-- A new request. -/
theorem Inv.requests (h : s.Inv) (hreq : s.Requests s') : s'.Inv := by
  cases hreq with
  | sends r f hr hres hf hsends =>
    refine Inv.sends (s := { s with requests := s.requests ++ [r] }) h.streams ?_ ?_ h.unique
      h.frame ?_ h.single ?_ hsends
    · intro i r' hr'
      rcases requests_append.1 hr' with hr' | ⟨-, rfl⟩
      · exact h.once i r' hr'
      · omega
    · intro i
      simp only [Waiting, requests_append, or_and_right, exists_or]
      rw [← Waiting, h.waiting]
      refine or_congr Iff.rfl ⟨?_, ?_⟩
      · rintro ⟨r', ⟨rfl, rfl⟩, -⟩
        exact hf
      · intro hi
        rw [hf] at hi
        cases hi
        exact ⟨r, ⟨rfl, rfl⟩, hr⟩
    · intro k g i hk hg
      have := h.known k g i hk hg
      simp only [List.length_append]
      omega
    · intro i hi
      rw [hf] at hi
      cases hi
      refine ⟨by simp, fun id hid => ?_, fun k g hk hg => ?_⟩
      · exact absurd (h.held_lt hid) (Nat.lt_irrefl _)
      · exact absurd (h.known k g _ hk hg) (Nat.lt_irrefl _)
  | refused r hr hres hfull heq =>
    subst heq
    refine ⟨h.streams, ?_, ?_, h.unique, h.frame, ?_, h.single⟩
    · intro i r' hr'
      rcases requests_append.1 hr' with hr' | ⟨-, rfl⟩
      · exact h.once i r' hr'
      · omega
    · intro i
      have hheld : (∃ id, s.Held id i) ↔
          ∃ id, ({ s with requests := s.requests ++ [r] } : Core).Held id i := Iff.rfl
      rw [← hheld, ← h.waiting]
      simp only [Waiting, requests_append]
      constructor
      · rintro ⟨r', hr' | ⟨-, rfl⟩, hn⟩
        · exact ⟨r', hr', hn⟩
        · omega
      · rintro ⟨r', hr', hn⟩
        exact ⟨r', .inl hr', hn⟩
    · intro k g i hk hg
      have := h.known k g i hk hg
      simp only [List.length_append]
      omega

/-- **The invariant is kept by every action** that is not a dispatch. -/
theorem Inv.acts (h : s.Inv) (hacts : s.Acts s') : s'.Inv := by
  cases hacts with
  | own hown => exact h.own hown
  | output bytes heq =>
    subst heq
    have hframes := s.frame_output bytes
    exact ⟨h.streams, h.once, h.waiting, h.unique, by simpa only [hframes] using h.frame,
      by simpa only [hframes] using h.known, by simpa only [hframes] using h.single⟩
  | request hreq => exact h.requests hreq

/-! ## Completion -/

/-- The request `i`, on the stream `id`, is completed with the next response. -/
structure Completes (s : Core) (id i : ℕ) (s' : Core) : Prop where
  held : s.Held id i
  streams : s'.streamStorage = (s.streamStorage.getStream id true).1
  requests : s'.requests =
    (s.requests.modify i fun r => { r with result := some s.responses.length }).modify i
      CallerRequest.notify
  writes : s'.writes = s.writes

theorem Completes.allocated (hs : StreamStorage.Inv s.streamStorage) {id₀ i₀ : ℕ}
    (h : s.Completes id₀ i₀ s') (id : ℕ) :
    s'.streamStorage.allocatedStreams id =
      if id = id₀ then false else s.streamStorage.allocatedStreams id := by
  obtain ⟨-, -, -, halloc, -⟩ := getStream_release hs (by decide) h.held.1
  rw [h.streams, halloc, Function.update_apply]

theorem Completes.storage (hs : StreamStorage.Inv s.streamStorage) {id₀ i₀ : ℕ}
    (h : s.Completes id₀ i₀ s') : s'.streamStorage.storage = s.streamStorage.storage := by
  obtain ⟨-, -, -, -, hstorage⟩ := getStream_release hs (by decide) h.held.1
  rw [h.streams, hstorage]

theorem Completes.held_iff (hs : StreamStorage.Inv s.streamStorage) {id₀ i₀ : ℕ}
    (h : s.Completes id₀ i₀ s') (id i : ℕ) : s'.Held id i ↔ id ≠ id₀ ∧ s.Held id i := by
  rw [Held, Held, h.allocated hs, h.storage hs]
  by_cases hid : id = id₀ <;> simp [hid]

theorem Completes.frames {id₀ i₀ : ℕ} (h : s.Completes id₀ i₀ s') (k : ℕ) (g : SentFrame) :
    s'.Frame k g ↔ s.Frame k g := by
  rw [Frame, Frame, h.writes]

/-- The requests afterwards: this one has the response and is notified. -/
theorem Completes.request {id₀ i₀ : ℕ} (h : s.Completes id₀ i₀ s') (i : ℕ) :
    s'.requests[i]? = if i = i₀ then
      s.requests[i]?.map fun r => { r.notify with result := some s.responses.length }
      else s.requests[i]? := by
  rw [h.requests, List.getElem?_modify, List.getElem?_modify]
  by_cases hi : i = i₀
  · subst hi
    rcases s.requests[i]? with _ | r <;> simp [CallerRequest.notify]
  · simp [hi, Ne.symm hi]

theorem Completes.waiting {id₀ i₀ : ℕ} (hc : s.Completes id₀ i₀ s') (i : ℕ) :
    s'.Waiting i ↔ i ≠ i₀ ∧ s.Waiting i := by
  rw [Waiting, hc.request]
  by_cases hi : i = i₀
  · subst hi
    rcases s.requests[i]? with _ | r <;> simp [CallerRequest.notify]
  · simp [hi, Waiting]

/-- **A completion keeps the invariant.** -/
theorem Inv.completes (h : s.Inv) {id₀ i₀ : ℕ} (hc : s.Completes id₀ i₀ s') : s'.Inv where
  streams := by
    rw [hc.streams]
    exact h.streams.getStream (by decide) id₀ true
  once i r hr := by
    rw [hc.request] at hr
    by_cases hi : i = i₀
    · subst hi
      obtain ⟨r₀, hr₀, hn⟩ := (h.waiting i).2 ⟨id₀, hc.held⟩
      rw [if_pos rfl, hr₀] at hr
      cases hr
      simp [CallerRequest.notify, hn]
    · rw [if_neg hi] at hr
      exact h.once i r hr
  waiting i := by
    rw [hc.waiting, h.waiting]
    constructor
    · rintro ⟨hi, id, hid⟩
      refine ⟨id, (hc.held_iff h.streams id i).2 ⟨?_, hid⟩⟩
      rintro rfl
      exact hi (RequestPtr.request.inj (hid.2.symm.trans hc.held.2))
    · rintro ⟨id, hid⟩
      obtain ⟨hne, hid⟩ := (hc.held_iff h.streams id i).1 hid
      refine ⟨?_, id, hid⟩
      rintro rfl
      exact hne (h.unique id id₀ i hid hc.held)
  unique id id' i h₁ h₂ :=
    h.unique id id' i ((hc.held_iff h.streams id i).1 h₁).2 ((hc.held_iff h.streams id' i).1 h₂).2
  frame id halloc := by
    rw [hc.allocated h.streams] at halloc
    split at halloc
    · cases halloc
    · obtain ⟨k, g, hk, hg, hreq⟩ := h.frame id halloc
      exact ⟨k, g, (hc.frames k g).2 hk, hg, by rw [hc.storage h.streams, hreq]⟩
  known k g i hk hg := by
    rw [hc.requests, List.length_modify, List.length_modify]
    exact h.known k g i ((hc.frames k g).1 hk) hg
  single k k' g g' i hk hk' hg hg' :=
    h.single k k' g g' i ((hc.frames k g).1 hk) ((hc.frames k' g').1 hk') hg hg'

/-- **The invariant is kept by every response.** -/
theorem Inv.dispatches (h : s.Inv) (hd : s.Dispatches message s') : s'.Inv := by
  cases hd with
  | keeps _ hown => exact (h.responses _).own hown
  | unknown _ _ heq =>
    subst heq
    exact h.responses _
  | completes _ i halloc hstorage heq =>
    subst heq
    exact h.completes ⟨⟨halloc, hstorage⟩, rfl, rfl, rfl⟩

/-- A fresh connection. -/
theorem inv_new (heap : Memory) (nullString : NullString) (ssl prepareCallback : Bool) :
    (Connection.new heap nullString ssl prepareCallback).toCore.Inv where
  streams := StreamStorage.inv_new _
  once i r hr := by simp [Connection.new] at hr
  waiting i := by simp [Waiting, Held, Connection.new, StreamStorage.new]
  unique id id' i h₁ _ := by cases h₁.1
  frame id halloc := by cases halloc
  known k f i hk := by simp [Frame, Connection.new] at hk
  single k k' f f' i hk := by simp [Frame, Connection.new] at hk

end Core

/-! ## Runs -/

namespace Connection

/-- The runs of a connection, whatever happens to it. -/
def system : System Connection Action where
  init c := ∃ heap nullString ssl prepareCallback, c = new heap nullString ssl prepareCallback
  step c a c' := perform a c = (c', none)

theorem inv_perform {c c' : Connection} {a : Action} (h : c.toCore.Inv)
    (ha : perform a c = (c', none)) : c'.toCore.Inv := by
  by_cases hd : ∃ message, a = .dispatch message
  · obtain ⟨message, rfl⟩ := hd
    exact h.dispatches (dispatch_effect ha)
  · exact h.acts (perform_effect (fun message hm => hd ⟨message, hm⟩) ha)

/-- **The requests and the streams agree** in every run. -/
theorem inv_of_reachable {c : Connection} (h : system.Reachable c) : c.toCore.Inv := by
  refine h.invariant (I := fun c => c.toCore.Inv) ?_ ?_
  · rintro c ⟨heap, nullString, ssl, prepareCallback, rfl⟩
    exact Core.inv_new heap nullString ssl prepareCallback
  · intro c a c' _ hc hstep
    exact inv_perform hc hstep

/-- A connection without SSL, with the common library. -/
def fresh : Connection := new (fun _ => 0) .throws false false

/-- The same with a library that makes the empty string of `NULL`, so that `exec`
    and `prepare` return. -/
def lenient : Connection := new (fun _ => 0) (.returns []) false false

end Connection

/-! ## Some messages -/

def queryMessage : Message :=
  { Message.new fun _ => 0 with opcode := cqlOpcodeQuery, body := some (.query {}) }

/-- A response on stream 1. -/
def response (opcode : UInt8) (body : Body) : Message :=
  { Message.new fun _ => 0 with opcode := opcode, stream := 1, body := some body }

def voidResponse : Message := response cqlOpcodeResult (.result { kind := cqlResultKindVoid })

def supportedResponse : Message := response cqlOpcodeSupported (.supported {})

def readyResponse : Message := response cqlOpcodeReady .ready

def errorResponse : Message := response cqlOpcodeError (.error (.ofText 0 (ascii "no")))

end CqlClient
