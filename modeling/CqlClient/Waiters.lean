/-
  CqlClient formalization — the threads that wait for the requests of a connection.

  A connection runs in the thread of its loop, and calls `notify` where it completes a
  request or refuses it.  Any number of other threads wait for the requests meanwhile.
  Every step of the connection, and every load, store and lock of a thread, is a step of
  the two together.

  Whoever comes back from `wait`, or from `wait_for` with true, finds a result or an
  error at the request (`relied_of_reachable`), and once a request is complete all that
  wait for it come back, but for those that its `notify` has missed (`come_back`).
-/
import CqlClient.Lib.Refinement
import CqlClient.Refused
import CqlClient.RequestProgress

namespace CqlClient

/-! ## What a thread that comes back has seen -/

namespace Request
variable {τ : Type}

/-- The thread leaves a function that waits, and the request is said to be ready. -/
def LeavesReady (s : State τ) (x : τ) (label : Label) : Prop :=
  match s.pc x, label with
  | .idle, .wait _ => s.flag = true
  | .unlock .wait _, .step => True
  | .unlock .waitFor value, .step => value = true
  | _, _ => False

/-- Only `wait_for` times out, and whoever has found the flag set is right. -/
def Pc.Truthful (flag : Bool) : Pc → Prop
  | unlock w value => w = .wait ∨ value = true → flag = true
  | recheck w => w = .waitFor
  | woken w timedOut => timedOut = true → w = .waitFor
  | _ => True

theorem Pc.Truthful.mono {flag flag' : Bool} {p : Pc} (h : p.Truthful flag)
    (hflag : flag = true → flag' = true) : p.Truthful flag' := by
  cases p with
  | unlock w value => exact fun hready => hflag (h hready)
  | _ => exact h

theorem Pc.Truthful.wake {flag : Bool} {p : Pc} (h : p.Truthful flag) :
    p.wake.Truthful flag := by
  cases p with
  | asleep w => exact fun htimedOut => by cases htimedOut
  | _ => exact h

variable {s s' : State τ} {x : τ} {label : Label}

/-- Another thread is in `notify` just if it was before. -/
theorem Moves.notifyAll_iff (h : Moves s x label s') {y : τ} (hy : y ≠ x) :
    s'.pc y = .notifyAll ↔ s.pc y = .notifyAll := by
  rcases h.others with hpc | ⟨-, hpc⟩
  · rw [hpc y hy]
  · rw [hpc y hy]
    cases s.pc y <;> simp [Pc.wake]

variable [DecidableEq τ]

theorem truthful_goto {p : Pc} {flag : Bool} {pc : τ → Pc} (hpc : s'.pc = Function.update pc x p)
    (hflag : s'.flag = flag) (hp : p.Truthful flag) : (s'.pc x).Truthful s'.flag := by
  rw [hpc, hflag, Function.update_self]
  exact hp

/-- The place that a step leads to. -/
theorem truthful_pc (h : ∀ y, (s.pc y).Truthful s.flag) (hs : s.step x label = some s') :
    (s'.pc x).Truthful s'.flag := by
  have hx := h x
  unfold State.step at hs
  split at hs
  · split at hs
    · cases hs
      exact truthful_goto (pc_leave s x _ _) rfl trivial
    · cases hs
      exact truthful_goto rfl rfl trivial
  · cases hs
    exact truthful_goto rfl rfl trivial
  · split at hs
    · cases hs
      exact truthful_goto rfl rfl trivial
    · cases hs
  · cases hs
    refine truthful_goto rfl rfl ?_
    split
    · rename_i hflag
      exact fun _ => hflag
    · trivial
  · cases hs
    exact truthful_goto rfl rfl trivial
  · cases hs
    refine truthful_goto rfl rfl ?_
    intro htimedOut
    cases htimedOut
  · cases hs
    exact truthful_goto rfl rfl fun _ => rfl
  · rename_i w timedOut hpc
    rw [hpc] at hx
    split at hs
    · cases hs
      refine truthful_goto rfl rfl ?_
      cases timedOut with
      | false => trivial
      | true => exact hx rfl
    · cases hs
  · rename_i w hpc
    rw [hpc] at hx
    cases hs
    refine truthful_goto rfl rfl ?_
    rintro (rfl | hflag)
    · cases hx
    · exact hflag
  · cases hs
    exact truthful_goto (pc_leave s x _ _) rfl trivial
  · cases hs
    exact truthful_goto rfl rfl trivial
  · cases hs

theorem truthful_of_reachable (h : (system τ).Reachable s) (x : τ) :
    (s.pc x).Truthful s.flag := by
  refine h.invariant (I := fun s => ∀ x, (s.pc x).Truthful s.flag) ?_ ?_ x
  · rintro s ⟨callback, useLocalLoop, rfl⟩ x
    trivial
  · intro s a s' _ ih hs y
    have hm := moves_of_step hs
    by_cases hy : y = a.1
    · rw [hy]
      exact truthful_pc ih hs
    · have hmono := (ih y).mono hm.flag_true
      rcases hm.others with hpc | ⟨-, hpc⟩
      · rw [hpc y hy]
        exact hmono
      · rw [hpc y hy]
        exact hmono.wake

/-- **Nobody is told too early.** -/
theorem flag_of_leavesReady (h : (system τ).Reachable s) (hleaves : LeavesReady s x label) :
    s.flag = true := by
  have htruthful := truthful_of_reachable h x
  unfold LeavesReady at hleaves
  split at hleaves
  · exact hleaves
  · rename_i hpc
    rw [hpc] at htruthful
    exact htruthful (.inl rfl)
  · rename_i hpc
    rw [hpc] at htruthful
    exact htruthful (.inr hleaves)
  · cases hleaves

/-- What a step does to the callback: the end of `notify` calls it or queues it. -/
structure Counts (s : State τ) (x : τ) (label : Label) (s' : State τ) : Prop where
  callback : s'.callback = s.callback
  useLocalLoop : s'.useLocalLoop = s.useLocalLoop
  ends : s.pc x = .notifyAll ∧ s' = s.notifyAll x ∨
    s.pc x ≠ .notifyAll ∧ s'.notified = s.notified ∧ s'.out = s.out ∧
      (s'.pc x = .notifyAll → label = .notify)

theorem counts_goto {p : Pc} (hpc : s'.pc = Function.update s.pc x p) (hx : s.pc x ≠ .notifyAll)
    (hp : p = .notifyAll → label = .notify) (hcallback : s'.callback = s.callback)
    (hlocal : s'.useLocalLoop = s.useLocalLoop) (hnotified : s'.notified = s.notified)
    (hout : s'.out = s.out) : Counts s x label s' := by
  refine ⟨hcallback, hlocal, .inr ⟨hx, hnotified, hout, ?_⟩⟩
  rw [hpc, Function.update_self]
  exact hp

theorem counts_leave {w : Wait} {r : Return} (s' : State τ) (hx : s.pc x ≠ .notifyAll)
    (hs : s' = s.leave x w r ∨ s' = { s.leave x w r with mutex := none }) :
    Counts s x label s' := by
  have hidle : Pc.idle = .notifyAll → label = .notify := by
    intro h
    cases h
  rcases hs with rfl | rfl
  · cases w with
    | wait => exact counts_goto rfl hx hidle rfl rfl rfl rfl
    | waitFor => exact counts_goto rfl hx hidle rfl rfl rfl rfl
  · cases w with
    | wait => exact counts_goto rfl hx hidle rfl rfl rfl rfl
    | waitFor => exact counts_goto rfl hx hidle rfl rfl rfl rfl

theorem counts_of_step (hs : s.step x label = some s') : Counts s x label s' := by
  unfold State.step at hs
  split at hs
  · rename_i w hx
    split at hs
    · cases hs
      exact counts_leave _ (by simp [hx]) (.inl rfl)
    · cases hs
      exact counts_goto rfl (by simp [hx]) (by simp) rfl rfl rfl rfl
  · rename_i hx
    cases hs
    exact counts_goto rfl (by simp [hx]) (fun _ => rfl) rfl rfl rfl rfl
  · rename_i w hx
    split at hs
    · cases hs
      exact counts_goto rfl (by simp [hx]) (by simp) rfl rfl rfl rfl
    · cases hs
  · rename_i w hx
    cases hs
    refine counts_goto rfl (by simp [hx]) ?_ rfl rfl rfl rfl
    split <;> simp
  · rename_i w hx
    cases hs
    exact counts_goto rfl (by simp [hx]) (by simp) rfl rfl rfl rfl
  · rename_i w hx
    cases hs
    exact counts_goto rfl (by simp [hx]) (by simp) rfl rfl rfl rfl
  · rename_i hx
    cases hs
    exact counts_goto rfl (by simp [hx]) (by simp) rfl rfl rfl rfl
  · rename_i w timedOut hx
    split at hs
    · cases hs
      refine counts_goto rfl (by simp [hx]) ?_ rfl rfl rfl rfl
      split <;> simp
    · cases hs
  · rename_i w hx
    cases hs
    exact counts_goto rfl (by simp [hx]) (by simp) rfl rfl rfl rfl
  · rename_i w value hx
    cases hs
    exact counts_leave _ (by simp [hx]) (.inr rfl)
  · rename_i hx
    cases hs
    exact ⟨rfl, rfl, .inl ⟨hx, rfl⟩⟩
  · cases hs

variable {as : List (τ × Label)} {w : Wait}

/-- Once the flag is set, who sleeps in the end was asleep before, or about to sleep. -/
theorem sleeper_of_path (hp : (system τ).Path s as s') (hflag : s.flag = true)
    (hx : s'.pc x = .asleep w ∨ s'.pc x = .sleep w) :
    s.pc x = .asleep w ∨ s.pc x = .sleep w := by
  induction hp with
  | nil s => exact hx
  | cons hs _ ih =>
    have hm := moves_of_step hs
    exact hm.sleeper hflag (ih (hm.flag_true hflag) hx)

/-- **Who sleeps when `notify_all` is still to come is woken.** -/
theorem woken_of_path {z : τ} (hp : (system τ).Path s as s') (hflag : s.flag = true)
    (hz : s.pc z = .notifyAll) (hback : s'.pc z ≠ .notifyAll) (hx : s'.pc x = .asleep w) :
    s.pc x = .sleep w := by
  induction hp with
  | nil s => exact absurd hz hback
  | @cons s s₁ s₂ a as hs hp ih =>
    have hm := moves_of_step hs
    by_cases ha : a.1 = z
    · -- this is `notify_all`
      subst ha
      obtain ⟨-, -, ⟨-, rfl⟩ | ⟨hne, -⟩⟩ := counts_of_step hs
      swap
      · exact absurd hz hne
      by_cases hxa : x = a.1
      · subst hxa
        have hsleep := sleeper_of_path hp hflag (.inl hx)
        simp [State.notifyAll] at hsleep
      · have hsleep := sleeper_of_path hp hflag (.inl hx)
        simp only [State.notifyAll, Function.update_of_ne hxa] at hsleep
        cases hpc : s.pc x <;> simp_all [Pc.wake]
    · have hz₁ := (hm.notifyAll_iff (Ne.symm ha)).2 hz
      have hsleep := ih (hm.flag_true hflag) hz₁ hback hx
      by_cases hxa : x = a.1
      · subst hxa
        have hclear := hm.tires w hsleep
        rw [hflag] at hclear
        cases hclear
      · rcases hm.others with hpc | ⟨-, hpc⟩
        · rwa [hpc x hxa] at hsleep
        · rw [hpc x hxa] at hsleep
          cases hpc' : s.pc x <;> simp_all [Pc.wake]

end Request

/-! ## What a call does to a request -/

/-- A request before a call, if there was one, and after it. -/
inductive CallerRequest.Changes (old : Option CallerRequest) (new : CallerRequest) : Prop where
  | same (h : old = some new)
  | completed (r : CallerRequest) (response : ℕ) (h : old = some r) (hr : r.notified = 0)
    (hnew : new = { r.notify with result := some response })
  | sent (h : old = none) (hnew : new.notified = 0)
  | refused (h : old = none) (hnew : new.notified = 1) (herror : new.error ≠ none)

/-- The request has its result, or the error that it was refused with. -/
def Core.Complete (s : Core) (i : ℕ) : Prop :=
  ∃ r : CallerRequest, s.requests[i]? = some r ∧ (r.result ≠ none ∨ r.error ≠ none)

namespace Connection
variable {c c' : Connection} {i : ℕ} {r : CallerRequest}

theorem changes_of_same (hsame : c'.requests = c.requests) (hr : c'.requests[i]? = some r) :
    CallerRequest.Changes c.requests[i]? r := by
  rw [hsame] at hr
  exact .same hr

/-- A new request is the last one. -/
theorem changes_of_concat {r' : CallerRequest} (hconcat : c'.requests = c.requests ++ [r'])
    (hr : c'.requests[i]? = some r) (hnew : c.requests[i]? = none → r = r' →
      CallerRequest.Changes c.requests[i]? r) : CallerRequest.Changes c.requests[i]? r := by
  rw [hconcat] at hr
  rcases Nat.lt_or_ge i c.requests.length with hlt | hge
  · rw [List.getElem?_append_left hlt] at hr
    exact .same hr
  · rw [List.getElem?_append_right hge] at hr
    refine hnew (List.getElem?_eq_none hge) ?_
    rcases hi : i - c.requests.length with _ | n
    · rw [hi] at hr
      exact (Option.some.inj hr).symm
    · rw [hi] at hr
      cases hr

/-- `exec` and `prepare`. -/
theorem changes_of_sendRequest {message : Message} {r' : CallerRequest} (hzero : r'.notified = 0)
    (hres : r'.result = none) (h : outcome (c.sendRequest message r') = (c', none))
    (hr : c'.requests[i]? = some r) : CallerRequest.Changes c.requests[i]? r := by
  cases sendRequest_effect hzero hres h with
  | sends r'' f hr'' _ _ hsends =>
    refine changes_of_concat hsends.requests hr ?_
    rintro hnone rfl
    exact .sent hnone hr''
  | refused _ _ _ hfull _ =>
    rw [sendRequest_full hfull] at h
    cases h
    refine changes_of_concat rfl hr ?_
    rintro hnone rfl
    exact .refused hnone (congrArg (· + 1) hzero) (Option.some_ne_none _)

/-- **Every call.** -/
theorem changes (hc : c.toCore.Inv) {a : Action} (h : perform a c = (c', none))
    (hr : c'.requests[i]? = some r) : CallerRequest.Changes c.requests[i]? r := by
  by_cases hd : ∃ message, a = .dispatch message
  · obtain ⟨message, rfl⟩ := hd
    cases dispatch_effect h with
    | keeps _ hown => exact changes_of_same hown.requests hr
    | unknown _ _ heq =>
      refine changes_of_same ?_ hr
      rw [heq]
    | completes _ j halloc hstorage heq =>
      have hcompletes : c.Completes message.stream.toNat j c'.toCore := by
        rw [heq]
        exact ⟨⟨halloc, hstorage⟩, rfl, rfl, rfl⟩
      rw [hcompletes.request] at hr
      split at hr
      · rename_i hij
        subst hij
        obtain ⟨r', hr', hzero⟩ := (hc.waiting i).2 ⟨_, hcompletes.held⟩
        rw [hr'] at hr
        cases hr
        exact .completed r' _ hr' hzero rfl
      · exact .same hr
  · have hne : ∀ message, a ≠ .dispatch message := fun message hm => hd ⟨message, hm⟩
    rcases hreq : a.isRequest with _ | _
    · rcases other_effect hne hreq h with hown | ⟨bytes, -, heq⟩
      · exact changes_of_same hown.requests hr
      · refine changes_of_same ?_ hr
        rw [heq]
    · rcases request_cases hreq c with ⟨-, heq⟩ | ⟨-, message, new, hzero, hres, -, -, heq⟩
      · obtain rfl : c = c' := congrArg Prod.fst (heq.symm.trans h)
        exact .same hr
      · exact changes_of_sendRequest hzero hres (heq.symm.trans h) hr

/-- **A request that was notified is complete**, in every run. -/
theorem complete_of_notified (h : system.Reachable c) (hr : c.requests[i]? = some r)
    (hn : r.notified ≠ 0) : c.Complete i := by
  refine h.invariant (I := fun c => ∀ (i : ℕ) (r : CallerRequest), c.requests[i]? = some r →
    r.notified ≠ 0 → c.Complete i) ?_ ?_ i r hr hn
  · rintro c ⟨heap, nullString, ssl, prepareCallback, rfl⟩ i r hr
    simp [Connection.new] at hr
  · intro c a c' hreach ih hstep i r hr hn
    rcases changes (inv_of_reachable hreach) hstep hr with hsame | ⟨r', j, -, -, rfl⟩ |
      ⟨-, hzero⟩ | ⟨-, -, herror⟩
    · obtain ⟨r', hr', hcomplete⟩ := ih i r hsame hn
      rw [hsame] at hr'
      cases hr'
      exact ⟨r, hr, hcomplete⟩
    · exact ⟨_, hr, .inl (Option.some_ne_none j)⟩
    · exact absurd hzero hn
    · exact ⟨r, hr, .inr herror⟩

end Connection

/-! ## The connection and the threads -/

/-- A connection, and the threads that wait for its requests.  The loop is the thread
    `none`, and the places of the threads are kept with each request. -/
structure Waiters (τ : Type) where
  conn : Connection
  requests : List (Request.State (Option τ))

inductive WaitersAction (τ : Type) where
  /-- a call into the connection -/
  | act (a : Action)
  /-- a thread in a function of request `i` -/
  | thread (i : ℕ) (x : Option τ) (label : Request.Label)

namespace Waiters
variable {τ : Type} [DecidableEq τ]

/-- Request `i`, which is `r` after a call into the connection: the loop is in `notify` if
    the call has called it. -/
def follow (c : Connection) (states : List (Request.State (Option τ))) (i : ℕ)
    (r : CallerRequest) : Request.State (Option τ) :=
  let s := states.getD i { callback := r.callback }
  if (c.requests[i]?.map CallerRequest.notified).getD 0 < r.notified then
    (s.step none .notify).getD s
  else s

/-- The runs of a connection and of the threads `τ`.  The loop does not go on before it is
    back from `notify`, and nobody but the connection calls it. -/
def system (τ : Type) [DecidableEq τ] : System (Waiters τ) (WaitersAction τ) where
  init t := Connection.system.init t.conn ∧ t.requests = []
  step t a t' :=
    match a with
    | .act a => (∀ s ∈ t.requests, s.pc none = .idle) ∧
      Connection.perform a t.conn = (t'.conn, none) ∧
      t'.requests = t'.conn.requests.mapIdx (follow t.conn t.requests)
    | .thread i x label => label ≠ .notify ∧ t'.conn = t.conn ∧
      ∃ s s', t.requests[i]? = some s ∧ s.step x label = some s' ∧
        t'.requests = t.requests.set i s'

/-- The threads know of a request what the connection does. -/
structure Agrees (s : Request.State (Option τ)) (r : CallerRequest) : Prop where
  reachable : (Request.system (Option τ)).Reachable s
  flag : s.flag = true ↔ r.notified ≠ 0
  notified : r.notified = s.notified + (if s.pc none = .notifyAll then 1 else 0)
  others : ∀ x, s.pc (some x) ≠ .notifyAll
  callback : s.callback = r.callback
  remote : s.useLocalLoop = false
  out : s.out = if s.callback then List.replicate s.notified .queueWork else []

variable {s s' : Request.State (Option τ)} {r : CallerRequest} {x : Option τ}
  {label : Request.Label}

/-- A step of a thread. -/
theorem Agrees.thread (h : Agrees s r) (hs : s.step x label = some s') (hlabel : label ≠ .notify) :
    Agrees s' r := by
  have hm := Request.moves_of_step hs
  have hflag : s'.flag = s.flag := hm.flag.resolve_right fun hnotify => hlabel hnotify.1
  obtain ⟨hcallback, hlocal, hends⟩ := Request.counts_of_step hs
  refine ⟨h.reachable.step (a := (x, label)) hs, hflag ▸ h.flag, ?_, ?_, hcallback.trans h.callback,
    hlocal.trans h.remote, ?_⟩
  · rcases hends with ⟨hx, rfl⟩ | ⟨hx, hnotified, -, hp⟩
    · -- only the loop notifies
      cases x with
      | some y => exact absurd hx (h.others y)
      | none =>
        rw [h.notified, if_pos hx]
        simp [Request.State.notifyAll]
    · rw [h.notified, hnotified]
      cases x with
      | some y =>
        have hnone := hm.notifyAll_iff (y := none) (by simp)
        simp only [hnone]
      | none =>
        rw [if_neg hx, if_neg fun hp' => hlabel (hp hp')]
  · intro y hy
    by_cases hyx : some y = x
    · subst hyx
      rcases hends with ⟨hx, -⟩ | ⟨-, -, -, hp⟩
      · exact h.others y hx
      · exact hlabel (hp hy)
    · exact h.others y ((hm.notifyAll_iff hyx).1 hy)
  · rcases hends with ⟨hx, rfl⟩ | ⟨-, hnotified, hout, -⟩
    · have hout := h.out
      simp only [Request.State.notifyAll, h.remote, hout, Bool.false_eq_true, if_false]
      split <;> simp [List.replicate_succ']
    · rw [hout, hcallback, hnotified]
      exact h.out

/-- The connection calls `notify`. -/
theorem Agrees.notify {r' : CallerRequest} (h : Agrees s r) (hidle : s.pc none = .idle)
    (hzero : r.notified = 0) (hone : r'.notified = 1) (hcallback : r'.callback = r.callback) :
    Agrees ((s.step none .notify).getD s) r' := by
  have hs : s.step none .notify = some { s.goto none .notifyAll with flag := true } := by
    simp [Request.State.step, hidle]
  have hnotified := h.notified
  rw [hidle, if_neg (by simp)] at hnotified
  have hm := Request.moves_of_step hs
  rw [hs, Option.getD_some]
  refine ⟨h.reachable.step (a := (none, .notify)) hs, ?_, ?_, ?_, ?_, h.remote, h.out⟩
  · simp [hone]
  · simp only [Request.State.goto, Function.update_self, if_pos]
    omega
  · intro y hy
    exact h.others y ((hm.notifyAll_iff (by simp)).1 hy)
  · rw [hcallback]
    exact h.callback

/-! ## Runs -/

/-- There is a state of the threads for each request, which agrees with it. -/
structure Linked (t : Waiters τ) : Prop where
  length : t.requests.length = t.conn.requests.length
  agrees : ∀ (i : ℕ) (s : Request.State (Option τ)) (r : CallerRequest),
    t.requests[i]? = some s → t.conn.requests[i]? = some r → Agrees s r

variable {t t' : Waiters τ}

/-- A request that a call makes. -/
theorem agrees_new (callback : Bool) {r : CallerRequest} (hzero : r.notified = 0)
    (hcallback : r.callback = callback) :
    Agrees ({ callback } : Request.State (Option τ)) r := by
  refine ⟨.init ⟨callback, false, rfl⟩, ?_, ?_, ?_, hcallback.symm, rfl, ?_⟩
  · simp [hzero]
  · simp [hzero]
  · intro x hx
    cases hx
  · simp

theorem follow_old {c : Connection} {states : List (Request.State (Option τ))} {i : ℕ}
    {s : Request.State (Option τ)} {r r' : CallerRequest} (hs : states[i]? = some s)
    (hr : c.requests[i]? = some r) : follow c states i r' =
      if r.notified < r'.notified then (s.step none .notify).getD s else s := by
  simp [follow, List.getD_eq_getElem?_getD, hs, hr]

theorem follow_new {c : Connection} {states : List (Request.State (Option τ))} {i : ℕ}
    {r : CallerRequest} (hs : states[i]? = none) (hr : c.requests[i]? = none) :
    follow c states i r =
      if 0 < r.notified then
        (({ callback := r.callback } : Request.State (Option τ)).step none .notify).getD
          { callback := r.callback }
      else { callback := r.callback } := by
  simp [follow, List.getD_eq_getElem?_getD, hs, hr]

/-- A call into the connection. -/
theorem Linked.act (h : Linked t) (hinv : t.conn.Inv) {a : Action} {c : Connection}
    (hidle : ∀ s ∈ t.requests, s.pc none = .idle)
    (hperform : Connection.perform a t.conn = (c, none)) :
    Linked ⟨c, c.requests.mapIdx (follow t.conn t.requests)⟩ := by
  refine ⟨List.length_mapIdx, ?_⟩
  intro i s r hs hr
  have hs' : follow t.conn t.requests i r = s := by
    simpa [List.getElem?_mapIdx, hr] using hs
  subst hs'
  rcases Connection.changes hinv hperform hr with hsame | ⟨r', j, hr', hzero, rfl⟩ |
    ⟨hnone, hzero⟩ | ⟨hnone, hone, -⟩
  · have hlt : i < t.requests.length := h.length ▸ (List.getElem?_eq_some_iff.1 hsame).1
    have hat : t.requests[i]? = some t.requests[i] := List.getElem?_eq_getElem hlt
    rw [follow_old hat hsame, if_neg (Nat.lt_irrefl _)]
    exact h.agrees i _ r hat hsame
  · have hlt : i < t.requests.length := h.length ▸ (List.getElem?_eq_some_iff.1 hr').1
    have hat : t.requests[i]? = some t.requests[i] := List.getElem?_eq_getElem hlt
    have hone : r'.notify.notified = 1 := congrArg (· + 1) hzero
    rw [follow_old hat hr', if_pos (by simp only [hzero, hone, Nat.one_pos])]
    exact (h.agrees i _ r' hat hr').notify (hidle _ (List.getElem_mem hlt)) hzero hone rfl
  · have hge : t.requests.length ≤ i := h.length ▸ List.getElem?_eq_none_iff.1 hnone
    rw [follow_new (List.getElem?_eq_none hge) hnone, hzero, if_neg (Nat.lt_irrefl _)]
    exact agrees_new r.callback hzero rfl
  · have hge : t.requests.length ≤ i := h.length ▸ List.getElem?_eq_none_iff.1 hnone
    have hnew : Agrees ({ callback := r.callback } : Request.State (Option τ))
        { r with notified := 0 } := agrees_new r.callback rfl rfl
    rw [follow_new (List.getElem?_eq_none hge) hnone, hone, if_pos Nat.one_pos]
    exact hnew.notify rfl rfl hone rfl

/-- A step of a thread. -/
theorem Linked.thread (h : Linked t) {i : ℕ} {x : Option τ} {label : Request.Label}
    {s s' : Request.State (Option τ)} (hlabel : label ≠ .notify) (hat : t.requests[i]? = some s)
    (hs : s.step x label = some s') : Linked { t with requests := t.requests.set i s' } := by
  refine ⟨List.length_set.trans h.length, ?_⟩
  intro j s'' r hj hr
  rw [List.getElem?_set] at hj
  split at hj
  · rename_i hij
    subst hij
    split at hj
    · cases hj
      exact (h.agrees i s r hat hr).thread hs hlabel
    · cases hj
  · exact h.agrees j s'' r hj hr

/-- Without the threads it is a run of the connection. -/
theorem refines_connection : (system τ).Refines Connection.system Waiters.conn where
  init _ hinit := hinit.1
  step t a t' _ hstep := by
    cases a with
    | act a => exact ⟨[a], .single hstep.2.1⟩
    | thread i x label =>
      rw [hstep.2.1]
      exact ⟨[], .nil _⟩

/-- **The threads and the connection agree** in every run. -/
theorem linked_of_reachable (h : (system τ).Reachable t) : Linked t := by
  refine h.invariant (I := Linked) ?_ ?_
  · rintro ⟨conn, requests⟩ ⟨⟨heap, nullString, ssl, prepareCallback, rfl⟩, rfl⟩
    refine ⟨rfl, ?_⟩
    intro i s r hs
    cases hs
  · rintro t a ⟨conn, requests⟩ hreach ih hstep
    cases a with
    | act a =>
      obtain ⟨hidle, hperform, hrequests⟩ := hstep
      simp only at hrequests
      rw [hrequests]
      exact ih.act (Connection.inv_of_reachable (refines_connection.reachable hreach)) hidle
        hperform
    | thread i x label =>
      obtain ⟨hlabel, rfl, s, s', hat, hs, rfl⟩ := hstep
      exact ih.thread hlabel hat hs

/-- What waiting for a request is good for: who comes back from it finds the request
    complete, and a callback is queued once, when it is. -/
structure Relied (t : Waiters τ) : Prop where
  returns : ∀ (i : ℕ) (s : Request.State (Option τ)) (x : Option τ) (label : Request.Label),
    t.requests[i]? = some s → Request.LeavesReady s x label →
    ¬ t.conn.Waiting i ∧ t.conn.Complete i
  callbacks : ∀ (i : ℕ) (s : Request.State (Option τ)) (r : CallerRequest),
    t.requests[i]? = some s → t.conn.requests[i]? = some r →
    (s.out = [] ∨ s.out = [.queueWork] ∧ r.callback = true ∧ t.conn.Complete i) ∧
      (r.callback = true → ¬ t.conn.Waiting i → s.pc none ≠ .notifyAll → s.out = [.queueWork])

theorem waiting_iff {c : Connection} {i : ℕ} {r : CallerRequest} (hr : c.requests[i]? = some r) :
    c.Waiting i ↔ r.notified = 0 := by
  constructor
  · rintro ⟨r', hr', hzero⟩
    rw [hr] at hr'
    cases hr'
    exact hzero
  · exact fun hzero => ⟨r, hr, hzero⟩

/-- **In every run**, whatever the threads do while the connection works, who comes back
    from waiting finds what it waited for. -/
theorem relied_of_reachable (h : (system τ).Reachable t) : Relied t := by
  have hlinked := linked_of_reachable h
  have hconn := refines_connection.reachable h
  constructor
  · intro i s x label hs hleaves
    have hlt : i < t.conn.requests.length :=
      hlinked.length ▸ (List.getElem?_eq_some_iff.1 hs).1
    have hr : t.conn.requests[i]? = some t.conn.requests[i] := List.getElem?_eq_getElem hlt
    have hagrees := hlinked.agrees i s _ hs hr
    have hn := hagrees.flag.1 (Request.flag_of_leavesReady hagrees.reachable hleaves)
    rw [waiting_iff hr]
    exact ⟨hn, Connection.complete_of_notified hconn hr hn⟩
  · intro i s r hs hr
    have hagrees := hlinked.agrees i s r hs hr
    have honce := (Connection.inv_of_reachable hconn).once i r hr
    have hnotified := hagrees.notified
    have hout := hagrees.out
    rw [hagrees.callback] at hout
    rw [waiting_iff hr]
    have hcomplete := Connection.complete_of_notified hconn hr
    rcases hcallback : r.callback with _ | _
    · rw [hcallback, if_neg Bool.false_ne_true] at hout
      exact ⟨.inl hout, fun h => absurd h Bool.false_ne_true⟩
    · rw [hcallback, if_pos rfl] at hout
      constructor
      · rcases hzero : s.notified with _ | n
        · rw [hzero] at hout
          exact .inl hout
        · have hn : n = 0 := by omega
          rw [hzero, hn] at hout
          exact .inr ⟨hout, rfl, hcomplete (by omega)⟩
      · intro _ hn hpc
        rw [if_neg hpc] at hnotified
        have hs : s.notified = 1 := by omega
        rw [hout, hs]
        rfl

/-! ## Coming back -/

/-- The steps of the threads on one request. -/
theorem path_thread {i : ℕ} {s s' : Request.State (Option τ)}
    {as : List (Option τ × Request.Label)} (hp : (Request.system (Option τ)).Path s as s')
    (hsteps : ∀ a ∈ as, a.2 = .step) (hat : t.requests[i]? = some s) :
    (system τ).Path t (as.map fun a => .thread i a.1 a.2)
      { t with requests := t.requests.set i s' } := by
  induction hp generalizing t with
  | nil s =>
    have hset : t.requests.set i s = t.requests := by
      obtain ⟨hlt, rfl⟩ := List.getElem?_eq_some_iff.1 hat
      exact List.set_getElem_self hlt
    rw [hset]
    exact .nil t
  | @cons s s₁ s₂ a as hs _ ih =>
    obtain ⟨ha, has⟩ := List.forall_mem_cons.1 hsteps
    have hlt := (List.getElem?_eq_some_iff.1 hat).1
    have hstep : (system τ).step t (.thread i a.1 a.2)
        { t with requests := t.requests.set i s₁ } := by
      refine ⟨?_, rfl, s, s₁, hat, hs, rfl⟩
      rw [ha]
      simp
    have hp := ih (t := { t with requests := t.requests.set i s₁ }) has
      (List.getElem?_set_self hlt)
    rw [List.set_set] at hp
    exact .cons hstep hp

/-- **Once a request is complete, all that wait for it come back**, within six steps each
    and whatever they were doing: all but those that `notify` has missed, who had found the
    flag clear and were about to sleep, or slept when it was over. -/
theorem come_back (h : (system τ).Reachable t) {i : ℕ} {s : Request.State (Option τ)}
    (hat : t.requests[i]? = some s) (hcomplete : ¬ t.conn.Waiting i)
    {threads : Finset (Option τ)} (hidle : ∀ x ∉ threads, s.pc x = .idle) :
    ∃ as s', (system τ).Path t as { t with requests := t.requests.set i s' } ∧
      (∀ a ∈ as, ∃ x, a = .thread i x .step) ∧ as.length ≤ 6 * threads.card ∧
      ∀ x, s'.pc x = .idle ∨ ∃ w, s'.pc x = .asleep w ∧
        (s.pc x = .sleep w ∨ s.pc x = .asleep w ∧ s.pc none ≠ .notifyAll) := by
  have hlinked := linked_of_reachable h
  have hlt : i < t.conn.requests.length :=
    hlinked.length ▸ (List.getElem?_eq_some_iff.1 hat).1
  have hr : t.conn.requests[i]? = some t.conn.requests[i] := List.getElem?_eq_getElem hlt
  have hagrees := hlinked.agrees i s _ hat hr
  rw [waiting_iff hr] at hcomplete
  have hflag := hagrees.flag.2 hcomplete
  obtain ⟨as, s', hp, hsteps, hlen, hsettled⟩ :=
    Request.settles_of_exclusive (Request.exclusive_of_reachable hagrees.reachable) hidle
  refine ⟨_, s', path_thread hp hsteps hat, ?_, ?_, ?_⟩
  · intro a ha
    obtain ⟨b, hb, rfl⟩ := List.mem_map.1 ha
    rw [hsteps b hb]
    exact ⟨b.1, rfl⟩
  · rw [List.length_map]
    exact hlen.trans (Request.work_le s threads)
  · intro x
    refine (hsettled.resting x).imp_right ?_
    rintro ⟨w, hw⟩
    refine ⟨w, hw, ?_⟩
    by_cases hnotify : s.pc none = .notifyAll
    · have hback : s'.pc none ≠ .notifyAll := by
        rcases hsettled.resting none with hidle | ⟨w', hasleep⟩
        · simp [hidle]
        · simp [hasleep]
      exact .inl (Request.woken_of_path hp hflag hnotify hback hw)
    · rcases hsettled.sleepers hflag x w hw with hasleep | hsleep
      · exact .inr ⟨hasleep, hnotify⟩
      · exact .inl hsleep

end Waiters

end CqlClient
