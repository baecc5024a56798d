/-
  CqlClient formalization — the connections of a pool (`cql_pool.hpp`), and the
  pools of a worker (`cql_session.hpp`).

  A pool makes its core connections when it is constructed, and one more with each
  `maybe_spawn_connection` that finds room.  All of them wait in
  `connections_pending_`: nothing moves one to `connections_`, whatever becomes of
  it.  So the number of connections is known in every run, and a pool never lends
  one (`size_of_path`).

  `add_pool` makes a pool before it knows whether the host has one.  The second pool
  of a host is destroyed at once, and its connections are left behind.  But the worker
  passes on an `ssl_context` that nothing assigns, and a pool with a core connection
  tests it (`connections_accounted`).
-/
import CqlClient.Pool
import CqlClient.Requests

namespace CqlClient

/-- An `SSLContext*`. -/
inductive SslContextPtr where
  /-- never assigned -/
  | indeterminate
  | null
  | context
  deriving DecidableEq, Repr

/-- `ssl_context_ ? ssl_context_->session_new() : NULL`: there is a session. -/
def SslContextPtr.hasSession : SslContextPtr → Except Crash Bool
  | indeterminate => .error .indeterminate
  | null => .ok false
  | context => .ok true

/-- `Pool`, with the connections it has made; an address is a place in `heap`. -/
structure ConnectionPool extends Pool where
  sslContext : SslContextPtr
  coreConnectionsPerHost : ℕ
  maxSimultaneousCreation : ℕ
  connectionsPending : List ℕ := []
  heap : List Connection := []
  /-- what fresh memory happens to hold -/
  memory : Memory
  nullString : NullString

namespace ConnectionPool

/-- The connection at an address. -/
def deref (p : ConnectionPool) (i : ℕ) : Connection :=
  p.heap.getD i (Connection.new p.memory p.nullString false false)

/-- `spawn_connection`. -/
def spawnConnection (p : ConnectionPool) : ConnectionPool × Option Crash :=
  match p.sslContext.hasSession with
  | .error e => (p, some e)
  | .ok ssl =>
    match (Connection.new p.memory p.nullString ssl false).init true false with
    | (connection, some e) => ({ p with heap := p.heap ++ [connection] }, some e)
    | (connection, none) =>
      ({ p with
          heap := p.heap ++ [connection]
          connectionsPending := p.connectionsPending ++ [p.heap.length] }, none)

/-- The loop of the constructor. -/
def spawnConnections : ℕ → ConnectionPool → ConnectionPool × Option Crash
  | 0, p => (p, none)
  | n + 1, p =>
    match p.spawnConnection with
    | (p, some e) => (p, some e)
    | (p, none) => spawnConnections n p

/-- `Pool(loop, ssl_context, address, core, limit, creation)`. -/
def new (memory : Memory) (nullString : NullString) (sslContext : SslContextPtr)
    (core limit creation : ℕ) : ConnectionPool × Option Crash :=
  spawnConnections core
    { maxConnectionsPerHost := limit, connections := [], sslContext, memory, nullString
      coreConnectionsPerHost := core, maxSimultaneousCreation := creation }

/-- `maybe_spawn_connection`. -/
def maybeSpawnConnection (p : ConnectionPool) : ConnectionPool × Option Crash :=
  if p.maxSimultaneousCreation ≤ p.connectionsPending.length then (p, none)
  else if p.maxConnectionsPerHost ≤ p.connections.length + p.connectionsPending.length then
    (p, none)
  else p.spawnConnection

/-! ## Spawning -/

/-- A connection whose host name is being resolved. -/
def resolving (memory : Memory) (nullString : NullString) (ssl : Bool) : Connection :=
  { Connection.new memory nullString ssl false with
    connectCallback := true, out := [.getaddrinfo] }

theorem spawnConnection_eq {p : ConnectionPool} {ssl : Bool}
    (hssl : p.sslContext.hasSession = .ok ssl) : p.spawnConnection =
    ({ p with
        heap := p.heap ++ [resolving p.memory p.nullString ssl]
        connectionsPending := p.connectionsPending ++ [p.heap.length] }, none) := by
  rw [spawnConnection, hssl]
  rfl

/-- With a pointer that was assigned the loop always ends, with `n` more connections. -/
theorem spawnConnections_eq {ssl : Bool} (n : ℕ) (p : ConnectionPool)
    (hssl : p.sslContext.hasSession = .ok ssl)
    (hp : p.connectionsPending = List.range p.heap.length) : spawnConnections n p =
    ({ p with
        heap := p.heap ++ List.replicate n (resolving p.memory p.nullString ssl)
        connectionsPending := List.range (p.heap.length + n) }, none) := by
  induction n generalizing p with
  | zero => simp [spawnConnections, ← hp]
  | succ n ih =>
    rw [spawnConnections, spawnConnection_eq hssl]
    refine (ih _ (by exact hssl) (by simp [hp, List.range_succ])).trans ?_
    simp [List.replicate_succ, Nat.add_assoc, Nat.add_comm 1 n]

/-- A pool as it is constructed. -/
def filled (memory : Memory) (nullString : NullString) (sslContext : SslContextPtr) (ssl : Bool)
    (core limit creation : ℕ) : ConnectionPool :=
  { maxConnectionsPerHost := limit, connections := [], sslContext, memory, nullString
    coreConnectionsPerHost := core, maxSimultaneousCreation := creation
    heap := List.replicate core (resolving memory nullString ssl)
    connectionsPending := List.range core }

/-- The constructor returns if it does not need the pointer, or can test it. -/
theorem new_eq (memory : Memory) (nullString : NullString) {sslContext : SslContextPtr}
    {core : ℕ} (h : sslContext ≠ .indeterminate ∨ core = 0) (limit creation : ℕ) :
    ∃ ssl, new memory nullString sslContext core limit creation =
      (filled memory nullString sslContext ssl core limit creation, none) := by
  by_cases hcore : core = 0
  · subst hcore
    exact ⟨false, rfl⟩
  · have hne := h.resolve_right hcore
    obtain ⟨ssl, hssl⟩ : ∃ ssl, sslContext.hasSession = .ok ssl := by
      cases sslContext with
      | indeterminate => exact absurd rfl hne
      | null => exact ⟨false, rfl⟩
      | context => exact ⟨true, rfl⟩
    refine ⟨ssl, ?_⟩
    rw [new, spawnConnections_eq core _ hssl rfl]
    simp [filled]

/-- The first core connection reads the pointer. -/
theorem new_indeterminate (memory : Memory) (nullString : NullString) {core : ℕ}
    (hcore : core ≠ 0) (limit creation : ℕ) :
    ∃ p, new memory nullString .indeterminate core limit creation = (p, some .indeterminate) ∧
      p.heap = [] := by
  obtain ⟨n, rfl⟩ := Nat.exists_eq_succ_of_ne_zero hcore
  exact ⟨_, rfl, rfl⟩

/-! ## Runs -/

/-- What happens to a pool: a call, or something to one of its connections. -/
inductive Event where
  | maybeSpawn
  | act (i : ℕ) (a : Action)

def Event.isSpawn : Event → Bool
  | .maybeSpawn => true
  | .act _ _ => false

/-- The runs of a pool. -/
def system (memory : Memory) (nullString : NullString) (sslContext : SslContextPtr)
    (core limit creation : ℕ) : System ConnectionPool Event where
  init p := new memory nullString sslContext core limit creation = (p, none)
  step p e p' :=
    match e with
    | .maybeSpawn => p.maybeSpawnConnection = (p', none)
    | .act i a => ∃ c c', p.heap[i]? = some c ∧ Connection.perform a c = (c', none) ∧
      p' = { p with heap := p.heap.set i c' }

/-- All connections are pending, and each is one that a connection can become. -/
structure Inv (limit creation : ℕ) (p : ConnectionPool) : Prop where
  limit_eq : p.maxConnectionsPerHost = limit
  creation_eq : p.maxSimultaneousCreation = creation
  connections : p.connections = []
  pending : p.connectionsPending = List.range p.heap.length
  reachable : ∀ c ∈ p.heap, Connection.system.Reachable c

section
variable {memory : Memory} {nullString : NullString} {sslContext : SslContextPtr}
  {core limit creation : ℕ} {p p' : ConnectionPool}

theorem reachable_resolving (memory : Memory) (nullString : NullString) (ssl : Bool) :
    Connection.system.Reachable (resolving memory nullString ssl) := by
  have h : Connection.system.Reachable (Connection.new memory nullString ssl false) :=
    .init ⟨memory, nullString, ssl, false, rfl⟩
  exact h.step (a := .init true false) rfl

theorem inv_of_init (h : (system memory nullString sslContext core limit creation).init p) :
    p.Inv limit creation ∧ p.heap.length = core := by
  change new memory nullString sslContext core limit creation = (p, none) at h
  by_cases hreturns : sslContext ≠ .indeterminate ∨ core = 0
  · obtain ⟨ssl, hnew⟩ := new_eq memory nullString hreturns limit creation
    obtain rfl := (Prod.mk.inj (hnew.symm.trans h)).1
    refine ⟨⟨rfl, rfl, rfl, by simp [filled], ?_⟩, by simp [filled]⟩
    intro c hc
    rw [List.eq_of_mem_replicate hc]
    exact reachable_resolving memory nullString ssl
  · simp only [not_or, not_not] at hreturns
    obtain ⟨rfl, hcore⟩ := hreturns
    obtain ⟨q, hnew, -⟩ := new_indeterminate memory nullString hcore limit creation
    cases hnew.symm.trans h

/-- One event, and the number of connections after it. -/
theorem Inv.step {e : Event} (h : p.Inv limit creation)
    (hs : (system memory nullString sslContext core limit creation).step p e p') :
    p'.Inv limit creation ∧
      p'.heap.length = if e.isSpawn ∧ p.heap.length < min creation limit then p.heap.length + 1
        else p.heap.length := by
  cases e with
  | maybeSpawn =>
    change p.maybeSpawnConnection = (p', none) at hs
    have hlen : p.connectionsPending.length = p.heap.length := by rw [h.pending, List.length_range]
    rw [maybeSpawnConnection, hlen, h.connections, h.creation_eq, h.limit_eq, List.length_nil,
      Nat.zero_add] at hs
    split_ifs at hs with hcreation hmax
    · obtain rfl := (Prod.mk.inj hs).1
      exact ⟨h, by rw [if_neg]; omega⟩
    · obtain rfl := (Prod.mk.inj hs).1
      exact ⟨h, by rw [if_neg]; omega⟩
    · rcases hssl : p.sslContext.hasSession with e | ssl
      · rw [spawnConnection, hssl] at hs
        cases hs
      rw [spawnConnection_eq hssl] at hs
      obtain rfl := (Prod.mk.inj hs).1
      refine ⟨⟨h.limit_eq, h.creation_eq, h.connections, ?_, ?_⟩, ?_⟩
      · simp [h.pending, List.range_succ]
      · intro c hc
        rcases List.mem_append.1 hc with hc | hc
        · exact h.reachable c hc
        · rw [List.mem_singleton.1 hc]
          exact reachable_resolving p.memory p.nullString ssl
      · rw [if_pos ⟨rfl, by omega⟩]
        simp
  | act i a =>
    obtain ⟨c, c', hc, hperform, rfl⟩ := hs
    refine ⟨⟨h.limit_eq, h.creation_eq, h.connections, ?_, ?_⟩, ?_⟩
    · simp [h.pending]
    · intro d hd
      rcases List.mem_or_eq_of_mem_set hd with hd | rfl
      · exact h.reachable d hd
      · exact (h.reachable c (List.mem_of_getElem? hc)).step hperform
    · simp [Event.isSpawn]

theorem inv_of_path {es : List Event} (h : p.Inv limit creation)
    (hp : (system memory nullString sslContext core limit creation).Path p es p') :
    p'.Inv limit creation ∧ p'.heap.length =
      max p.heap.length (min (p.heap.length + es.countP Event.isSpawn) (min creation limit)) := by
  induction hp with
  | nil p => exact ⟨h, by simp⟩
  | @cons p p₁ p₂ e es hs hp ih =>
    obtain ⟨h₁, hlen₁⟩ := h.step hs
    obtain ⟨h₂, hlen₂⟩ := ih h₁
    refine ⟨h₂, ?_⟩
    rw [hlen₂, hlen₁, List.countP_cons]
    cases e with
    | maybeSpawn =>
      simp only [Event.isSpawn, true_and, if_true]
      split <;> omega
    | act i a =>
      simp [Event.isSpawn]

variable {es : List Event}
  (hinit : (system memory nullString sslContext core limit creation).init p)
  (hp : (system memory nullString sslContext core limit creation).Path p es p')
include hinit hp

/-- **The size of a pool** in every run: the core connections, and one more with each
    `maybe_spawn_connection` up to the smaller of the two limits.  None of them is ever
    more than pending, all of them are connections in one of their runs, and borrowing
    reads through `end()`. -/
theorem size_of_path : p'.connectionsPending = List.range p'.heap.length ∧
    p'.heap.length = max core (min (core + es.countP Event.isSpawn) (min creation limit)) ∧
    (∀ c ∈ p'.heap, Connection.system.Reachable c) ∧
    ∀ output, p'.borrowConnection p'.deref output = .error .indeterminate := by
  obtain ⟨h, hcore⟩ := inv_of_init hinit
  obtain ⟨h', hlen⟩ := inv_of_path h hp
  rw [hcore] at hlen
  refine ⟨h'.pending, hlen, h'.reachable, fun output => ?_⟩
  rw [Pool.borrowConnection, Pool.findLeastBusy_nil h'.connections]
  rfl

end

/-- Two calls make one more connection, because two at a time are allowed. -/
def young : ConnectionPool := (new (fun _ => 0) .throws .null 1 3 2).1

def youngEvents : List Event := [.maybeSpawn, .act 0 (.onResolve 0), .maybeSpawn]

theorem path_young :
    ∃ p, (system (fun _ => 0) .throws .null 1 3 2).Path young youngEvents p := by
  let two : ConnectionPool := young.maybeSpawnConnection.1
  let resolved : Connection :=
    (Connection.perform (.onResolve 0) (resolving (fun _ => 0) .throws false)).1
  let p : ConnectionPool := { two with heap := two.heap.set 0 resolved }
  have h₁ : (system (fun _ => 0) .throws .null 1 3 2).step young .maybeSpawn two :=
    Prod.ext rfl rfl
  have h₂ : (system (fun _ => 0) .throws .null 1 3 2).step two (.act 0 (.onResolve 0)) p :=
    ⟨resolving (fun _ => 0) .throws false, resolved, rfl, Prod.ext rfl rfl, rfl⟩
  have h₃ : (system (fun _ => 0) .throws .null 1 3 2).step p .maybeSpawn p := Prod.ext rfl rfl
  exact ⟨p, .cons h₁ (.cons h₂ (.single h₃))⟩

theorem size_of_path_young : ∃ p : ConnectionPool,
    p.connectionsPending = List.range p.heap.length ∧
    p.heap.length = max 1 (min (1 + youngEvents.countP Event.isSpawn) (min 2 3)) ∧
    (∀ c ∈ p.heap, Connection.system.Reachable c) ∧
    ∀ output, p.borrowConnection p.deref output = .error .indeterminate := by
  obtain ⟨p, hp⟩ := path_young
  have hnew : new (fun _ => 0) .throws .null 1 3 2 = (young, none) := rfl
  exact ⟨p, size_of_path hnew hp⟩

end ConnectionPool

/-! ## The pools of a worker -/

/-- `Session::IOWorker`, with the connections that nobody has any more. -/
structure IoWorker where
  /-- initialised by no constructor, and assigned nowhere -/
  sslContext : SslContextPtr := .indeterminate
  pools : List (List UInt8 × ConnectionPool) := []
  orphans : List Connection := []
  memory : Memory
  nullString : NullString

/-- What `~Pool` does not delete. -/
def ConnectionPool.leftBehind (p : ConnectionPool) : List Connection :=
  ((List.range p.heap.length).filter (· ∉ p.connections)).map p.deref

/-- The arguments of `add_pool`. -/
structure AddPool where
  host : List UInt8
  coreConnectionsPerHost : ℕ
  maxConnectionsPerHost : ℕ

namespace IoWorker

/-- `add_pool`: the pool is an argument of `insert`, which keeps the pool that a host has. -/
def addPool (call : AddPool) (w : IoWorker) : IoWorker × Option Crash :=
  match ConnectionPool.new w.memory w.nullString w.sslContext call.coreConnectionsPerHost
      call.maxConnectionsPerHost 1 with
  | (pool, some e) => ({ w with orphans := w.orphans ++ pool.heap }, some e)
  | (pool, none) =>
    if (w.pools.lookup call.host).isSome then
      ({ w with orphans := w.orphans ++ pool.leftBehind }, none)
    else ({ w with pools := w.pools ++ [(call.host, pool)] }, none)

/-- One call after another. -/
def addPools : List AddPool → IoWorker → IoWorker × Option Crash
  | [], w => (w, none)
  | call :: calls, w =>
    match w.addPool call with
    | (w, some e) => (w, some e)
    | (w, none) => addPools calls w

/-- The pool that a call makes. -/
def made (memory : Memory) (nullString : NullString) (sslContext : SslContextPtr)
    (call : AddPool) : ConnectionPool :=
  (ConnectionPool.new memory nullString sslContext call.coreConnectionsPerHost
    call.maxConnectionsPerHost 1).1

/-- Where the connections of the calls are: with the pool of the first call for a host,
    or with nobody, and then their callback is that of a pool that was deleted. -/
structure Accounted (memory : Memory) (nullString : NullString) (sslContext : SslContextPtr)
    (calls : List AddPool) (w : IoWorker) : Prop where
  memory_eq : w.memory = memory
  nullString_eq : w.nullString = nullString
  sslContext_eq : w.sslContext = sslContext
  pools : ∀ host, w.pools.lookup host =
    (calls.find? fun call => call.host = host).map (made memory nullString sslContext)
  connections : (w.pools.map fun p => p.2.heap.length).sum + w.orphans.length =
    (calls.map AddPool.coreConnectionsPerHost).sum
  orphans : ∀ c ∈ w.orphans, c.connectCallback = true ∧ Connection.system.Reachable c

variable {memory : Memory} {nullString : NullString} {sslContext : SslContextPtr}
  {calls : List AddPool} {call : AddPool} {w : IoWorker}

/-- The pool of a call that returns: none of its connections was established, so all of
    them are left behind by `~Pool`. -/
theorem new_made (memory : Memory) (nullString : NullString)
    (h : sslContext ≠ .indeterminate ∨ call.coreConnectionsPerHost = 0) :
    ConnectionPool.new memory nullString sslContext call.coreConnectionsPerHost
      call.maxConnectionsPerHost 1 = (made memory nullString sslContext call, none) ∧
    (made memory nullString sslContext call).leftBehind =
      (made memory nullString sslContext call).heap ∧
    ∃ ssl, (made memory nullString sslContext call).heap =
      List.replicate call.coreConnectionsPerHost
        (ConnectionPool.resolving memory nullString ssl) := by
  obtain ⟨ssl, hnew⟩ := ConnectionPool.new_eq memory nullString h call.maxConnectionsPerHost 1
  have hmade := congrArg Prod.fst hnew
  change made memory nullString sslContext call = _ at hmade
  rw [hnew, hmade]
  refine ⟨rfl, List.ext_getElem? fun i => ?_, ssl, rfl⟩
  simp only [ConnectionPool.leftBehind, ConnectionPool.filled, List.not_mem_nil,
    not_false_eq_true, decide_true, List.filter_true, List.getElem?_map, List.length_replicate]
  rcases Nat.lt_or_ge i call.coreConnectionsPerHost with hi | hi
  · simp [ConnectionPool.deref, hi]
  · simp [hi]

/-- A call that returns. -/
theorem Accounted.addPool (h : w.Accounted memory nullString sslContext calls)
    (hreturns : sslContext ≠ .indeterminate ∨ call.coreConnectionsPerHost = 0) :
    ∃ w', w.addPool call = (w', none) ∧
      w'.Accounted memory nullString sslContext (calls ++ [call]) := by
  obtain rfl := h.memory_eq
  obtain rfl := h.nullString_eq
  obtain rfl := h.sslContext_eq
  obtain ⟨hnew, hleft, ssl, hheap⟩ := new_made w.memory w.nullString hreturns
  have hlen : (made w.memory w.nullString w.sslContext call).heap.length =
      call.coreConnectionsPerHost := by
    rw [hheap, List.length_replicate]
  have hlookup := h.pools call.host
  have hcount := h.connections
  unfold IoWorker.addPool
  rw [hnew]
  simp only
  rcases hfound : calls.find? (fun c => c.host = call.host) with _ | first
  · -- the host is new
    rw [hfound] at hlookup
    rw [hlookup, if_neg (by simp)]
    refine ⟨_, rfl, rfl, rfl, rfl, fun host => ?_, ?_, h.orphans⟩
    · rw [List.lookup_append, h.pools, List.find?_append]
      by_cases hhost : host = call.host
      · subst hhost
        simp [hfound]
      · have hnone : List.lookup host
            [(call.host, made w.memory w.nullString w.sslContext call)] = none := by
          simp [List.lookup, beq_eq_false_iff_ne.2 hhost]
        rw [hnone, List.find?_singleton, if_neg (by simpa using Ne.symm hhost), Option.or_none,
          Option.or_none]
    · simp only [List.map_append, List.sum_append, List.map_cons, List.map_nil, List.sum_singleton,
        hlen]
      omega
  · -- the host has a pool, and the new one is deleted
    rw [hfound] at hlookup
    rw [hlookup, if_pos (by simp), hleft]
    refine ⟨_, rfl, rfl, rfl, rfl, fun host => ?_, ?_, fun c hc => ?_⟩
    · rw [h.pools, List.find?_append]
      by_cases hhost : host = call.host
      · subst hhost
        rw [hfound]
        rfl
      · rw [List.find?_singleton, if_neg (by simpa using Ne.symm hhost), Option.or_none]
    · simp only [List.map_append, List.sum_append, List.map_cons, List.map_nil, List.sum_singleton,
        List.length_append, hlen]
      omega
    · rcases List.mem_append.1 hc with hc | hc
      · exact h.orphans c hc
      · rw [hheap] at hc
        rw [List.eq_of_mem_replicate hc]
        exact ⟨rfl, ConnectionPool.reachable_resolving w.memory w.nullString ssl⟩

/-- A call that asks for a core connection, with the pointer as it is. -/
theorem Accounted.addPool_indeterminate
    (h : w.Accounted memory nullString .indeterminate calls)
    (hcore : call.coreConnectionsPerHost ≠ 0) :
    ∃ w', w.addPool call = (w', some .indeterminate) ∧
      w'.Accounted memory nullString .indeterminate calls := by
  obtain rfl := h.memory_eq
  obtain rfl := h.nullString_eq
  have hcontext := h.sslContext_eq
  obtain ⟨p, hnew, hheap⟩ :=
    ConnectionPool.new_indeterminate w.memory w.nullString hcore call.maxConnectionsPerHost 1
  unfold IoWorker.addPool
  rw [hcontext, hnew]
  simp only [hheap, List.append_nil]
  exact ⟨_, rfl, rfl, rfl, rfl, h.pools, h.connections, h.orphans⟩

/-- Calls that all return. -/
theorem Accounted.addPools (rest : List AddPool)
    (h : w.Accounted memory nullString sslContext calls)
    (hreturns : sslContext ≠ .indeterminate ∨
      ∀ call ∈ rest, call.coreConnectionsPerHost = 0) :
    ∃ w', w.addPools rest = (w', none) ∧
      w'.Accounted memory nullString sslContext (calls ++ rest) := by
  induction rest generalizing calls w with
  | nil => exact ⟨w, rfl, by rwa [List.append_nil]⟩
  | cons call rest ih =>
    have hcall := hreturns.imp_right fun hzero => hzero call List.mem_cons_self
    have hrest := hreturns.imp_right fun hzero c hc => hzero c (List.mem_cons_of_mem _ hc)
    obtain ⟨w₁, hw₁, h₁⟩ := h.addPool hcall
    obtain ⟨w', hw', h'⟩ := ih h₁ hrest
    refine ⟨w', ?_, by rwa [List.append_cons]⟩
    rw [IoWorker.addPools, hw₁]
    exact hw'

/-- The calls up to the first one that asks for a core connection. -/
theorem Accounted.addPools_stops {before after : List AddPool}
    (h : w.Accounted memory nullString .indeterminate calls)
    (hbefore : ∀ call ∈ before, call.coreConnectionsPerHost = 0)
    (hcore : call.coreConnectionsPerHost ≠ 0) :
    ∃ w', w.addPools (before ++ call :: after) = (w', some .indeterminate) ∧
      w'.Accounted memory nullString .indeterminate (calls ++ before) := by
  induction before generalizing calls w with
  | nil =>
    obtain ⟨w', hw', h'⟩ := h.addPool_indeterminate hcore
    refine ⟨w', ?_, by rwa [List.append_nil]⟩
    rw [List.nil_append, IoWorker.addPools, hw']
  | cons first before ih =>
    obtain ⟨w₁, hw₁, h₁⟩ := h.addPool (.inr (hbefore first List.mem_cons_self))
    obtain ⟨w', hw', h'⟩ := ih h₁ fun c hc => hbefore c (List.mem_cons_of_mem _ hc)
    refine ⟨w', ?_, by rwa [List.append_cons]⟩
    rw [List.cons_append, IoWorker.addPools, hw₁]
    exact hw'

/-- **The connections that `add_pool` makes.**  On a worker as it is constructed the first
    call with a core connection reads the pointer that nothing assigned; if there is no
    such call, or if the pointer was assigned, all calls return.  Then the pool of a host
    is the one of its first call, and the connections of the other calls belong to nobody
    and call back into pools that are gone. -/
theorem connections_accounted (memory : Memory) (nullString : NullString)
    (calls : List AddPool) :
    ((∀ call ∈ calls, call.coreConnectionsPerHost = 0) →
      ∃ w, ({ memory, nullString } : IoWorker).addPools calls = (w, none) ∧
        w.Accounted memory nullString .indeterminate calls) ∧
    (∀ before call after, calls = before ++ call :: after →
      (∀ call ∈ before, call.coreConnectionsPerHost = 0) → call.coreConnectionsPerHost ≠ 0 →
      ∃ w, ({ memory, nullString } : IoWorker).addPools calls = (w, some .indeterminate) ∧
        w.Accounted memory nullString .indeterminate before) ∧
    ∀ sslContext, sslContext ≠ .indeterminate →
      ∃ w, ({ sslContext, memory, nullString } : IoWorker).addPools calls = (w, none) ∧
        w.Accounted memory nullString sslContext calls := by
  have hstart : ∀ sslContext, ({ sslContext, memory, nullString } : IoWorker).Accounted memory
      nullString sslContext [] := fun _ => ⟨rfl, rfl, rfl, fun _ => rfl, rfl, by simp⟩
  refine ⟨fun hzero => ?_, fun before call after hcalls hbefore hcore => ?_,
    fun sslContext hne => ?_⟩
  · exact (hstart .indeterminate).addPools calls (.inr hzero)
  · rw [hcalls]
    exact (hstart .indeterminate).addPools_stops hbefore hcore
  · exact (hstart sslContext).addPools calls (.inl hne)

end IoWorker

end CqlClient
