import Mathlib

/-!
# The lifecycle of a client (`networking/server.c`)

A `client_t` holds two libuv handles, its TCP stream and its idle timer, and two reference counts:
`open_handles` for its handles and `work_refs` for the commands queued for the workers.  Five
callbacks move them: `on_new_connection`, `on_read`, `on_timeout`, `_after_work_cb` and
`on_close`, and at shutdown the walk of `_initiate_shutdown`.  A client is freed when both counts
reach zero, and `active_connections` is decremented then.

The server is a state machine whose events are the callbacks libuv may deliver in a state, each
carrying what the server does not choose (whether `uv_accept` and each `uv_queue_work` succeed).
Besides the source's fields the model keeps, for each client, whether it was accepted, the works
queued and not yet completed, and how many times it was freed.

* `Server.Inv.after_step`, `Server.Inv.after_run` — along every run each client's counts agree with its handles
  and works, and a client is freed at most once, exactly when neither a handle nor a work refers
  to it;
* `sum_balance` — `active_connections` then counts the accepted clients not freed, less the clients
  whose `uv_accept` failed and that were freed: `on_close` decrements it for a client that was never
  counted;
* `live_le_max_add_failed` — so `MAX_CONCURRENT_CONNECTIONS` bounds the accepted clients alive at
  once only up to one more for each such failed accept.
-/

namespace Orrp.Networking.Lifecycle

/-- `MAX_CONCURRENT_CONNECTIONS`. -/
def maxConcurrentConnections : ℤ := 1024

/-- The state of a libuv handle of a client. -/
inductive HandleState
  /-- never initialized: the timer of a client whose `uv_accept` failed -/
  | uninit
  /-- initialized and not closing -/
  | active
  /-- `uv_close` called, its `on_close` not yet run -/
  | closing
  /-- `on_close` has run -/
  | closed
  deriving DecidableEq, Repr

namespace HandleState

/-- `uv_is_closing`. -/
def isClosing : HandleState → Bool
  | .closing | .closed => true
  | .uninit | .active => false

/-- Whether a handle should count in `open_handles`: open or closing. -/
def counted : HandleState → ℤ
  | .active | .closing => 1
  | .uninit | .closed => 0

/-- `_close_walk_cb` on a handle of the loop: one that is not closing is closed. -/
def walkClose (h : HandleState) : HandleState := if h = .active then .closing else h

end HandleState

/-- `client_t`, its lifecycle part: the state of its handles and its counts, and as ghost state
whether `uv_accept` succeeded, the works queued and not yet completed, and the number of times it
was freed. -/
structure Client where
  handle : HandleState
  timeoutTimer : HandleState
  openHandles : ℤ
  workRefs : ℤ
  connected : Bool
  accepted : Bool
  pending : ℕ
  frees : ℕ
  deriving DecidableEq, Repr

/-- The server: `active_connections`, its clients by id, and whether `_initiate_shutdown` ran. -/
structure Server where
  activeConnections : ℤ
  clients : List Client
  shuttingDown : Bool
  deriving DecidableEq, Repr

/-- The server `start_server` runs: no client. -/
def serverInit : Server := ⟨0, [], false⟩

/-- `_close_client_connection`: the TCP handle is closed if connected and not closing, the timer if
not closing. -/
def closeClientConnection (c : Client) : Client :=
  let c := if c.connected && !c.handle.isClosing then { c with handle := .closing } else c
  if !c.timeoutTimer.isClosing then { c with timeoutTimer := .closing } else c

/-- `on_new_connection`, with whether `uv_accept` succeeds.  Over the limit the connection is
accepted into a temporary handle and closed, and no client is made. -/
def onNewConnection (s : Server) (accepted : Bool) : Server :=
  if s.activeConnections ≥ maxConcurrentConnections then s
  else
    -- `calloc`, `open_handles = 1`, `connected = 1`
    let c : Client := ⟨.active, .uninit, 1, 0, true, accepted, 0, 0⟩
    if accepted then
      -- `active_connections++`, and the timer started with `open_handles++`
      { s with activeConnections := s.activeConnections + 1,
               clients := s.clients ++ [{ c with timeoutTimer := .active, openHandles := c.openHandles + 1 }] }
    else
      -- `uv_close(&client->handle, on_close)`
      { s with clients := s.clients ++ [{ c with handle := .closing }] }

/-- The check that ends `on_close` and `_decrement_work_and_cleanup`: a client that neither a
handle nor a work refers to is freed, and `active_connections` decremented. -/
def freeIfUnreferenced (s : Server) (i : ℕ) (c : Client) : Server :=
  if c.openHandles = 0 ∧ c.workRefs = 0 then
    { s with activeConnections := s.activeConnections - 1,
             clients := s.clients.set i { c with frees := c.frees + 1 } }
  else { s with clients := s.clients.set i c }

/-- `on_close` for the TCP handle of client `i` (`tcp`) or for its timer. -/
def onClose (s : Server) (i : ℕ) (c : Client) (tcp : Bool) : Server :=
  let c := if tcp then { c with handle := .closed } else { c with timeoutTimer := .closed }
  let c := { c with openHandles := c.openHandles - 1 }
  let c := if tcp then { c with connected := false } else c
  freeIfUnreferenced s i c

/-- `_after_work_cb` for one of the works of client `i`: the response is sent, then
`_decrement_work_and_cleanup`. -/
def afterWorkCb (s : Server) (i : ℕ) (c : Client) : Server :=
  freeIfUnreferenced s i { c with pending := c.pending - 1, workRefs := c.workRefs - 1 }

/-- The reference `process_one_command` takes for a work, rolled back when `uv_queue_work` fails. -/
def queueWork (c : Client) (queued : Bool) : Client :=
  let c := { c with workRefs := c.workRefs + 1 }
  if queued then { c with pending := c.pending + 1 } else { c with workRefs := c.workRefs - 1 }

/-- `on_read`: the commands the read completes queue their works in turn, and the read may end in
`_close_client_connection` (end of stream, a read error, a command too long, a full buffer). -/
def onRead (c : Client) (works : List Bool) (close : Bool) : Client :=
  let c := works.foldl queueWork c
  if close then closeClientConnection c else c

/-- `_initiate_shutdown`: the walk closes every client handle that is not closing. -/
def initiateShutdown (s : Server) : Server :=
  { s with shuttingDown := true,
           clients := s.clients.map fun c =>
             { c with handle := c.handle.walkClose, timeoutTimer := c.timeoutTimer.walkClose } }

/-- The callbacks libuv delivers. -/
inductive Event
  /-- a connection, and whether `uv_accept` succeeds -/
  | newConnection (accepted : Bool)
  /-- a read of client `i`: the outcome of `uv_queue_work` for each command it completes, and
  whether it ends in `_close_client_connection` -/
  | read (i : ℕ) (works : List Bool) (close : Bool)
  | timeout (i : ℕ)
  | afterWork (i : ℕ)
  /-- `on_close` for the TCP handle of client `i`, or for its timer -/
  | close (i : ℕ) (tcp : Bool)
  | signal
  deriving DecidableEq, Repr

/-- The server after an event, `none` where libuv does not deliver it: reads need an open stream,
a timeout a timer not closing, a completion a queued work, an `on_close` a closing handle, and
connections and the signal a server not shutting down. -/
def step (s : Server) : Event → Option Server
  | .newConnection accepted => if s.shuttingDown then none else some (onNewConnection s accepted)
  | .read i works close =>
    match s.clients[i]? with
    | some c => if c.handle = .active then some { s with clients := s.clients.set i (onRead c works close) }
      else none
    | none => none
  | .timeout i =>
    match s.clients[i]? with
    | some c => if c.timeoutTimer = .active then some { s with clients := s.clients.set i (closeClientConnection c) }
      else none
    | none => none
  | .afterWork i =>
    match s.clients[i]? with
    | some c => if 0 < c.pending then some (afterWorkCb s i c) else none
    | none => none
  | .close i tcp =>
    match s.clients[i]? with
    | some c => if (if tcp then c.handle else c.timeoutTimer) = .closing then some (onClose s i c tcp) else none
    | none => none
  | .signal => if s.shuttingDown then none else some (initiateShutdown s)

/-- The server after the events `es`, `none` if libuv does not deliver one of them. -/
def run (s : Server) : List Event → Option Server
  | [] => some s
  | e :: es => (step s e).bind fun s' => run s' es

/-- How much a client counts in `active_connections`: one if accepted, less one each time it was
freed. -/
def Client.balance (c : Client) : ℤ := (if c.accepted then 1 else 0) - c.frees

/-- The counts of a client agree with its handles and its works. -/
structure Client.Counts (c : Client) : Prop where
  openHandles_eq : c.openHandles = c.handle.counted + c.timeoutTimer.counted
  workRefs_eq : c.workRefs = c.pending
  connected_iff : c.connected = true ↔ c.handle ≠ .closed
  accepted_iff : c.accepted = true ↔ c.timeoutTimer ≠ .uninit
  handle_ne : c.handle ≠ .uninit
  accepted_of_active : c.handle = .active → c.accepted = true

/-- What holds of a client along every run: its counts agree, and it has been freed at most once,
exactly when neither a handle nor a work refers to it. -/
structure Client.Inv (c : Client) : Prop extends c.Counts where
  frees_le : c.frees ≤ 1
  freed_iff : c.frees = 1 ↔ c.openHandles = 0 ∧ c.workRefs = 0

/-- What holds of the server along every run: its clients keep their invariant, and
`active_connections` is the sum of their balances and within the limit. -/
structure Server.Inv (s : Server) : Prop where
  clients : ∀ c ∈ s.clients, c.Inv
  active_eq : s.activeConnections = (s.clients.map Client.balance).sum
  active_le : s.activeConnections ≤ maxConcurrentConnections

/-! ## Handles -/

namespace HandleState

theorem counted_nonneg (h : HandleState) : 0 ≤ h.counted := by
  cases h <;> decide

@[simp] theorem counted_walkClose (h : HandleState) : h.walkClose.counted = h.counted := by
  cases h <;> rfl

theorem walkClose_ne_closed {h : HandleState} : h.walkClose ≠ .closed ↔ h ≠ .closed := by
  cases h <;> decide

theorem walkClose_ne_uninit {h : HandleState} : h.walkClose ≠ .uninit ↔ h ≠ .uninit := by
  cases h <;> decide

theorem walkClose_ne_active (h : HandleState) : h.walkClose ≠ .active := by
  cases h <;> decide

theorem counted_closeIf {h : HandleState} (hne : h ≠ .uninit) (b : Bool) :
    (if (b && !h.isClosing) = true then closing else h).counted = h.counted := by
  cases h <;> cases b <;> first | rfl | exact absurd rfl hne

theorem closeIf_ne_closed {h : HandleState} (b : Bool) :
    (if (b && !h.isClosing) = true then closing else h) ≠ .closed ↔ h ≠ .closed := by
  cases h <;> cases b <;> decide

theorem closeIf_ne_uninit {h : HandleState} (hne : h ≠ .uninit) (b : Bool) :
    (if (b && !h.isClosing) = true then closing else h) ≠ .uninit := by
  cases h <;> cases b <;> first | decide | exact absurd rfl hne

end HandleState

/-! ## One client -/

section Client

variable {c : Client}

theorem closeClientConnection_eq (c : Client) :
    closeClientConnection c =
      { c with handle := if (c.connected && !c.handle.isClosing) = true then .closing else c.handle,
               timeoutTimer := if (true && !c.timeoutTimer.isClosing) = true then .closing else c.timeoutTimer } := by
  unfold closeClientConnection
  by_cases h1 : (c.connected && !c.handle.isClosing) = true <;>
    by_cases h2 : (!c.timeoutTimer.isClosing) = true <;> simp [h1, h2]

@[simp] theorem balance_closeClientConnection (c : Client) : (closeClientConnection c).balance = c.balance := by
  rw [closeClientConnection_eq]
  rfl

theorem Client.Counts.withFrees (h : c.Counts) (n : ℕ) : ({ c with frees := n } : Client).Counts :=
  ⟨h.openHandles_eq, h.workRefs_eq, h.connected_iff, h.accepted_iff, h.handle_ne, h.accepted_of_active⟩

theorem Client.Counts.inv (h : c.Counts) (h0 : c.frees = 0) (href : c.openHandles ≠ 0 ∨ c.workRefs ≠ 0) :
    c.Inv :=
  ⟨h, by omega, ⟨fun h1 => absurd h1 (by omega), fun hz => absurd hz (by omega)⟩⟩

theorem Client.Inv.frees_eq_zero (h : c.Inv) (href : c.openHandles ≠ 0 ∨ c.workRefs ≠ 0) : c.frees = 0 := by
  rcases Nat.le_one_iff_eq_zero_or_eq_one.1 h.frees_le with h0 | h1
  · exact h0
  · have := h.freed_iff.1 h1
    omega

theorem Client.Counts.openHandles_ne_zero (h : c.Counts) (hact : c.handle = .active) : c.openHandles ≠ 0 := by
  have := HandleState.counted_nonneg c.timeoutTimer
  rw [h.openHandles_eq, hact]
  show 1 + _ ≠ 0
  omega

theorem Client.Inv.closeConnection (h : c.Inv) (hacc : c.accepted = true) :
    (closeClientConnection c).Inv := by
  have htimer : c.timeoutTimer ≠ .uninit := h.accepted_iff.1 hacc
  rw [closeClientConnection_eq]
  refine ⟨⟨?_, h.workRefs_eq, ?_, ?_, ?_, fun _ => hacc⟩, h.frees_le, h.freed_iff⟩
  · show c.openHandles = _ + _
    rw [HandleState.counted_closeIf h.handle_ne, HandleState.counted_closeIf htimer, h.openHandles_eq]
  · exact h.connected_iff.trans (HandleState.closeIf_ne_closed _).symm
  · exact ⟨fun _ => HandleState.closeIf_ne_uninit htimer _, fun _ => hacc⟩
  · exact HandleState.closeIf_ne_uninit h.handle_ne _

/-- **The works of a read.**  Each command adds a reference and a queued work, or neither when
`uv_queue_work` fails. -/
theorem foldl_queueWork (works : List Bool) (c : Client) :
    works.foldl queueWork c =
      { c with workRefs := c.workRefs + works.count true, pending := c.pending + works.count true } := by
  induction works generalizing c with
  | nil => simp
  | cons b works ih =>
    rw [List.foldl_cons, ih, List.count_cons]
    cases b with
    | false => simp [queueWork]
    | true =>
      simp [queueWork]
      omega

theorem Client.Inv.read (h : c.Inv) (hact : c.handle = .active) (works : List Bool) (close : Bool) :
    (onRead c works close).Inv ∧ (onRead c works close).balance = c.balance := by
  have href := h.openHandles_ne_zero hact
  have hread : (works.foldl queueWork c).Inv := by
    rw [foldl_queueWork]
    refine Client.Counts.inv ⟨h.openHandles_eq, ?_, h.connected_iff, h.accepted_iff, h.handle_ne,
      h.accepted_of_active⟩ (h.frees_eq_zero (Or.inl href)) (Or.inl href)
    show c.workRefs + _ = ((c.pending + _ : ℕ) : ℤ)
    rw [h.workRefs_eq]
    push_cast
    rfl
  have hbal : (works.foldl queueWork c).balance = c.balance := by
    rw [foldl_queueWork]
    rfl
  have hacc : (works.foldl queueWork c).accepted = true := by
    rw [foldl_queueWork]
    exact h.accepted_of_active hact
  unfold onRead
  cases close
  · exact ⟨hread, hbal⟩
  · refine ⟨hread.closeConnection hacc, ?_⟩
    dsimp only
    rw [if_pos rfl, balance_closeClientConnection, hbal]

theorem Client.Inv.walkClose (h : c.Inv) :
    ({ c with handle := c.handle.walkClose, timeoutTimer := c.timeoutTimer.walkClose } : Client).Inv := by
  refine ⟨⟨?_, h.workRefs_eq, ?_, ?_, ?_, fun hact => absurd hact (HandleState.walkClose_ne_active _)⟩,
    h.frees_le, h.freed_iff⟩
  · show c.openHandles = _ + _
    rw [HandleState.counted_walkClose, HandleState.counted_walkClose, h.openHandles_eq]
  · exact h.connected_iff.trans HandleState.walkClose_ne_closed.symm
  · exact h.accepted_iff.trans HandleState.walkClose_ne_uninit.symm
  · exact HandleState.walkClose_ne_uninit.2 h.handle_ne

end Client

/-! ## The server -/

section Server

variable {s : Server} {i : ℕ} {c₀ c : Client}

theorem serverInit_inv : serverInit.Inv :=
  ⟨fun _ h => absurd h List.not_mem_nil, rfl, by decide⟩

/-- **Changing one client.**  The counter moves by the change of the client's balance. -/
theorem Server.Inv.set (h : s.Inv) (hi : s.clients[i]? = some c₀) (hc : c.Inv) {a : ℤ}
    (ha : a = s.activeConnections + (c.balance - c₀.balance)) (hle : a ≤ maxConcurrentConnections) :
    Server.Inv ⟨a, s.clients.set i c, s.shuttingDown⟩ := by
  obtain ⟨hlt, hget⟩ := List.getElem?_eq_some_iff.1 hi
  refine ⟨fun x hx => ?_, ?_, hle⟩
  · rcases List.mem_or_eq_of_mem_set hx with hx | rfl
    · exact h.clients x hx
    · exact hc
  · show a = ((s.clients.set i c).map Client.balance).sum
    rw [ha, h.active_eq, List.map_set, List.sum_set', dif_pos (by rw [List.length_map]; exact hlt),
      List.getElem_map, hget]
    omega

theorem Server.Inv.release (h : s.Inv) (hi : s.clients[i]? = some c₀) (hc : c.Counts)
    (hfree : c.frees = 0) (hbal : c.balance = c₀.balance) : (freeIfUnreferenced s i c).Inv := by
  unfold freeIfUnreferenced
  by_cases hz : c.openHandles = 0 ∧ c.workRefs = 0
  · -- `free(client)` and `active_connections--`
    rw [if_pos hz]
    have hinv : ({ c with frees := c.frees + 1 } : Client).Inv :=
      ⟨hc.withFrees _, show c.frees + 1 ≤ 1 by omega, ⟨fun _ => hz, fun _ => show c.frees + 1 = 1 by omega⟩⟩
    have hbal' : ({ c with frees := c.frees + 1 } : Client).balance = c.balance - 1 := by
      unfold Client.balance
      push_cast
      omega
    have := h.active_le
    exact h.set hi hinv (by rw [hbal', hbal]; omega) (by omega)
  · rw [if_neg hz]
    exact h.set hi (hc.inv hfree (not_and_or.1 hz)) (by omega) h.active_le

theorem Server.Inv.connect (h : s.Inv) (accepted : Bool) : (onNewConnection s accepted).Inv := by
  unfold onNewConnection
  by_cases hmax : s.activeConnections ≥ maxConcurrentConnections
  · rw [if_pos hmax]
    exact h
  rw [if_neg hmax]
  have hcl : ∀ c' : Client, c'.Inv → ∀ x ∈ s.clients ++ [c'], x.Inv := fun c' hc' x hx => by
    rcases List.mem_append.1 hx with hx | hx
    · exact h.clients x hx
    · rw [List.mem_singleton.1 hx]
      exact hc'
  cases accepted
  · -- `uv_accept` failed: the handle is closing, and the client is not counted
    simp only [Bool.false_eq_true, ↓reduceIte]
    refine ⟨hcl _ ⟨⟨rfl, rfl, by decide, by decide, by decide, by decide⟩, by decide, by decide⟩, ?_, h.active_le⟩
    show s.activeConnections = _
    rw [List.map_append, List.sum_append, ← h.active_eq]
    simp [Client.balance]
  · simp only [↓reduceIte]
    refine ⟨hcl _ ⟨⟨rfl, rfl, by decide, by decide, by decide, by decide⟩, by decide, by decide⟩, ?_, ?_⟩
    · show s.activeConnections + 1 = _
      rw [List.map_append, List.sum_append, ← h.active_eq]
      simp [Client.balance]
    · show s.activeConnections + 1 ≤ maxConcurrentConnections
      omega

theorem Server.Inv.shutdown (h : s.Inv) : (initiateShutdown s).Inv := by
  refine ⟨fun x hx => ?_, ?_, h.active_le⟩
  · obtain ⟨c, hc, rfl⟩ := List.mem_map.1 hx
    exact (h.clients c hc).walkClose
  · show s.activeConnections = ((s.clients.map fun c =>
      ({ c with handle := c.handle.walkClose, timeoutTimer := c.timeoutTimer.walkClose } : Client)).map
        Client.balance).sum
    rw [List.map_map, h.active_eq]
    rfl

theorem Server.Inv.workDone (h : s.Inv) (hi : s.clients[i]? = some c) (hp : 0 < c.pending) :
    (afterWorkCb s i c).Inv := by
  have hc := h.clients c (List.mem_of_getElem? hi)
  have hwr := hc.workRefs_eq
  refine h.release hi ⟨hc.openHandles_eq, ?_, hc.connected_iff, hc.accepted_iff, hc.handle_ne,
    hc.accepted_of_active⟩ (hc.frees_eq_zero (Or.inr (by omega))) rfl
  show c.workRefs - 1 = ((c.pending - 1 : ℕ) : ℤ)
  omega

theorem Server.Inv.handleClosed (h : s.Inv) (hi : s.clients[i]? = some c) (tcp : Bool)
    (hclosing : (if tcp then c.handle else c.timeoutTimer) = .closing) : (onClose s i c tcp).Inv := by
  have hc := h.clients c (List.mem_of_getElem? hi)
  cases tcp
  · -- the timer
    have ht : c.timeoutTimer = .closing := hclosing
    have hoh : c.openHandles = c.handle.counted + 1 := by rw [hc.openHandles_eq, ht]; rfl
    have hnn := HandleState.counted_nonneg c.handle
    have hclose : onClose s i c false =
        freeIfUnreferenced s i { c with timeoutTimer := .closed, openHandles := c.openHandles - 1 } := rfl
    rw [hclose]
    refine h.release hi ⟨?_, hc.workRefs_eq, hc.connected_iff, ?_, hc.handle_ne, hc.accepted_of_active⟩
      (hc.frees_eq_zero (Or.inl (by omega))) rfl
    · show c.openHandles - 1 = c.handle.counted + 0
      omega
    · exact ⟨fun _ => show HandleState.closed ≠ .uninit by decide, fun _ => hc.accepted_iff.2 (by rw [ht]; decide)⟩
  · -- the TCP handle: the client is no longer connected
    have ht : c.handle = .closing := hclosing
    have hoh : c.openHandles = 1 + c.timeoutTimer.counted := by rw [hc.openHandles_eq, ht]; rfl
    have hnn := HandleState.counted_nonneg c.timeoutTimer
    have hclose : onClose s i c true = freeIfUnreferenced s i
        { c with handle := .closed, openHandles := c.openHandles - 1, connected := false } := rfl
    rw [hclose]
    refine h.release hi ⟨?_, hc.workRefs_eq, show false = true ↔ HandleState.closed ≠ .closed by decide,
      hc.accepted_iff, show HandleState.closed ≠ .uninit by decide,
      fun h' => absurd (show HandleState.closed = .active from h') (by decide)⟩
      (hc.frees_eq_zero (Or.inl (by omega))) rfl
    show c.openHandles - 1 = 0 + c.timeoutTimer.counted
    omega

theorem step_client_eq_some {o : Option Client} {p : Client → Prop} [DecidablePred p] {f : Client → Server}
    {s' : Server} (hs : (match o with
      | some c => if p c then some (f c) else none
      | none => none) = some s') : ∃ c, o = some c ∧ p c ∧ f c = s' := by
  cases o with
  | none => cases hs
  | some c =>
    change (if p c then some (f c) else none) = some s' at hs
    by_cases hp : p c
    · rw [if_pos hp] at hs
      exact ⟨c, rfl, hp, Option.some.inj hs⟩
    · rw [if_neg hp] at hs
      cases hs

theorem step_unless_down_eq_some {b : Bool} {x s' : Server} (hs : (if b = true then none else some x) = some s') :
    x = s' := by
  cases b
  · exact Option.some.inj hs
  · cases hs

/-- **A step keeps the invariant**, whichever callback libuv delivers. -/
theorem Server.Inv.after_step (h : s.Inv) {e : Event} {s' : Server} (hs : step s e = some s') : s'.Inv := by
  cases e with
  | newConnection accepted =>
    rw [← step_unless_down_eq_some hs]
    exact h.connect accepted
  | read i works close =>
    obtain ⟨c, hi, hact, rfl⟩ := step_client_eq_some hs
    obtain ⟨hinv, hbal⟩ := (h.clients c (List.mem_of_getElem? hi)).read hact works close
    exact h.set hi hinv (by rw [hbal]; omega) h.active_le
  | timeout i =>
    obtain ⟨c, hi, ht, rfl⟩ := step_client_eq_some hs
    have hc := h.clients c (List.mem_of_getElem? hi)
    exact h.set hi (hc.closeConnection (hc.accepted_iff.2 (by rw [ht]; decide)))
      (by rw [balance_closeClientConnection]; omega) h.active_le
  | afterWork i =>
    obtain ⟨c, hi, hp, rfl⟩ := step_client_eq_some hs
    exact h.workDone hi hp
  | close i tcp =>
    obtain ⟨c, hi, hcl, rfl⟩ := step_client_eq_some hs
    exact h.handleClosed hi tcp hcl
  | signal =>
    rw [← step_unless_down_eq_some hs]
    exact h.shutdown

/-- **Along every run** the invariant holds. -/
theorem Server.Inv.after_run (h : s.Inv) {es : List Event} {s' : Server} (hs : run s es = some s') : s'.Inv := by
  induction es generalizing s with
  | nil =>
    rw [run, Option.some.injEq] at hs
    rw [← hs]
    exact h
  | cons e es ih =>
    obtain ⟨s₁, h₁, hrest⟩ := Option.bind_eq_some_iff.1 hs
    exact ih (h.after_step h₁) hrest

end Server

/-! ## What `active_connections` counts -/

theorem sum_balance (l : List Client) (h : ∀ c ∈ l, c.frees ≤ 1) :
    (l.map Client.balance).sum = ((l.filter fun c => c.accepted && c.frees == 0).length : ℤ) -
      (l.filter fun c => !c.accepted && c.frees == 1).length := by
  induction l with
  | nil => rfl
  | cons c l ih =>
    rw [List.map_cons, List.sum_cons, ih fun x hx => h x (List.mem_cons_of_mem c hx), List.filter_cons,
      List.filter_cons]
    rcases Nat.le_one_iff_eq_zero_or_eq_one.1 (h c List.mem_cons_self) with h0 | h1 <;>
      cases hacc : c.accepted <;> simp [Client.balance, *] <;> omega

theorem server_lifecycle_accounting {es : List Event} {s : Server} (h : run serverInit es = some s) :
    (∀ c ∈ s.clients, c.frees ≤ 1 ∧ (c.frees = 1 ↔ c.openHandles = 0 ∧ c.workRefs = 0) ∧
      c.openHandles = c.handle.counted + c.timeoutTimer.counted ∧ c.workRefs = c.pending) ∧
    s.activeConnections = ((s.clients.filter fun c => c.accepted && c.frees == 0).length : ℤ) -
      (s.clients.filter fun c => !c.accepted && c.frees == 1).length := by
  have hinv := serverInit_inv.after_run h
  refine ⟨fun c hc => ?_, ?_⟩
  · have hcinv := hinv.clients c hc
    exact ⟨hcinv.frees_le, hcinv.freed_iff, hcinv.openHandles_eq, hcinv.workRefs_eq⟩
  · rw [hinv.active_eq]
    exact sum_balance _ fun c hc => (hinv.clients c hc).frees_le

/-- A connection whose `uv_accept` fails, then the `on_close` of its TCP handle: the client is freed
and `active_connections` is `-1`. -/
theorem server_lifecycle_accounting_failed_accept :
    ∃ s, run serverInit [.newConnection false, .close 0 true] = some s ∧ s.activeConnections = -1 ∧
      s.activeConnections = ((s.clients.filter fun c => c.accepted && c.frees == 0).length : ℤ) -
        (s.clients.filter fun c => !c.accepted && c.frees == 1).length :=
  ⟨_, rfl, by decide, (@server_lifecycle_accounting [.newConnection false, .close 0 true] _ rfl).2⟩

/-- **The limit is not exact.**  The accepted clients alive at once are at most
`MAX_CONCURRENT_CONNECTIONS` and one more for each client that was freed after a failed accept. -/
theorem live_le_max_add_failed {es : List Event} {s : Server} (h : run serverInit es = some s) :
    ((s.clients.filter fun c => c.accepted && c.frees == 0).length : ℤ) ≤
      maxConcurrentConnections + (s.clients.filter fun c => !c.accepted && c.frees == 1).length := by
  have hinv := serverInit_inv.after_run h
  have hsum := sum_balance s.clients fun c hc => (hinv.clients c hc).frees_le
  have := hinv.active_le
  rw [hinv.active_eq, hsum] at this
  omega

theorem live_le_max_add_failed_failedAccept :
    ∃ s, run serverInit [.newConnection false, .close 0 true] = some s ∧
      ((s.clients.filter fun c => c.accepted && c.frees == 0).length : ℤ) ≤
        maxConcurrentConnections + (s.clients.filter fun c => !c.accepted && c.frees == 1).length :=
  ⟨_, rfl, @live_le_max_add_failed [.newConnection false, .close 0 true] _ rfl⟩

end Orrp.Networking.Lifecycle
