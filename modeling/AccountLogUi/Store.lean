import AccountLogUi.AccountLog.Basic

/-!
# The store

Where logs are published and read back.  `MemoryStore` is one process's own memory, which takes a
log only where it extends the one held; `ChatStore` is a service over HTTP, which can answer a
request with anything.  `Store` is the one the app was pointed at.
-/

namespace AccountLogUi

variable {Addr : Type} [DecidableEq Addr]

/-- A store in memory: the logs held, each with its address. -/
structure MemoryStore (Addr : Type) where
  logs : List (Addr × SignedAccountLog)

namespace MemoryStore

def held (store : MemoryStore Addr) (addr : Addr) : Option SignedAccountLog :=
  (store.logs.find? (·.1 = addr)).map Prod.snd

def fetch (store : MemoryStore Addr) (addr : Addr) : Except StoreError (Option SignedAccountLog) :=
  .ok (store.held addr)

/-- Put `log` in the place of the one held under `addr`, or at the end. -/
def put (addr : Addr) (log : SignedAccountLog) :
    List (Addr × SignedAccountLog) → List (Addr × SignedAccountLog)
  | [] => [(addr, log)]
  | entry :: entries =>
    if entry.1 = addr then (addr, log) :: entries else entry :: put addr log entries

/-- A log is accepted only where it extends the one held. -/
def publish (store : MemoryStore Addr) (addr : Addr) (log : SignedAccountLog) :
    Except StoreError Unit × MemoryStore Addr :=
  match store.held addr with
  | some existing =>
    if existing.payload.isPrefixOf log.payload then (.ok (), ⟨put addr log store.logs⟩)
    else (.error .diverged, store)
  | none => (.ok (), ⟨put addr log store.logs⟩)

end MemoryStore

/-- What the service makes of one request. -/
structure Turn where
  /-- How it answers a fetch. -/
  fetch : Except StoreError (Option SignedAccountLog)
  /-- How it answers a publish. -/
  publish : Except StoreError Unit
  /-- A publish answered with an error landed all the same. -/
  lost : Bool

/-- chat-store over HTTP: the logs it holds, and what it will make of the next requests. -/
structure ChatStore (Addr : Type) where
  logs : List (Addr × SignedAccountLog)
  turns : List Turn

namespace ChatStore

/-- What is made of a request when nothing answers. -/
def unanswered : Turn :=
  ⟨.error (.transport "connection refused"), .error (.transport "connection refused"), false⟩

def turn (store : ChatStore Addr) : Turn := store.turns.headD unanswered

def fetch (store : ChatStore Addr) (_ : Addr) :
    Except StoreError (Option SignedAccountLog) × ChatStore Addr :=
  (store.turn.fetch, { store with turns := store.turns.tail })

/-- The publish landed. -/
def lands (turn : Turn) : Bool := turn.publish.isOk || turn.lost

def publish (store : ChatStore Addr) (addr : Addr) (log : SignedAccountLog) :
    Except StoreError Unit × ChatStore Addr :=
  (store.turn.publish, {
    logs := if lands store.turn then MemoryStore.put addr log store.logs else store.logs
    turns := store.turns.tail })

end ChatStore

/-- The store this app was pointed at. -/
inductive Store (Addr : Type)
  | chat (store : ChatStore Addr)
  | memory (store : MemoryStore Addr)

namespace Store

/-- The log the store holds for an account. -/
def held (store : Store Addr) (addr : Addr) : Option SignedAccountLog :=
  match store with
  | .chat store => MemoryStore.held ⟨store.logs⟩ addr
  | .memory store => store.held addr

def fetch (store : Store Addr) (addr : Addr) :
    Except StoreError (Option SignedAccountLog) × Store Addr :=
  match store with
  | .chat store => ((store.fetch addr).1, .chat (store.fetch addr).2)
  | .memory store => (store.fetch addr, .memory store)

def publish (store : Store Addr) (addr : Addr) (log : SignedAccountLog) :
    Except StoreError Unit × Store Addr :=
  match store with
  | .chat store => ((store.publish addr log).1, .chat (store.publish addr log).2)
  | .memory store => ((store.publish addr log).1, .memory (store.publish addr log).2)

/-- No write the store answers with an error lands. -/
def Honest : Store Addr → Prop
  | .chat store => ∀ turn ∈ store.turns, turn.lost = false
  | .memory _ => True

/-! ### What requests do to what is held -/

theorem held_put_self (logs : List (Addr × SignedAccountLog)) (addr : Addr)
    (log : SignedAccountLog) :
    MemoryStore.held ⟨MemoryStore.put addr log logs⟩ addr = some log := by
  induction logs with
  | nil => simp [MemoryStore.put, MemoryStore.held]
  | cons entry entries ih =>
    rw [MemoryStore.put]
    split
    · simp [MemoryStore.held]
    · next hne => simpa [MemoryStore.held, hne] using ih

theorem held_put_ne (logs : List (Addr × SignedAccountLog)) {addr other : Addr}
    (hne : other ≠ addr) (log : SignedAccountLog) :
    MemoryStore.held ⟨MemoryStore.put addr log logs⟩ other = MemoryStore.held ⟨logs⟩ other := by
  induction logs with
  | nil => simp [MemoryStore.put, MemoryStore.held, hne.symm]
  | cons entry entries ih =>
    rw [MemoryStore.put]
    split
    · next heq =>
      subst heq
      simp [MemoryStore.held, hne.symm]
    · by_cases hentry : entry.1 = other
      · simp [MemoryStore.held, hentry]
      · simpa [MemoryStore.held, hentry] using ih

/-- A read leaves what is held. -/
@[simp] theorem held_fetch (store : Store Addr) (addr other : Addr) :
    (store.fetch addr).2.held other = store.held other := by
  rcases store with store | store <;> rfl

theorem Honest.fetch {store : Store Addr} (h : store.Honest) (addr : Addr) :
    (store.fetch addr).2.Honest := by
  rcases store with store | store
  · exact fun turn hturn => h turn (List.mem_of_mem_tail hturn)
  · trivial

/-- A log the store took is the one it holds. -/
theorem held_publish_ok {store : Store Addr} {addr : Addr} {log : SignedAccountLog}
    (h : (store.publish addr log).1 = .ok ()) :
    (store.publish addr log).2.held addr = some log := by
  rcases store with store | store
  · have hlands : ChatStore.lands store.turn = true := by
      have hturn : store.turn.publish = .ok () := h
      simp [ChatStore.lands, hturn, Except.isOk, Except.toBool]
    show MemoryStore.held ⟨if _ then _ else _⟩ addr = _
    rw [if_pos hlands]
    exact held_put_self _ _ _
  · show (store.publish addr log).2.held addr = _
    have h' : (store.publish addr log).1 = .ok () := h
    unfold MemoryStore.publish at h' ⊢
    split
    · next existing hheld =>
      split
      · exact held_put_self _ _ _
      · next hpre => simp [hheld, hpre] at h'
    · exact held_put_self _ _ _

/-- A write to one account leaves what is held for the others. -/
theorem held_publish_ne (store : Store Addr) {addr other : Addr} (hne : other ≠ addr)
    (log : SignedAccountLog) : (store.publish addr log).2.held other = store.held other := by
  rcases store with store | store
  · show MemoryStore.held ⟨if _ then _ else _⟩ other = _
    split
    · exact held_put_ne _ hne _
    · rfl
  · show (store.publish addr log).2.held other = store.held other
    unfold MemoryStore.publish
    split
    · split
      · exact held_put_ne _ hne _
      · rfl
    · exact held_put_ne _ hne _

/-- A write an honest store answers with an error changed nothing. -/
theorem held_publish_error {store : Store Addr} (hstore : store.Honest) {addr : Addr}
    {log : SignedAccountLog} {e : StoreError} (h : (store.publish addr log).1 = .error e)
    (other : Addr) : (store.publish addr log).2.held other = store.held other := by
  rcases store with store | store
  · have hturn : store.turn.publish = .error e := h
    have hlost : store.turn.lost = false := by
      unfold ChatStore.turn
      cases hturns : store.turns with
      | nil => rfl
      | cons turn turns => exact hstore turn (hturns ▸ List.mem_cons_self)
    have hlands : ChatStore.lands store.turn = false := by
      simp [ChatStore.lands, hturn, hlost, Except.isOk, Except.toBool]
    show MemoryStore.held ⟨if _ then _ else _⟩ other = _
    rw [hlands]
    rfl
  · have h' : (store.publish addr log).1 = .error e := h
    show (store.publish addr log).2.held other = store.held other
    unfold MemoryStore.publish at h' ⊢
    split
    · next existing hheld =>
      split
      · next hpre => simp [hheld, hpre] at h'
      · rfl
    · next hheld => simp [hheld] at h'

end Store

/-- In memory, a log taken extends the one held before. -/
theorem MemoryStore.publish_ok {store : MemoryStore Addr} {addr : Addr} {log : SignedAccountLog}
    (h : (store.publish addr log).1 = .ok ()) {existing : SignedAccountLog}
    (hheld : store.held addr = some existing) : existing.payload <+: log.payload := by
  unfold MemoryStore.publish at h
  rw [hheld] at h
  by_cases hpre : existing.payload.isPrefixOf log.payload = true
  · exact List.isPrefixOf_iff_prefix.mp hpre
  · simp [hpre] at h

end AccountLogUi
