import AccountLogUi.Manager.Runs

/-!
# Calls, one after another

A `Call` is an operation with the `Weather` it meets: which calls of the filesystem fail, what the
service makes of its requests, what the clock says, and what others published since the call
before.  Two apps are compared by the same calls made of both, in the same weather.
-/

namespace AccountLogUi

variable {Addr : Type} [DecidableEq Addr]

/-- What an operation meets outside the app. -/
structure Weather (Addr : Type) where
  faults : List (Option Fault)
  turns : List Turn
  now : ℤ
  /-- What others published since, oldest first. -/
  published : List (Addr × SignedAccountLog)

/-- The store, in other weather. -/
def Store.under (store : Store Addr) (weather : Weather Addr) : Store Addr :=
  match store with
  | .chat store => .chat ⟨weather.published.foldl (fun logs (addr, log) =>
      MemoryStore.put addr log logs) store.logs, weather.turns⟩
  | .memory store => .memory (weather.published.foldl (fun store (addr, log) =>
      (store.publish addr log).2) store)

/-- The world, in other weather. -/
def World.under (w : World Addr) (weather : Weather Addr) : World Addr :=
  { w with
    disk := ⟨w.disk.fs, weather.faults⟩
    store := w.store.under weather
    now := weather.now }

/-- An operation, and the weather it is asked for in. -/
structure Call (Addr : Type) where
  op : CoreOp Addr
  weather : Weather Addr

/-- Make the call. -/
def Call.run (C : Crates Addr) (call : Call Addr) (w : World Addr) :
    Except (CoreError Addr) (CoreAnswer Addr) × World Addr :=
  call.op.run C (w.under call.weather)

namespace World

variable (C : Crates Addr)

/-- What several calls leave. -/
def after (w : World Addr) (calls : List (Call Addr)) : World Addr :=
  calls.foldl (fun w call => (call.run C w).2) w

/-- What several calls are answered. -/
def answers (w : World Addr) : List (Call Addr) → List (Except (CoreError Addr) (CoreAnswer Addr))
  | [] => []
  | call :: calls => (call.run C w).1 :: answers (call.run C w).2 calls

/-- The account's row in the list of accounts. -/
def row (w : World Addr) (addr : Addr) : Except (CoreError Addr) (List AccountSummary) :=
  ((Manager.accounts C).on w).1.map fun rows =>
    rows.filter (·.address = String.ofList (C.addrText addr))

end World

end AccountLogUi
