import JmapBridge.Model.Transactions

/-! The entry points of the bridge process. A run starts, interleaves and cancels
any number of these calls. -/

namespace JmapBridge

open Effect

/-- `poll` is one debounced poll of the event loop as well as a manual `poll_now`;
`transaction` is one delivery of the homeserver, and a `detached` task is spawned by a
reaction. -/
inductive Call where
  | poll (p : Poller)
  | backfill (p : Poller)
  | newThread (p : Poller) (email : Email) (ghost : GhostUser) (body : EmailBody)
  | fileRoom (user : UserId) (room : RoomId)
  | repairSpace (user : UserId)
  | worker
  | transaction (txnId : TransactionId) (txn : MatrixTransaction)
  | detached (task : Detached)
  | prune
  | logout (user : UserId)

/-- The calls that bridge mail: `poll`, which is also `poll_now`, and the backfill task. -/
def Call.Ingests : Call → Prop
  | poll _ => True
  | backfill _ => True
  | _ => False

/-- Run to the end whatever the result. -/
def ignore {α : Type} (x : Bridge α) : Task Unit := Prog.bind x fun _ => .pure ()

def Detached.program (cfg : Config) : Detached → Bridge Unit
  | loadImages sender room target => handleLoadImages cfg sender room target
  | threadAction sender room role => handleThreadAction cfg sender room role

def Call.program (cfg : Config) : Call → Task Unit
  | poll p => ignore (JmapBridge.poll cfg p)
  | backfill p => runBackfillLoop cfg p
  | newThread p email ghost body => ignore (processNewThread cfg p email ghost body)
  | fileRoom user room => ignore (ensureRoomInEmailSpace user room)
  | repairSpace user => ignore (repairEmailSpace user)
  | worker => runRetryLoop cfg
  | transaction txnId txn => handleTransactions cfg txnId txn
  | detached task => ignore (task.program cfg)
  | prune => runPruning
  | logout user => ignore (JmapBridge.logout user)

def Call.isWorker : Call → Bool
  | worker => true
  | _ => false

/-- There is one worker, which may be restarted. -/
def OneWorker (calls : Nat → Call) : Prop :=
  ∀ t i, calls t = .worker → calls i = .worker → i = t

/-- The bridge process in which task `t` makes the call `calls t`. -/
def bridge (cfg : Config) (calls : Nat → Call) : System Op World Answer Env :=
  system fun t => (calls t).program cfg

end JmapBridge
