import JmapBridge.Effect.Triple

/-! The event loop of one user: the listener on the JMAP EventSource, the channel on
which it asks for polls, and the task that debounces the requests and polls. -/

namespace JmapBridge

open Effect

/-- How a wait for the next event ends: with an event, an error in the stream, the end of
the stream, or after an hour without one. -/
inductive NextEvent where
  | event
  | error
  | ended
  | idle
deriving DecidableEq, Repr

def NextEvent.loses : NextEvent → Bool
  | event => false
  | _ => true

inductive Received where
  | request
  | closed
  | pending
deriving DecidableEq, Repr

/-- `pollRecv` is one poll of `rx.recv()`. The poll of the mail is two commands, its start
and its end, for requests arrive while it goes on. -/
inductive LoopCmd where
  | send
  | pollRecv
  | tryRecv
  | sleep (millis : Nat)
  | beginPoll
  | endPoll
  | eventSource
  | nextEvent
deriving DecidableEq, Repr

@[reducible] def LoopCmd.Ans : LoopCmd → Type
  | pollRecv => Received
  | tryRecv => Bool
  | endPoll => Bool
  | eventSource => Bool
  | nextEvent => NextEvent
  | _ => Unit

inductive LoopOp : Type → Type where
  | mk (c : LoopCmd) : LoopOp c.Ans

def LoopOp.cmd {β : Type} : LoopOp β → LoopCmd
  | .mk c => c

inductive LoopAnswer where
  | done
  | failed
  | next (e : NextEvent)
deriving DecidableEq, Repr

structure LoopRecord where
  task : Nat
  cmd : LoopCmd
  answer : LoopAnswer
deriving DecidableEq, Repr

/-- The record puts a request for a poll into the channel. -/
def LoopRecord.sends (r : LoopRecord) : Bool := r.cmd == .send

/-- The bound of the channel. -/
def channelBound : Nat := 100

/-- `queued` requests are in the channel. Its receiver is `parked` when it has found the
channel empty and nothing was sent since; the channel is `closed` once its sender is gone.
The newest record of `trace` is its first. -/
structure LoopWorld where
  queued : Nat := 0
  parked : Bool := false
  closed : Bool := false
  trace : List LoopRecord := []

/-- A command under an answer of the environment; a send waits while the channel is full. -/
def LoopCmd.run : (c : LoopCmd) → LoopAnswer → LoopWorld → Option (c.Ans × LoopWorld)
  | send, .done, w =>
    if w.queued < channelBound then some ((), { w with queued := w.queued + 1, parked := false })
    else none
  | pollRecv, .done, w =>
    if 0 < w.queued then some (.request, { w with queued := w.queued - 1, parked := false })
    else if w.closed then some (.closed, w)
    else some (.pending, { w with parked := true })
  | tryRecv, .done, w =>
    if 0 < w.queued then some (true, { w with queued := w.queued - 1 }) else some (false, w)
  | sleep _, .done, w => some ((), w)
  | beginPoll, .done, w => some ((), w)
  | endPoll, .done, w => some (true, w)
  | endPoll, .failed, w => some (false, w)
  | eventSource, .done, w => some (true, w)
  | eventSource, .failed, w => some (false, w)
  | nextEvent, .next e, w => some (e, w)
  | _, _, _ => none

def loopExec (t : Nat) {β : Type} : LoopOp β → LoopAnswer → LoopWorld → Option (β × LoopWorld)
  | .mk c, a, w => (c.run a w).map fun r => (r.1, { r.2 with trace := ⟨t, c, a⟩ :: r.2.trace })

def onLoop (c : LoopCmd) : Prog LoopOp c.Ans := Prog.call (.mk c)

/-- `rx.recv().await.is_some()`. -/
def recv : Prog LoopOp Bool :=
  Prog.loop (fun _ : Unit => Prog.bind (onLoop .pollRecv) fun
    | .request => .pure (.inr true)
    | .closed => .pure (.inr false)
    | .pending => .pure (.inl ())) () .pure

/-- `while rx.try_recv().is_ok() {}`. -/
def drain : Prog LoopOp Unit :=
  Prog.loop (fun _ : Unit => Prog.bind (onLoop .tryRecv) fun more =>
    .pure (if more then .inl () else .inr ())) () .pure

def quietMillis : Nat := 2000

def debouncedPolls : Prog LoopOp Unit :=
  Prog.loop (fun _ : Unit => Prog.bind recv fun more =>
    if more then
      Prog.bind drain fun _ =>
      Prog.bind (onLoop (.sleep quietMillis)) fun _ =>
      Prog.bind (onLoop .beginPoll) fun _ =>
      Prog.bind (onLoop .endPoll) fun _ => .pure (.inl ())
    else .pure (.inr ())) () .pure

/-- The stream is read until it is lost. -/
def listen : Prog LoopOp Unit :=
  Prog.loop (fun _ : Unit => Prog.bind (onLoop .nextEvent) fun
    | .event => Prog.bind (onLoop .send) fun _ => .pure (.inl ())
    | .error => .pure (.inr ())
    | .ended => .pure (.inr ())
    | .idle => Prog.bind (onLoop .send) fun _ => .pure (.inr ())) () .pure

def firstRetryMillis : Nat := 1000

def maxRetryMillis : Nat := 60000

/-- Subscribe, listen and subscribe again; `delay` is the pause after a failure. -/
def listener : Prog LoopOp Unit :=
  Prog.loop (fun delay : Nat => Prog.bind (onLoop .eventSource) fun subscribed =>
    if subscribed then Prog.bind listen fun _ => .pure (.inl firstRetryMillis)
    else Prog.bind (onLoop (.sleep delay)) fun _ => .pure (.inl (min (2 * delay) maxRetryMillis)))
    firstRetryMillis fun b : Empty => b.elim

/-- The first request is for the sync at the start. -/
def runEventLoop : Prog LoopOp Unit := Prog.bind (onLoop .send) fun _ => listener

/-- Task 0 is the event loop and task 1 the poll task it spawns. -/
def loopTask : Nat → Prog LoopOp Unit
  | 0 => runEventLoop
  | 1 => debouncedPolls
  | _ => .pure ()

/-- The sender of the channel goes with the event loop. -/
def loopSystem : System LoopOp LoopWorld LoopAnswer Empty where
  exec := loopExec
  env e := e.elim
  drop t w := if t = 0 then { w with closed := true } else w
  entry := loopTask

/-- The event loop and its poll task go together: neither is cancelled alone. -/
def Unaborted : Discipline LoopOp LoopWorld LoopAnswer Empty where
  cancel _ _ := False

instance : ∀ e q, Decidable (Unaborted.meets e q) :=
  @Discipline.decidableMeets LoopOp LoopWorld LoopAnswer Empty Unaborted
    (fun _ _ => instDecidableTrue)
    (fun _ _ _ _ _ => instDecidableTrue) (fun _ _ => instDecidableFalse) fun _ _ =>
      instDecidableTrue

section Exec

variable {t : Nat} {a : LoopAnswer} {w w' : LoopWorld}

theorem loopExec_mk {c : LoopCmd} {b : c.Ans} (h : loopExec t (.mk c) a w = some (b, w')) :
    ∃ w₁, c.run a w = some (b, w₁) ∧ w' = { w₁ with trace := ⟨t, c, a⟩ :: w₁.trace } := by
  obtain ⟨⟨b₁, w₁⟩, hp, he⟩ := Option.map_eq_some_iff.mp h
  obtain ⟨rfl, rfl⟩ := Prod.mk.inj he
  exact ⟨w₁, hp, rfl⟩

theorem loopExec_send {b : Unit} (h : loopExec t (.mk .send) a w = some (b, w')) :
    w' = { w with queued := w.queued + 1, parked := false, trace := ⟨t, .send, a⟩ :: w.trace } := by
  obtain ⟨w₁, hp, rfl⟩ := loopExec_mk h
  cases a with
  | done =>
    simp only [LoopCmd.run] at hp
    split at hp
    · obtain ⟨-, rfl⟩ := Prod.mk.inj (Option.some.inj hp)
      rfl
    · cases hp
  | _ => cases hp

theorem loopExec_pollRecv {b : Received} (h : loopExec t (.mk .pollRecv) a w = some (b, w')) :
    (b = .request ∧ 0 < w.queued ∧ w' = { w with
      queued := w.queued - 1, parked := false, trace := ⟨t, .pollRecv, a⟩ :: w.trace }) ∨
    (b = .closed ∧ w.closed ∧ w' = { w with trace := ⟨t, .pollRecv, a⟩ :: w.trace }) ∨
    b = .pending ∧ w.queued = 0 ∧
      w' = { w with parked := true, trace := ⟨t, .pollRecv, a⟩ :: w.trace } := by
  obtain ⟨w₁, hp, rfl⟩ := loopExec_mk h
  cases a with
  | done =>
    simp only [LoopCmd.run] at hp
    split at hp
    case isTrue hq =>
      obtain ⟨rfl, rfl⟩ := Prod.mk.inj (Option.some.inj hp)
      exact .inl ⟨rfl, hq, rfl⟩
    case isFalse hq =>
      split at hp
      case isTrue hc =>
        obtain ⟨rfl, rfl⟩ := Prod.mk.inj (Option.some.inj hp)
        exact .inr (.inl ⟨rfl, hc, rfl⟩)
      case isFalse =>
        obtain ⟨rfl, rfl⟩ := Prod.mk.inj (Option.some.inj hp)
        exact .inr (.inr ⟨rfl, by omega, rfl⟩)
  | _ => cases hp

theorem loopExec_nextEvent {b : NextEvent} (h : loopExec t (.mk .nextEvent) a w = some (b, w')) :
    a = .next b ∧ w' = { w with trace := ⟨t, .nextEvent, a⟩ :: w.trace } := by
  obtain ⟨w₁, hp, rfl⟩ := loopExec_mk h
  cases a with
  | next e =>
    obtain ⟨rfl, rfl⟩ := Prod.mk.inj (Option.some.inj hp)
    exact ⟨rfl, rfl⟩
  | _ => cases hp

theorem loopExec_tryRecv {b : Bool} (h : loopExec t (.mk .tryRecv) a w = some (b, w')) :
    w' = { w with queued := w.queued - 1, trace := ⟨t, .tryRecv, a⟩ :: w.trace } := by
  obtain ⟨w₁, hp, rfl⟩ := loopExec_mk h
  cases a with
  | done =>
    simp only [LoopCmd.run] at hp
    split at hp
    case isTrue =>
      obtain ⟨-, rfl⟩ := Prod.mk.inj (Option.some.inj hp)
      rfl
    case isFalse hq =>
      obtain ⟨-, rfl⟩ := Prod.mk.inj (Option.some.inj hp)
      have hzero : w.queued - 1 = w.queued := by omega
      rw [hzero]
  | _ => cases hp

/-- The commands on the channel. -/
def LoopCmd.onChannel : LoopCmd → Bool
  | send => true
  | pollRecv => true
  | tryRecv => true
  | _ => false

theorem loopExec_apart {c : LoopCmd} {b : c.Ans} (hc : c.onChannel = false)
    (h : loopExec t (.mk c) a w = some (b, w')) :
      w' = { w with trace := ⟨t, c, a⟩ :: w.trace } := by
  obtain ⟨w₁, hp, rfl⟩ := loopExec_mk h
  suffices hsame : w₁ = w by rw [hsame]
  cases c with
  | send => cases hc
  | pollRecv => cases hc
  | tryRecv => cases hc
  | _ => cases a <;> cases hp <;> rfl

theorem loopExec_trace {c : LoopCmd} {b : c.Ans} (h : loopExec t (.mk c) a w = some (b, w')) :
    w'.trace = ⟨t, c, a⟩ :: w.trace := by
  cases c with
  | send => rw [loopExec_send h]
  | pollRecv =>
    rcases loopExec_pollRecv h with ⟨-, -, rfl⟩ | ⟨-, -, rfl⟩ | ⟨-, -, rfl⟩
    · rfl
    · rfl
    · rfl
  | tryRecv => rw [loopExec_tryRecv h]
  | _ => rw [loopExec_apart rfl h]

end Exec

end JmapBridge
