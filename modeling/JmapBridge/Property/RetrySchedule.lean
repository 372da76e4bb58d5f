import JmapBridge.Effect.Watch
import JmapBridge.Model.Frames
import JmapBridge.Model.Service
import JmapBridge.Property.Resending

/-! The schedule of the attempts. The worker is watched for what it does with each row of the
queue and when, and the notes are read by a machine with a state for each stand of a row. -/

namespace JmapBridge

open Effect Sql

inductive Deed where
  | attempt
  | failure
  | notice
deriving DecidableEq, Repr

/-- What was done with a row of the queue, and when. -/
structure Entry where
  row : Nat
  deed : Deed
  time : Nat
deriving DecidableEq, Repr

/-- `todo` are the messages that the worker has fetched and not dropped, of which it handles
the first, `first` the rows as they were when they were first seen in the queue. The newest
entry comes first. -/
structure Diary where
  todo : List OutboundMessage := []
  first : Nat → Option OutboundRow
  entries : List Entry := []

namespace Diary

def enter (row : Nat) (deed : Deed) (now : Nat) (d : Diary) : Diary :=
  { d with entries := ⟨row, deed, now⟩ :: d.entries }

def see (queue : Table Nat OutboundRow) (d : Diary) : Diary :=
  { d with first := fun id => (d.first id).or (queue.lookup id) }

/-- An attempt begins with the lookup of a client. -/
def note (now : Nat) : (c : Cmd) → c.Ans → Diary → Diary
  | .store .getPendingOutbound, .ok messages, d => { d with todo := messages }
  | .store (.updateRetryCount id), _, d => d.enter id .failure now
  | .task (.getClient _), _, d =>
    match d.todo with
    | msg :: _ => d.enter msg.id .attempt now
    | [] => d
  | .matrix (.sendAsGhost _ _ (.message body) _), _, d =>
    match body.origin with
    | .queued id => d.enter id .notice now
    | _ => d
  | .task (.dropMessage _), _, d => { d with todo := d.todo.tail }
  | _, _, d => d

end Diary

/-- The commands of task `worker` are noted, and the rows that any command has put into the
queue. -/
def retryDiary (worker : Nat) : Watcher Op World Answer Diary where
  note t _ o _ b w w' d :=
    Diary.see w'.store.outboundQueue (match o, b with
      | .mk c, b => if t = worker then d.note w.now c b else d)

/-- The stand of a row: `since` is the time of its last failure, of the attempt under way or
of the last notice. -/
inductive Phase where
  | resting (failures since : Nat)
  | trying (failures since : Nat)
  | givingUp (since : Nat)
deriving DecidableEq, Repr

def Phase.failures : Phase → Nat
  | resting k _ => k
  | trying k _ => k
  | givingUp _ => 9

/-- What may be done next with a row that is released at `release`. -/
def Phase.next (release : Nat) : Phase → Deed → Nat → Option Phase
  | resting k since, .attempt, now =>
    if k ≤ 9 ∧ release ≤ now ∧ (k ≠ 0 → since + 60 * 2 ^ (k - 1) < now) then some (trying k now)
    else none
  | trying k since, .failure, now =>
    if k < 9 ∧ since ≤ now then some (resting (k + 1) now) else none
  | trying k since, .notice, now => if k = 9 ∧ since ≤ now then some (givingUp now) else none
  | givingUp since, .notice, now => if since ≤ now then some (givingUp now) else none
  | _, _, _ => none

/-- The stand of row `id`, which was `row` when it was first seen. -/
def phaseOf (row : OutboundRow) (id : Nat) : List Entry → Option Phase
  | [] => some (.resting row.retryCount row.lastRetryAt)
  | e :: older =>
    if e.row = id then (phaseOf row id older).bind fun s => s.next row.releaseAt e.deed e.time
    else phaseOf row id older

/-! What the machine accepts, in terms of the times of the attempts, failures and notices. -/

/-- The times at which `deed` was done with row `id`, oldest first. -/
def times (deed : Deed) (id : Nat) : List Entry → List Nat
  | [] => []
  | e :: older =>
    if e.row = id ∧ e.deed = deed then times deed id older ++ [e.time] else times deed id older

/-- The attempts on a row that was `row` when it was first seen, the failures recorded for it
and the notices that it is given up. -/
structure OnSchedule (row : OutboundRow) (attempts failures notices : List Nat) : Prop where
  limit : row.retryCount + attempts.length ≤ 10
  released : ∀ a ∈ attempts, row.releaseAt ≤ a
  resumed : row.retryCount ≠ 0 →
    ∀ a : Nat, attempts[0]? = some a → row.lastRetryAt + 60 * 2 ^ (row.retryCount - 1) < a
  spaced : ∀ k f a : Nat, failures[k]? = some f → attempts[k + 1]? = some a →
    f + 60 * 2 ^ (row.retryCount + k) < a
  recorded : ∀ k a f : Nat, attempts[k]? = some a → failures[k]? = some f → a ≤ f
  alternate : failures.length ≤ attempts.length ∧ attempts.length ≤ failures.length + 1
  givenUp : notices ≠ [] →
    row.retryCount + attempts.length = 10 ∧ row.retryCount + failures.length = 9

/-- The schedule has been kept and the row stands at the phase. -/
def StandsAt (row : OutboundRow) (attempts failures notices : List Nat) : Phase → Prop
  | .resting k since => OnSchedule row attempts failures notices ∧ notices = [] ∧
    k = row.retryCount + failures.length ∧ attempts.length = failures.length ∧
    (since = row.lastRetryAt ∧ failures = [] ∨ failures.getLast? = some since)
  | .trying k since => OnSchedule row attempts failures notices ∧ notices = [] ∧
    k = row.retryCount + failures.length ∧ attempts.length = failures.length + 1 ∧
    attempts.getLast? = some since
  | .givingUp _ => OnSchedule row attempts failures notices ∧
    row.retryCount + failures.length = 9 ∧ attempts.length = failures.length + 1

section

variable {row : OutboundRow} {attempts failures notices : List Nat} {k since now id : Nat}

theorem StandsAt.onSchedule {s : Phase} (h : StandsAt row attempts failures notices s) :
    OnSchedule row attempts failures notices := by
  cases s with
  | resting k since => exact h.1
  | trying k since => exact h.1
  | givingUp since => exact h.1

theorem getElem?_concat_of_ne {l : List Nat} {x y : Nat} (h : (l ++ [x])[k]? = some y)
    (hk : k ≠ l.length) : l[k]? = some y := by
  have hlt : k < (l ++ [x]).length := (List.getElem?_eq_some_iff.mp h).1
  rw [List.length_append, List.length_singleton] at hlt
  rwa [List.getElem?_append_left (by omega)] at h

theorem StandsAt.attempt (h : StandsAt row attempts failures notices (.resting k since))
    (hk : k ≤ 9) (hrelease : row.releaseAt ≤ now) (hwait : k ≠ 0 → since + 60 * 2 ^ (k - 1) < now) :
    StandsAt row (attempts ++ [now]) failures notices (.trying k now) := by
  obtain ⟨hon, hnone, hcount, hlength, hsince⟩ := h
  refine ⟨⟨?_, ?_, ?_, ?_, ?_, ?_, ?_⟩, hnone, hcount, by simp [hlength], by simp⟩
  · simp only [List.length_append, List.length_singleton]
    omega
  · intro a ha
    rcases List.mem_append.mp ha with ha | ha
    · exact hon.released a ha
    · rwa [List.mem_singleton.mp ha]
  · intro hne a ha
    by_cases h0 : attempts = []
    · have hfail : failures = [] := List.length_eq_zero_iff.mp (by rw [← hlength, h0]; rfl)
      have hnow : now = a := by simpa [h0] using ha
      rcases hsince with ⟨hs, -⟩ | hs
      · have hw := hwait (by omega)
        rw [hcount, hfail, hs] at hw
        simpa [hnow] using hw
      · simp [hfail] at hs
    · refine hon.resumed hne a (getElem?_concat_of_ne ha ?_)
      have hpos := List.length_pos_iff.mpr h0
      omega
  · intro j f a hf ha
    have hj : j < failures.length := (List.getElem?_eq_some_iff.mp hf).1
    by_cases hlast : j + 1 = attempts.length
    · have hnow : now = a := by simpa [hlast] using ha
      have hlastf : failures.getLast? = some f := by
        rw [List.getLast?_eq_getElem?, show failures.length - 1 = j by omega, hf]
      rcases hsince with ⟨-, hnil⟩ | hs
      · simp [hnil] at hf
      · obtain rfl : f = since := Option.some.inj (hlastf ▸ hs)
        have hw := hwait (by omega)
        rwa [hcount, show row.retryCount + failures.length - 1 = row.retryCount + j by omega,
          hnow] at hw
    · exact hon.spaced j f a hf (getElem?_concat_of_ne ha hlast)
  · intro j a f ha hf
    have hj : j < failures.length := (List.getElem?_eq_some_iff.mp hf).1
    exact hon.recorded j a f (getElem?_concat_of_ne ha (by omega)) hf
  · simp only [List.length_append, List.length_singleton]
    omega
  · exact fun hne => absurd hnone hne

theorem StandsAt.failure (h : StandsAt row attempts failures notices (.trying k since))
    (hsince : since ≤ now) :
    StandsAt row attempts (failures ++ [now]) notices (.resting (k + 1) now) := by
  obtain ⟨hon, hnone, hcount, hlength, hlast⟩ := h
  refine ⟨⟨hon.limit, hon.released, hon.resumed, ?_, ?_, ?_, ?_⟩, hnone, ?_, ?_, .inr (by simp)⟩
  · intro j f a hf ha
    have hj : j + 1 < attempts.length := (List.getElem?_eq_some_iff.mp ha).1
    exact hon.spaced j f a (getElem?_concat_of_ne hf (by omega)) ha
  · intro j a f ha hf
    by_cases hj : j = failures.length
    · have hnow : now = f := by simpa [hj] using hf
      have ha' : attempts.getLast? = some a := by
        rw [List.getLast?_eq_getElem?, hlength, Nat.add_sub_cancel, ← hj, ha]
      obtain rfl : a = since := Option.some.inj (ha' ▸ hlast)
      omega
    · exact hon.recorded j a f ha (getElem?_concat_of_ne hf hj)
  · simp only [List.length_append, List.length_singleton]
    omega
  · exact fun hne => absurd hnone hne
  · simp only [List.length_append, List.length_singleton]
    omega
  · simp only [List.length_append, List.length_singleton]
    exact hlength

theorem OnSchedule.notice (h : OnSchedule row attempts failures notices)
    (h9 : row.retryCount + failures.length = 9) (hlength : attempts.length = failures.length + 1) :
    OnSchedule row attempts failures (notices ++ [now]) :=
  ⟨h.limit, h.released, h.resumed, h.spaced, h.recorded, h.alternate, fun _ => ⟨by omega, h9⟩⟩

theorem StandsAt.next {s s' : Phase} {deed : Deed} {older : List Entry}
    (h : StandsAt row (times .attempt id older) (times .failure id older)
      (times .notice id older) s)
    (hs : s.next row.releaseAt deed now = some s') :
    StandsAt row (times .attempt id (⟨id, deed, now⟩ :: older))
      (times .failure id (⟨id, deed, now⟩ :: older))
        (times .notice id (⟨id, deed, now⟩ :: older)) s' := by
  unfold Phase.next at hs
  split at hs
  case h_1 k since =>
    split at hs
    case isTrue hc =>
      obtain rfl := Option.some.inj hs
      simpa [times] using h.attempt hc.1 hc.2.1 hc.2.2
    case isFalse => cases hs
  case h_2 k since =>
    split at hs
    case isTrue hc =>
      obtain rfl := Option.some.inj hs
      simpa [times] using h.failure hc.2
    case isFalse => cases hs
  case h_3 k since =>
    split at hs
    case isTrue hc =>
      obtain rfl := Option.some.inj hs
      obtain ⟨hon, -, hcount, hlength, -⟩ := h
      have h9 : row.retryCount + (times .failure id older).length = 9 := by omega
      simpa [times, StandsAt] using And.intro (hon.notice h9 hlength) ⟨h9, hlength⟩
    case isFalse => cases hs
  case h_4 since =>
    split at hs
    case isTrue hc =>
      obtain rfl := Option.some.inj hs
      obtain ⟨hon, h9, hlength⟩ := h
      simpa [times, StandsAt] using And.intro (hon.notice h9 hlength) ⟨h9, hlength⟩
    case isFalse => cases hs
  case h_5 => cases hs

theorem OnSchedule.start (h10 : row.retryCount ≤ 9) : OnSchedule row [] [] [] where
  limit := by simp; omega
  released := by simp
  resumed := by simp
  spaced := by simp
  recorded := by simp
  alternate := ⟨Nat.le_refl _, Nat.zero_le _⟩
  givenUp h := absurd rfl h

theorem standsAt_of_phaseOf (h10 : row.retryCount ≤ 9) {entries : List Entry} {s : Phase}
    (h : phaseOf row id entries = some s) :
    StandsAt row (times .attempt id entries) (times .failure id entries)
      (times .notice id entries) s := by
  induction entries generalizing s with
  | nil =>
    obtain rfl := Option.some.inj h
    exact ⟨.start h10, rfl, rfl, rfl, .inl ⟨rfl, rfl⟩⟩
  | cons e older ih =>
    by_cases he : e.row = id
    · rw [phaseOf, if_pos he] at h
      obtain ⟨s₀, hs₀, hnext⟩ := Option.bind_eq_some_iff.mp h
      subst he
      exact (ih hs₀).next hnext
    · rw [phaseOf, if_neg he] at h
      simpa [times, he] using ih h

end

/-! The statements that other tasks perform: they leave the clocks of the rows alone. -/

structure OutboundRow.SameClock (r r' : OutboundRow) : Prop where
  retries : r'.retryCount = r.retryCount
  last : r'.lastRetryAt = r.lastRetryAt
  release : r'.releaseAt = r.releaseAt

theorem OutboundRow.SameClock.refl (r : OutboundRow) : r.SameClock r := ⟨rfl, rfl, rfl⟩

theorem OutboundRow.SameClock.trans {r₁ r₂ r₃ : OutboundRow} (h : r₁.SameClock r₂)
    (h' : r₂.SameClock r₃) : r₁.SameClock r₃ where
  retries := h'.retries.trans h.retries
  last := h'.last.trans h.last
  release := h'.release.trans h.release

/-- Rows go, stay with their clocks, or come with the next id and no failures. -/
structure ClocksKept (s s' : Store) : Prop where
  next : s.nextOutboundId ≤ s'.nextOutboundId
  row : ∀ id row', s'.outboundQueue.lookup id = some row' →
    (∃ row, s.outboundQueue.lookup id = some row ∧ row.SameClock row') ∨
      id = s.nextOutboundId ∧ id < s'.nextOutboundId ∧ row'.retryCount = 0

theorem clocks_same {s s' : Store} (hq : s'.outboundQueue = s.outboundQueue)
    (hn : s'.nextOutboundId = s.nextOutboundId) : ClocksKept s s' where
  next := by omega
  row _ row' h := .inl ⟨row', hq ▸ h, .refl _⟩

theorem clocks_fewer {s : Store} {p : Nat → OutboundRow → Bool} :
    ClocksKept s { s with outboundQueue := s.outboundQueue.deleteWhere p } where
  next := Nat.le_refl _
  row _ row' h := .inl ⟨row', (Table.lookup_of_lookup_deleteWhere h).1, .refl _⟩

theorem clocks_run (c : StoreCmd) (hc : ∀ id, c ≠ .updateRetryCount id) (now : Nat)
    (order : List Nat) (s : Store) : ClocksKept s (c.run now order s).2 := by
  have same : ∀ {α : Type} {u : UserId} {a : α} {s' : Store},
      s'.outboundQueue = s.outboundQueue → s'.nextOutboundId = s.nextOutboundId →
        ClocksKept s (s.referring u a s').2 := by
    intro α u a s' hq hn
    unfold Store.referring
    split
    · exact clocks_same hq hn
    · exact clocks_same rfl rfl
  cases c with
  | saveJmapState => exact same rfl rfl
  | saveRoomGhostMapping => exact same rfl rfl
  | addToOutboundQueue user room event body html thread files delay =>
    simp only [StoreCmd.run, Store.referring]
    split
    case isFalse => exact clocks_same rfl rfl
    refine ⟨Nat.le_succ _, fun id row' h => ?_⟩
    by_cases hid : id = s.nextOutboundId
    · subst hid
      rw [AList.lookup_insert] at h
      obtain rfl := Option.some.inj h
      exact .inr ⟨rfl, Nat.lt_succ_self _, rfl⟩
    · rw [AList.lookup_insert_ne hid] at h
      exact .inl ⟨row', h, .refl _⟩
  | cancelOutboundByEvent e => exact clocks_fewer
  | updateOutboundBodyByEvent e body =>
    refine ⟨Nat.le_refl _, fun id row' h => ?_⟩
    simp only [StoreCmd.run, Table.lookup_modifyWhere] at h
    obtain ⟨row, hrow, rfl⟩ := Option.map_eq_some_iff.mp h
    refine .inl ⟨row, hrow, ?_⟩
    split
    · exact ⟨rfl, rfl, rfl⟩
    · exact .refl _
  | updateRetryCount i => exact absurd rfl (hc i)
  | removeFromOutboundQueue i =>
    refine ⟨Nat.le_refl _, fun id row' h => ?_⟩
    by_cases hid : id = i
    · subst hid
      simp [StoreCmd.run] at h
    · exact .inl ⟨row', by simpa [StoreCmd.run, AList.lookup_erase_ne hid] using h, .refl _⟩
  | clearOutboundQueue u => exact clocks_fewer
  | tryAcquireRoomCreationLock key =>
    simp only [StoreCmd.run]
    split
    · exact clocks_same rfl rfl
    · exact clocks_same rfl rfl
  | _ => exact clocks_same rfl rfl

theorem clocks_exec {t : Nat} {c : Cmd} {x : Answer} {b : c.Ans} {w w' : World}
    (hc : ∀ id, c ≠ .store (.updateRetryCount id)) (h : exec t (.mk c) x w = some (b, w')) :
    ClocksKept w.store w'.store := by
  rcases exec_run h with hs | ⟨q, order, rfl, -, hs⟩
  · exact clocks_same (by rw [hs]) (by rw [hs])
  · rw [hs]
    exact clocks_run q (fun id hq => hc id (by rw [hq])) _ _ _

/-- The commands of all calls but the worker's. -/
def Cmd.counts : Cmd → Bool
  | store (.updateRetryCount _) => true
  | _ => false

theorem Cmd.not_counts {c : Cmd} (h : c.counts = false) (id : Nat) :
    c ≠ .store (.updateRetryCount id) := by
  rintro rfl
  cases h

theorem not_counts_of_offRows {c : Cmd} (h : c.offRows) : c.counts = false := by
  cases hc : c.counts with
  | false => rfl
  | true =>
    unfold Cmd.counts at hc
    split at hc
    · cases h
    · cases hc

theorem not_counts_of_enqueues {e : QueuedEvent} {c : Cmd} (h : c.enqueues e) :
    c.counts = false := by
  unfold Cmd.enqueues at h
  split at h
  · rfl
  · exact not_counts_of_offRows (Cmd.offQueue.offRows h)

/-! The invariant. -/

namespace Diary

def Working (d : Diary) (id : Nat) : Prop := (d.todo.head?).map (·.id) = some id

def At (d : Diary) (id : Nat) (row : OutboundRow) (s : Phase) : Prop :=
  d.first id = some row ∧ phaseOf row id d.entries = some s

end Diary

/-- What is noted of a row that is queued agrees with what is stored in it. -/
structure Agrees (d : Diary) (id : Nat) (row : OutboundRow) : Prop where
  count : row.retryCount ≤ 9
  noted : ∃ row₀ s, d.At id row₀ s ∧ row₀.releaseAt = row.releaseAt ∧ s.failures = row.retryCount ∧
    (d.Working id ∨ s = .resting row.retryCount row.lastRetryAt)

structure Diligent (p : World × Diary) : Prop where
  known : ∀ id row, p.2.first id = some row → id < p.1.store.nextOutboundId ∧ row.retryCount ≤ 9
  booked : ∀ e ∈ p.2.entries, (p.2.first e.row).isSome
  legal : ∀ id row, p.2.first id = some row → ∃ s, phaseOf row id p.2.entries = some s
  rows : ∀ id row, p.1.store.outboundQueue.lookup id = some row → Agrees p.2 id row

/-- What the worker relies on about the steps of the others. -/
structure Unhurried (p p' : World × Diary) : Prop where
  todo : p'.2.todo = p.2.todo
  entries : p'.2.entries = p.2.entries
  now : p.1.now ≤ p'.1.now
  first : ∀ id row, p.2.first id = some row → p'.2.first id = some row
  rows : ∀ id row', p'.1.store.outboundQueue.lookup id = some row' →
    (∃ row, p.1.store.outboundQueue.lookup id = some row ∧ row.SameClock row') ∨ p.2.first id = none

theorem Unhurried.refl (p : World × Diary) : Unhurried p p :=
  ⟨rfl, rfl, Nat.le_refl _, fun _ _ h => h, fun _ row' h => .inl ⟨row', h, .refl _⟩⟩

theorem Unhurried.trans {a b c : World × Diary} (hab : Unhurried a b) (hbc : Unhurried b c) :
    Unhurried a c where
  todo := hbc.todo.trans hab.todo
  entries := hbc.entries.trans hab.entries
  now := hab.now.trans hbc.now
  first id row h := hbc.first id row (hab.first id row h)
  rows id row'' h := by
    rcases hbc.rows id row'' h with ⟨row', hrow', hs'⟩ | hnone
    · rcases hab.rows id row' hrow' with ⟨row, hrow, hs⟩ | hnone
      · exact .inl ⟨row, hrow, hs.trans hs'⟩
      · exact .inr hnone
    · right
      cases hf : a.2.first id with
      | none => rfl
      | some row =>
        rw [hab.first id row hf] at hnone
        cases hnone

theorem Unhurried.at {p p' : World × Diary} (h : Unhurried p p') {id : Nat} {row : OutboundRow}
    {s : Phase}
    (ha : p.2.At id row s) : p'.2.At id row s :=
  ⟨h.first id row ha.1, by rw [h.entries]; exact ha.2⟩

theorem phaseOf_unbooked {row : OutboundRow} {id : Nat} {entries : List Entry}
    (h : ∀ e ∈ entries, e.row ≠ id) :
    phaseOf row id entries = some (.resting row.retryCount row.lastRetryAt) := by
  induction entries with
  | nil => rfl
  | cons e older ih =>
    rw [phaseOf, if_neg (h e List.mem_cons_self)]
    exact ih fun e' he' => h e' (List.mem_cons_of_mem _ he')

section

variable {w w' : World} {d : Diary} {id : Nat} {row : OutboundRow}

theorem Diligent.unbooked {p : World × Diary} (h : Diligent p) (hn : p.2.first id = none) :
    ∀ e ∈ p.2.entries, e.row ≠ id := by
  rintro e he rfl
  have hsome := h.booked e he
  rw [hn] at hsome
  cases hsome

theorem Diligent.see (h : Diligent (w, d)) (hc : ClocksKept w.store w'.store)
    (hnow : w.now ≤ w'.now) :
    Diligent (w', d.see w'.store.outboundQueue) ∧
      Unhurried (w, d) (w', d.see w'.store.outboundQueue) := by
  have hkeep :
      ∀ id row, d.first id = some row → (d.see w'.store.outboundQueue).first id = some row := by
    intro id row hf
    simp [Diary.see, hf]
  have hnew : ∀ id row, d.first id = none → w'.store.outboundQueue.lookup id = some row →
      id = w.store.nextOutboundId ∧ id < w'.store.nextOutboundId ∧ row.retryCount = 0 := by
    intro id row hf hrow
    rcases hc.row id row hrow with ⟨old, hold, -⟩ | hnew
    · obtain ⟨row₀, s, ha, -⟩ := (h.rows id old hold).noted
      exact absurd (hf.symm.trans ha.1) (Option.some_ne_none row₀).symm
    · exact hnew
  have hfirst : ∀ id row, (d.see w'.store.outboundQueue).first id = some row →
      d.first id = some row ∨ d.first id = none ∧ w'.store.outboundQueue.lookup id = some row := by
    intro id row hf
    cases hd : d.first id with
    | some row₀ => exact .inl (by simpa [Diary.see, hd] using hf)
    | none => exact .inr ⟨rfl, by simpa [Diary.see, hd] using hf⟩
  have hfresh : ∀ id row, d.first id = none →
      phaseOf row id d.entries = some (.resting row.retryCount row.lastRetryAt) :=
    fun id row hf => phaseOf_unbooked (h.unbooked hf)
  refine ⟨⟨fun id row hf => ?_, fun e he => ?_, fun id row hf => ?_, fun id row' hrow' => ?_⟩,
    rfl, rfl, hnow, hkeep, fun id row' hrow' => ?_⟩
  · rcases hfirst id row hf with hold | ⟨hnone, hrow⟩
    · exact ⟨Nat.lt_of_lt_of_le (h.known id row hold).1 hc.next, (h.known id row hold).2⟩
    · obtain ⟨-, hlt, hzero⟩ := hnew id row hnone hrow
      exact ⟨hlt, by omega⟩
  · obtain ⟨row, hrow⟩ := Option.isSome_iff_exists.mp (h.booked e he)
    rw [hkeep e.row row hrow]
    rfl
  · rcases hfirst id row hf with hold | ⟨hnone, hrow⟩
    · exact h.legal id row hold
    · exact ⟨_, hfresh id row hnone⟩
  · cases hf : d.first id with
    | none =>
      obtain ⟨-, -, hzero⟩ := hnew id row' hf hrow'
      have hseen : (d.see w'.store.outboundQueue).first id = some row' := by
        simp [Diary.see, hf, hrow']
      exact ⟨by omega, row', _, ⟨hseen, hfresh id row' hf⟩, rfl, rfl, .inr rfl⟩
    | some row₁ =>
      rcases hc.row id row' hrow' with ⟨row, hrow, hs⟩ | ⟨hid, -, -⟩
      · obtain ⟨hcount, row₀, s, ha, hrelease, hfail, hrest⟩ := h.rows id row hrow
        refine ⟨hs.retries ▸ hcount, row₀, s, ⟨hkeep id row₀ ha.1, ha.2⟩,
          hrelease.trans hs.release.symm, hfail.trans hs.retries.symm, ?_⟩
        rw [hs.retries, hs.last]
        exact hrest
      · have hlt := (h.known id row₁ hf).1
        simp only at hlt
        omega
  · rcases hc.row id row' hrow' with hold | ⟨hid, -, -⟩
    · exact .inl hold
    · right
      cases hf : d.first id with
      | none => rfl
      | some row₁ =>
        have hlt := (h.known id row₁ hf).1
        simp only at hlt
        omega

theorem Diligent.see_eq (h : Diligent (w, d)) {queue : Table Nat OutboundRow}
    (hq : ∀ id row, queue.lookup id = some row → (w.store.outboundQueue.lookup id).isSome) :
    d.see queue = d := by
  have hfirst : (d.see queue).first = d.first := by
    funext id
    cases hrow : queue.lookup id with
    | none => simp [Diary.see, hrow]
    | some row =>
      obtain ⟨old, hold⟩ := Option.isSome_iff_exists.mp (hq id row hrow)
      obtain ⟨row₀, s, ha, -⟩ := (h.rows id old hold).noted
      simp [Diary.see, show d.first id = some row₀ from ha.1]
  calc d.see queue = { d with first := (d.see queue).first } := rfl
    _ = d := by rw [hfirst]

theorem phaseOf_enter_ne {entries : List Entry} {e : Entry} (h : e.row ≠ id) :
    phaseOf row id (e :: entries) = phaseOf row id entries := by
  rw [phaseOf, if_neg h]

theorem Diary.At.enter {s s' : Phase} {deed : Deed} {now : Nat} (h : d.At id row s)
    (hs : s.next row.releaseAt deed now = some s') : (d.enter id deed now).At id row s' := by
  refine ⟨h.1, ?_⟩
  simp only [Diary.enter, phaseOf, if_true]
  rw [h.2]
  exact hs

theorem Diary.At.enter_ne {s : Phase} {deed : Deed} {i now : Nat} (h : d.At id row s)
    (hi : i ≠ id) :
    (d.enter i deed now).At id row s :=
  ⟨h.1, (phaseOf_enter_ne hi).trans h.2⟩

theorem Diligent.enter (h : Diligent (w, d)) {s s' : Phase} {deed : Deed} {now : Nat}
    (ha : d.At id row s) (hs : s.next row.releaseAt deed now = some s')
    (hnext : w.store.nextOutboundId ≤ w'.store.nextOutboundId)
    (hothers : ∀ i row', i ≠ id → w'.store.outboundQueue.lookup i = some row' →
      w.store.outboundQueue.lookup i = some row')
    (hself : ∀ row', w'.store.outboundQueue.lookup id = some row' → row'.retryCount ≤ 9 ∧
      row.releaseAt = row'.releaseAt ∧ s'.failures = row'.retryCount ∧
        (d.Working id ∨ s' = .resting row'.retryCount row'.lastRetryAt)) :
    Diligent (w', d.enter id deed now) := by
  refine ⟨fun i row₁ hf => ?_, fun e he => ?_, fun i row₁ hf => ?_, fun i row' hrow' => ?_⟩
  · exact ⟨Nat.lt_of_lt_of_le (h.known i row₁ hf).1 hnext, (h.known i row₁ hf).2⟩
  · rcases List.mem_cons.mp he with rfl | he
    · show (d.first id).isSome
      rw [ha.1]
      rfl
    · exact h.booked e he
  · by_cases hi : id = i
    · subst hi
      obtain rfl : row₁ = row := Option.some.inj (hf.symm.trans ha.1)
      exact ⟨s', (ha.enter hs).2⟩
    · obtain ⟨s₁, hs₁⟩ := h.legal i row₁ hf
      exact ⟨s₁, (phaseOf_enter_ne hi).trans hs₁⟩
  · by_cases hi : id = i
    · subst hi
      obtain ⟨hcount, hrelease, hfail, hrest⟩ := hself row' hrow'
      exact ⟨hcount, row, s', ha.enter hs, hrelease, hfail, hrest⟩
    · obtain ⟨hcount, row₀, s₀, ha₀, hrelease, hfail, hrest⟩ :=
        h.rows i row' (hothers i row' (Ne.symm hi) hrow')
      exact ⟨hcount, row₀, s₀, ha₀.enter_ne hi, hrelease, hfail, hrest⟩

end

/-! The worker. -/

/-- The message may be attempted: its row rests, is released and has waited long enough. -/
def Attemptable (m : OutboundMessage) (p : World × Diary) : Prop :=
  ∃ row since, p.2.At m.id row (.resting m.retryCount since) ∧ m.retryCount ≤ 9 ∧
    row.releaseAt ≤ p.1.now ∧
    (m.retryCount ≠ 0 → since + 60 * 2 ^ (m.retryCount - 1) < p.1.now)

inductive Turn where
  | attempting
  | noticing
  | settled

def Turn.Holds (m : OutboundMessage) (p : World × Diary) : Turn → Prop
  | attempting => ∃ row since, p.2.At m.id row (.trying m.retryCount since) ∧ since ≤ p.1.now ∧
      m.retryCount ≤ 9
  | noticing =>
    ∃ row since, (p.2.At m.id row (.trying 9 since) ∨ p.2.At m.id row (.givingUp since)) ∧
      since ≤ p.1.now
  | settled => ∃ row₀, p.2.first m.id = some row₀ ∧
      ∀ row, p.1.store.outboundQueue.lookup m.id = some row →
        p.2.At m.id row₀ (.resting row.retryCount row.lastRetryAt)

/-- The worker with the messages left of a round. -/
def Before (l : List OutboundMessage) (p : World × Diary) : Prop :=
  p.2.todo = l ∧ (l.map (·.id)).Nodup ∧ ∀ m ∈ l, Attemptable m p

/-- The worker at the first of them. -/
def During (turn : Turn) (m : OutboundMessage) (rest : List OutboundMessage) (p : World × Diary) :
    Prop :=
  p.2.todo = m :: rest ∧ ((m :: rest).map (·.id)).Nodup ∧ (∀ n ∈ rest, Attemptable n p) ∧
  turn.Holds m p

def retryContract (worker : Nat) : Contract (World × Diary) where
  inv := Diligent
  rely t p p' := t = worker → Unhurried p p'
  idle t p := t = worker → p.2.todo = []
  idle_stable h hr ht := (hr ht).todo.trans (h ht)
  refl _ p _ := .refl p
  trans hab hbc ht := (hab ht).trans (hbc ht)

/-- The store serves the worker, which is never cancelled. -/
def servesWorker (worker : Nat) : Discipline Op World Answer Env where
  step t _ o a _ := t = worker → o.cmd.carriedOut a
  cancel t _ := t ≠ worker

section

variable {cfg : Config} {calls : Nat → Call} {worker t : Nat} {m : OutboundMessage}
  {rest : List OutboundMessage} {p p' : World × Diary} {α β : Type}

theorem Attemptable.calm (h : Attemptable m p) (hr : Unhurried p p') : Attemptable m p' := by
  obtain ⟨row, since, ha, hcount, hrelease, hwait⟩ := h
  exact ⟨row, since, hr.at ha, hcount, hrelease.trans hr.now,
    fun hne => Nat.lt_of_lt_of_le (hwait hne) hr.now⟩

theorem Turn.Holds.calm {turn : Turn} (h : turn.Holds m p) (hr : Unhurried p p') :
    turn.Holds m p' := by
  cases turn with
  | attempting =>
    obtain ⟨row, since, ha, hsince, hcount⟩ := h
    exact ⟨row, since, hr.at ha, hsince.trans hr.now, hcount⟩
  | noticing =>
    obtain ⟨row, since, ha, hsince⟩ := h
    exact ⟨row, since, ha.imp hr.at hr.at, hsince.trans hr.now⟩
  | settled =>
    obtain ⟨row₀, hf, hrest⟩ := h
    refine ⟨row₀, hr.first _ _ hf, fun row' hrow' => ?_⟩
    rcases hr.rows _ row' hrow' with ⟨row, hrow, hs⟩ | hnone
    · rw [hs.retries, hs.last]
      exact hr.at (hrest row hrow)
    · exact absurd (hnone.symm.trans hf) (Option.some_ne_none row₀).symm

theorem Before.calm {l : List OutboundMessage} (h : Before l p) (hr : Unhurried p p') :
    Before l p' :=
  ⟨hr.todo.trans h.1, h.2.1, fun n hn => (h.2.2 n hn).calm hr⟩

theorem During.calm {turn : Turn} (h : During turn m rest p) (hr : Unhurried p p') :
    During turn m rest p' :=
  ⟨hr.todo.trans h.1, h.2.1, fun n hn => (h.2.2.1 n hn).calm hr, h.2.2.2.calm hr⟩

theorem Before.stable {l : List OutboundMessage} :
    Stable (retryContract worker) worker (Before l) :=
  fun _ _ h hr _ => h.calm (hr rfl)

theorem During.stable {turn : Turn} :
    Stable (retryContract worker) worker (During turn m rest) := fun _ _ h hr _ => h.calm (hr rfl)

theorem diary_exec {c : Cmd} {x : Answer} {b : c.Ans}
    (h : ((bridge cfg calls).watched (retryDiary worker)).exec t (.mk c) x p = some (b, p')) :
    ∃ w', exec t (.mk c) x p.1 = some (b, w') ∧
      p' = (w', (if t = worker then p.2.note p.1.now c b else p.2).see w'.store.outboundQueue) := by
  obtain ⟨⟨b₁, w'⟩, he, hr⟩ := Option.map_eq_some_iff.mp h
  obtain ⟨rfl, rfl⟩ := Prod.mk.inj hr
  exact ⟨w', he, rfl⟩

abbrev RetryStep (cfg : Config) (calls : Nat → Call) (worker t : Nat) (P : World × Diary → Prop)
    (c : Cmd) (R : c.Ans → World × Diary → Prop) : Prop :=
  Step ((bridge cfg calls).watched (retryDiary worker)) ((servesWorker worker).watched Diary)
    (retryContract worker) t P (.mk c) R

abbrev RetryTriple (cfg : Config) (calls : Nat → Call) (worker t : Nat) (P : World × Diary → Prop)
    (x : Prog Op α) (Q : α → World × Diary → Prop) : Prop :=
  Triple ((bridge cfg calls).watched (retryDiary worker)) ((servesWorker worker).watched Diary)
    (retryContract worker) t P x Q

/-- The commands of which nothing is noted. -/
def Cmd.unnoted : Cmd → Bool
  | jmap _ (.submitBatch _) => true
  | task (.log (.sending _)) => true
  | store (.removeFromOutboundQueue _) => true
  | task (.sleep _) => true
  | c => c.aside

theorem Diary.note_unnoted {c : Cmd} (hc : c.unnoted) (now : Nat) (b : c.Ans) (d : Diary) :
    d.note now c b = d := by
  unfold Diary.note
  split
  · cases hc
  · cases hc
  · cases hc
  · split
    case h_1 body id ho =>
      simp [Cmd.unnoted, Cmd.aside, ho] at hc
    case h_2 => rfl
  · cases hc
  · rfl

theorem not_counts_of_unnoted {c : Cmd} (hc : c.unnoted) : c.counts = false := by
  cases h : c.counts with
  | false => rfl
  | true =>
    unfold Cmd.counts at h
    split at h
    · cases hc
    · cases h

/-- What leaves the clocks alone and is not noted, be it the worker's or another task's. -/
theorem calm_exec {c : Cmd} {x : Answer} {b : c.Ans} (hi : Diligent p) (hc : c.counts = false)
    (hnote : t = worker → c.unnoted)
    (h : ((bridge cfg calls).watched (retryDiary worker)).exec t (.mk c) x p = some (b, p')) :
    Diligent p' ∧ Unhurried p p' := by
  obtain ⟨w', he, rfl⟩ := diary_exec h
  have hd : (if t = worker then p.2.note p.1.now c b else p.2) = p.2 := by
    split
    case isTrue ht => exact Diary.note_unnoted (hnote ht) _ b _
    case isFalse => rfl
  rw [hd]
  exact Diligent.see hi (clocks_exec (Cmd.not_counts hc) he) (Nat.le_of_eq (now_exec he).symm)

theorem unnoted_step {c : Cmd} (hc : c.unnoted) {P : World × Diary → Prop}
    {R : c.Ans → World × Diary → Prop} (hP : ∀ p p', P p → Unhurried p p' → P p')
    (hR : ∀ p x b w' p', P p → P p' → p'.1 = w' → exec worker (.mk c) x p.1 = some (b, w') →
      c.carriedOut x → R b p') : RetryStep cfg calls worker worker P c R := by
  intro p x b p' hi hp hD he
  obtain ⟨hi', hcalm⟩ := calm_exec hi (not_counts_of_unnoted hc) (fun _ => hc) he
  obtain ⟨w', hexec, rfl⟩ := diary_exec he
  exact ⟨hi', fun i hit ht => absurd ht hit, hR p x b w' _ hp (hP p _ hp hcalm) rfl hexec (hD rfl)⟩

theorem unnoted_keeps {P : World × Diary → Prop} (hP : ∀ p p', P p → Unhurried p p' → P p')
    {o : Op β}
    (hc : o.cmd.unnoted) :
    Keeps ((bridge cfg calls).watched (retryDiary worker)) ((servesWorker worker).watched Diary)
      (retryContract worker) worker P β o := by
  obtain ⟨c⟩ := o
  intro p x b p' hp hi hD he
  have hstep : RetryStep cfg calls worker worker P c fun _ => P :=
    unnoted_step hc hP fun _ _ _ _ _ _ h _ _ _ => h
  exact hstep p x b p' hi hp hD he

/-! What the worker's own commands do. -/

theorem Diary.At.unique {d : Diary} {id : Nat} {row row' : OutboundRow} {s s' : Phase}
    (h : d.At id row s) (h' : d.At id row' s') : row' = row ∧ s' = s := by
  obtain rfl : row' = row := Option.some.inj (h'.1.symm.trans h.1)
  exact ⟨rfl, Option.some.inj (h'.2.symm.trans h.2)⟩

theorem Diligent.see_self {w : World} {d : Diary} (h : Diligent (w, d)) :
    d.see w.store.outboundQueue = d := h.see_eq fun _ _ hrow => by rw [hrow]; rfl

theorem Diligent.enter_here {w w' : World} {d : Diary} {id : Nat} {row : OutboundRow}
    {s s' : Phase} {deed : Deed} {now : Nat} (h : Diligent (w, d)) (hw : d.Working id)
    (ha : d.At id row s) (hs : s.next row.releaseAt deed now = some s')
    (hfail : s'.failures = s.failures) (hstore : w'.store = w.store) :
    Diligent (w', d.enter id deed now) := by
  refine h.enter ha hs (by rw [hstore]) (fun i row' _ hrow' => hstore ▸ hrow') fun row' hrow' => ?_
  obtain ⟨hcount, row₀, s₀, ha₀, hrelease, hfail₀, -⟩ := h.rows id row' (hstore ▸ hrow')
  obtain ⟨rfl, rfl⟩ := ha.unique ha₀
  exact ⟨hcount, hrelease, hfail.trans hfail₀, .inl hw⟩

theorem Diligent.turnTo {w w' : World} {d : Diary} {l : List OutboundMessage} (h : Diligent (w, d))
    (hstore : w'.store = w.store)
    (hrest : ∀ id row, d.Working id → w.store.outboundQueue.lookup id = some row →
      ∃ row₀, d.At id row₀ (.resting row.retryCount row.lastRetryAt)) :
    Diligent (w', { d with todo := l }) := by
  refine ⟨fun id row hf => ?_, h.booked, h.legal, fun id row hrow => ?_⟩
  · show id < w'.store.nextOutboundId ∧ row.retryCount ≤ 9
    rw [hstore]
    exact h.known id row hf
  · have hold : w.store.outboundQueue.lookup id = some row := hstore ▸ hrow
    obtain ⟨hcount, row₀, s, ha, hrelease, hfail, hstand⟩ := h.rows id row hold
    refine ⟨hcount, row₀, s, ha, hrelease, hfail, .inr ?_⟩
    rcases hstand with hw | hs
    · obtain ⟨row₁, ha₁⟩ := hrest id row hw hold
      exact (ha₁.unique ha).2
    · exact hs

theorem backoff_eq : ∀ k < 10, k ≠ 0 → backoffMinutes k = 2 ^ (k - 1) := by decide

theorem due_of_mem {s : Store} {now : Nat} {order : List Nat} {n : OutboundMessage}
    (h : n ∈ s.pendingChoice now order) :
    ∃ row, s.outboundQueue.lookup n.id = some row ∧ n = row.message n.id ∧ row.pending now := by
  have hrow : ∀ n ∈ s.pendingRows now,
      ∃ row, s.outboundQueue.lookup n.id = some row ∧ n = row.message n.id ∧ row.pending now := by
    intro n hn
    obtain ⟨⟨id, row⟩, hr, rfl⟩ := List.mem_map.mp hn
    obtain ⟨hmem, hpending⟩ := List.mem_filter.mp hr
    exact ⟨row, AList.mem_lookup_iff.mpr hmem, rfl, hpending⟩
  simp only [Store.pendingChoice] at h
  split at h
  · obtain ⟨id, -, hm⟩ := List.mem_filterMap.mp h
    exact hrow n (List.mem_of_find?_eq_some hm)
  · exact hrow n (List.mem_of_mem_take h)

theorem ready_of_due {w : World} {d : Diary} {n : OutboundMessage} {row : OutboundRow}
    (h : Diligent (w, d)) (hidle : d.todo = [])
    (hrow : w.store.outboundQueue.lookup n.id = some row)
    (hn : n = row.message n.id) (hdue : row.pending w.now) : Attemptable n (w, d) := by
  obtain ⟨hcount, row₀, s, ha, hrelease, -, hstand⟩ := h.rows n.id row hrow
  have hretries : n.retryCount = row.retryCount := by rw [hn]; rfl
  have hs : s = .resting row.retryCount row.lastRetryAt := by
    rcases hstand with hw | hs
    · have hw' : (d.todo.head?).map (·.id) = some n.id := hw
      rw [hidle] at hw'
      cases hw'
    · exact hs
  simp only [OutboundRow.pending, Bool.and_eq_true, Bool.or_eq_true, decide_eq_true_eq,
    beq_iff_eq] at hdue
  refine ⟨row₀, row.lastRetryAt, ?_, ?_, ?_, fun hne => ?_⟩
  · rw [hretries, ← hs]
    exact ha
  · rw [hretries]
    exact hcount
  · rw [hrelease]
    exact hdue.1.2
  · rw [hretries] at hne ⊢
    rw [← backoff_eq row.retryCount hdue.1.1 hne]
    exact hdue.2.resolve_left hne

theorem noted_step {c : Cmd} {P : World × Diary → Prop} {R : c.Ans → World × Diary → Prop}
    (h : ∀ p x b w', Diligent p → P p → c.carriedOut x → exec worker (.mk c) x p.1 = some (b, w') →
      Diligent (w', p.2.note p.1.now c b) ∧ R b (w', p.2.note p.1.now c b)) :
    RetryStep cfg calls worker worker P c R := by
  intro p x b p' hi hp hD he
  obtain ⟨w', hexec, rfl⟩ := diary_exec he
  obtain ⟨hi', hR⟩ := h p x b w' hi hp (hD rfl) hexec
  rw [if_pos rfl, hi'.see_self]
  exact ⟨hi', fun i hit ht => absurd ht hit, hR⟩

theorem fetch_ready : RetryStep cfg calls worker worker (Before []) (.store .getPendingOutbound)
    (post Before fun _ => Before []) := by
  refine noted_step fun p x b w' hi hp hx hexec => ?_
  rcases exec_store hexec with ⟨order, -, rfl, rfl⟩ | ⟨rfl, -⟩ | ⟨⟨s, rfl⟩, -⟩
  · have hidle : ∀ id, ¬p.2.Working id := by
      intro id hw
      have hhead : (p.2.todo.head?).map (·.id) = some id := hw
      rw [hp.1] at hhead
      cases hhead
    refine ⟨Diligent.turnTo hi rfl fun id row hw _ => absurd hw (hidle id),
      rfl, pendingChoice_nodup _ _ _, fun n hn => ?_⟩
    obtain ⟨row, hrow, hmessage, hdue⟩ := due_of_mem hn
    obtain ⟨row₀, since, ha, hr⟩ : Attemptable n p := ready_of_due hi hp.1 hrow hmessage hdue
    exact ⟨row₀, since, ha, hr⟩
  · cases hx
  · cases hx

theorem head_ne {n : OutboundMessage} (h : ((m :: rest).map (·.id)).Nodup) (hn : n ∈ rest) :
    m.id ≠ n.id := by
  intro heq
  refine (List.nodup_cons.mp h).1 ?_
  show m.id ∈ rest.map (·.id)
  rw [heq]
  exact List.mem_map_of_mem hn

theorem Attemptable.enter_ne {n : OutboundMessage} {w w' : World} {d : Diary} {deed : Deed}
    {i now : Nat}
    (h : Attemptable n (w, d)) (hi : i ≠ n.id) (hnow : w.now ≤ w'.now) :
    Attemptable n (w', d.enter i deed now) := by
  obtain ⟨row, since, ha, hcount, hrelease, hwait⟩ := h
  exact ⟨row, since, ha.enter_ne hi, hcount, hrelease.trans hnow,
    fun hne => Nat.lt_of_lt_of_le (hwait hne) hnow⟩

theorem attempt_logged {u : UserId} :
    RetryStep cfg calls worker worker (Before (m :: rest)) (.task (.getClient u))
      fun _ => During .attempting m rest := by
  refine noted_step fun p x b w' hi hp _ hexec => ?_
  obtain ⟨-, -, rfl⟩ := exec_task hexec
  obtain ⟨htodo, hnodup, hready⟩ := hp
  obtain ⟨row, since, ha, hcount, hrelease, hwait⟩ := hready m List.mem_cons_self
  have hnote : p.2.note p.1.now (.task (.getClient u)) b = p.2.enter m.id .attempt p.1.now := by
    simp only [Diary.note, htodo]
  have hnext : (Phase.resting m.retryCount since).next row.releaseAt .attempt p.1.now =
      some (.trying m.retryCount p.1.now) := if_pos ⟨hcount, hrelease, hwait⟩
  have hw : p.2.Working m.id := by
    show (p.2.todo.head?).map (·.id) = some m.id
    rw [htodo]
    rfl
  rw [hnote]
  refine ⟨Diligent.enter_here hi hw ha hnext rfl rfl, htodo, hnodup, fun n hn => ?_,
    row, p.1.now, ha.enter hnext, Nat.le_refl _, hcount⟩
  exact Attemptable.enter_ne (hready n (List.mem_cons_of_mem _ hn)) (head_ne hnodup hn)
    (Nat.le_refl _)

theorem During.notice (h : During .attempting m rest p) (h9 : 9 ≤ m.retryCount) :
    During .noticing m rest p := by
  obtain ⟨htodo, hnodup, hready, row, since, ha, hsince, hcount⟩ := h
  have heq : m.retryCount = 9 := Nat.le_antisymm hcount h9
  exact ⟨htodo, hnodup, hready, row, since, .inl (heq ▸ ha), hsince⟩

theorem During.working {turn : Turn} (h : During turn m rest p) : p.2.Working m.id := by
  show (p.2.todo.head?).map (·.id) = some m.id
  rw [h.1]
  rfl

theorem notice_logged : RetryStep cfg calls worker worker (During .noticing m rest)
    (.matrix (failureNotice cfg m)) fun _ => During .noticing m rest := by
  refine noted_step fun p x b w' hi hp _ hexec => ?_
  have hstore : w'.store = p.1.store := by
    obtain ⟨⟨issued, rfl⟩, -⟩ := exec_matrix hexec
    rfl
  have hnow : w'.now = p.1.now := now_exec hexec
  have hw := hp.working
  obtain ⟨htodo, hnodup, hready, row, since, ha, hsince⟩ := hp
  have hothers : ∀ n ∈ rest, Attemptable n (w', p.2.enter m.id .notice p.1.now) := fun n hn =>
    Attemptable.enter_ne (hready n hn) (head_ne hnodup hn) (Nat.le_of_eq hnow.symm)
  rcases ha with ha | ha
  · have hnext : (Phase.trying 9 since).next row.releaseAt .notice p.1.now =
        some (.givingUp p.1.now) := if_pos ⟨rfl, hsince⟩
    exact ⟨Diligent.enter_here hi hw ha hnext rfl hstore, htodo, hnodup, hothers, row, p.1.now,
      .inr (ha.enter hnext), Nat.le_of_eq hnow.symm⟩
  · have hnext : (Phase.givingUp since).next row.releaseAt .notice p.1.now =
        some (.givingUp p.1.now) := if_pos hsince
    exact ⟨Diligent.enter_here hi hw ha hnext rfl hstore, htodo, hnodup, hothers, row, p.1.now,
      .inr (ha.enter hnext), Nat.le_of_eq hnow.symm⟩

theorem failure_logged (h9 : m.retryCount < 9) :
    RetryStep cfg calls worker worker (During .attempting m rest) (.store (.updateRetryCount m.id))
      fun _ => During .settled m rest := by
  refine noted_step fun p x b w' hi hp hx hexec => ?_
  have hw := hp.working
  obtain ⟨htodo, hnodup, hready, row, since, ha, hsince, hcount⟩ := hp
  obtain ⟨order, -, hstore, -, hnow⟩ := exec_carriedOut hx hexec
  have hqueue : w'.store.outboundQueue = p.1.store.outboundQueue.modify m.id fun r =>
      { r with retryCount := r.retryCount + 1, lastRetryAt := p.1.now } := by
    rw [hstore]
    rfl
  have hids : p.1.store.nextOutboundId ≤ w'.store.nextOutboundId := by
    rw [hstore]
    exact Nat.le_refl _
  have hnext : (Phase.trying m.retryCount since).next row.releaseAt .failure p.1.now =
      some (.resting (m.retryCount + 1) p.1.now) := if_pos ⟨h9, hsince⟩
  have hself : ∀ row', w'.store.outboundQueue.lookup m.id = some row' →
      row'.retryCount = m.retryCount + 1 ∧ row'.lastRetryAt = p.1.now ∧
        row'.releaseAt = row.releaseAt := by
    intro row' hrow'
    rw [hqueue, Table.lookup_modify_self] at hrow'
    obtain ⟨old, hold, rfl⟩ := Option.map_eq_some_iff.mp hrow'
    obtain ⟨-, row₀, s, ha₀, hrelease, hfail, -⟩ := hi.rows m.id old hold
    obtain ⟨rfl, rfl⟩ := ha.unique ha₀
    have hretries : old.retryCount = m.retryCount := hfail.symm
    exact ⟨by rw [hretries], rfl, hrelease.symm⟩
  have hothers : ∀ i row', i ≠ m.id → w'.store.outboundQueue.lookup i = some row' →
      p.1.store.outboundQueue.lookup i = some row' := by
    intro i row' hi' hrow'
    rwa [hqueue, Table.lookup_modify_ne hi'] at hrow'
  refine ⟨Diligent.enter hi ha hnext hids hothers fun row' hrow' => ?_, htodo, hnodup,
    fun n hn => ?_, row, ha.1, fun row' hrow' => ?_⟩
  · obtain ⟨hretries, hlast, hrelease⟩ := hself row' hrow'
    exact ⟨by omega, hrelease.symm, hretries.symm, .inl hw⟩
  · exact Attemptable.enter_ne (hready n hn) (head_ne hnodup hn) (Nat.le_of_eq hnow.symm)
  · obtain ⟨hretries, hlast, -⟩ := hself row' hrow'
    rw [hretries, hlast]
    exact ha.enter hnext

theorem drop_turns : RetryStep cfg calls worker worker (During .settled m rest)
    (.task (.dropMessage m)) fun _ => Before rest := by
  refine noted_step fun p x b w' hi hp _ hexec => ?_
  obtain ⟨-, -, rfl⟩ := exec_task hexec
  obtain ⟨htodo, hnodup, hready, row₀, hfirst, hrest⟩ := hp
  refine ⟨Diligent.turnTo hi rfl fun id row hw hrow => ?_, ?_,
    (List.nodup_cons.mp hnodup).2, hready⟩
  · have hhead : (p.2.todo.head?).map (·.id) = some id := hw
    rw [htodo] at hhead
    obtain rfl : m.id = id := Option.some.inj hhead
    exact ⟨row₀, hrest row hrow⟩
  · show p.2.todo.tail = rest
    rw [htodo]
    rfl

theorem Turn.Holds.first {turn : Turn} (h : turn.Holds m p) :
    ∃ row₀, p.2.first m.id = some row₀ := by
  cases turn with
  | attempting =>
    obtain ⟨row, since, ha, -⟩ := h
    exact ⟨row, ha.1⟩
  | noticing =>
    obtain ⟨row, since, ha, -⟩ := h
    rcases ha with ha | ha
    · exact ⟨row, ha.1⟩
    · exact ⟨row, ha.1⟩
  | settled =>
    obtain ⟨row₀, hf, -⟩ := h
    exact ⟨row₀, hf⟩

theorem remove_settles {turn : Turn} : RetryStep cfg calls worker worker (During turn m rest)
    (.store (.removeFromOutboundQueue m.id)) fun _ => During .settled m rest := by
  refine unnoted_step rfl (fun _ _ h hr => h.calm hr) fun p x b w' p' _ hp' hw' hexec hx => ?_
  obtain ⟨htodo, hnodup, hready, hholds⟩ := hp'
  obtain ⟨row₀, hf⟩ := hholds.first
  refine ⟨htodo, hnodup, hready, row₀, hf, fun row hrow => ?_⟩
  obtain ⟨order, -, hstore, -, -⟩ := exec_carriedOut hx hexec
  rw [hw', hstore] at hrow
  simp [StoreCmd.run] at hrow

/-! A round. -/

abbrev Unnoted (x : Prog Op α) : Prop := Does (fun c => c.unnoted) x

theorem unnoted_of_aside {c : Cmd} (h : c.aside) : c.unnoted := by
  unfold Cmd.unnoted
  split
  · rfl
  · rfl
  · rfl
  · rfl
  · exact h

theorem Aside.unnoted {x : Prog Op α} (h : Aside x) : Unnoted x := h.mono fun _ => unnoted_of_aside

theorem During.triple {turn : Turn} {x : Prog Op α} (hx : Unnoted x) :
    RetryTriple cfg calls worker worker (During turn m rest) x fun _ => During turn m rest :=
  .only During.stable
    (Prog.Only.mono (fun _ _ h => unnoted_keeps (fun _ _ hp hr => hp.calm hr) h) hx)

theorem submit_unnoted {account : Account} {b : EmailBuilder} :
    Unnoted (JmapBridge.submit account b) := by
  refine .andThen outgoingMailbox_remark.aside.unnoted fun mailboxId => ?_
  refine .andThen (.lift primaryIdentity_remark.aside.unnoted) fun identity => ?_
  refine .andThen (.jmap rfl) fun reply => .andThen ?_ fun created => ?_
  · exact .ofOption
  · split
    · exact .ok
    · exact .fail

theorem sendQueued_unnoted {account : Account} {email : String} {msg : OutboundMessage} :
    Unnoted (sendQueued cfg account email msg) := by
  unfold sendQueued
  split
  · refine .andThen (.attempt (.store rfl)) fun stored => .andThen (.lift (.task rfl)) fun _ => ?_
    refine .andThen ?_ fun _ => .ok
    refine .andThen (.lift replyHeaders_remark.aside.unnoted) fun headers => ?_
    exact .andThen (.lift quotedBody_remark.aside.unnoted) fun body => submit_unnoted
  · refine .andThen (.attempt (.matrix rfl)) fun roomName =>
      .andThen (.lift (.task rfl)) fun _ => ?_
    exact .andThen submit_unnoted fun emailId => mapComposedThread_aside.unnoted

theorem remove_triple {turn : Turn} :
    RetryTriple cfg calls worker worker (During turn m rest)
      (onStore (.removeFromOutboundQueue m.id)) fun _ => During .settled m rest :=
  .call During.stable remove_settles fun _ => During.stable

theorem attempt_triple : RetryTriple cfg calls worker worker (Before (m :: rest)) (submitOne cfg m)
    fun resolved => During (if resolved then .settled else .attempting) m rest := by
  refine .bind (.call Before.stable attempt_logged fun _ => During.stable) fun client => ?_
  cases client with
  | none => exact .pure During.stable fun _ _ h => h
  | some account =>
    refine .bind (During.triple (.store rfl)) fun ghost => ?_
    match ghost with
    | .ok (some email) =>
      refine .bind (During.triple sendQueued_unnoted) fun sent => ?_
      cases sent with
      | ok _ =>
        exact .bind remove_triple fun _ =>
          .bind (During.triple markSubmitted_talk.aside.unnoted) fun _ =>
          .pure During.stable fun _ _ h => h
      | error _ => exact .pure During.stable fun _ _ h => h
    | .ok none => exact .bind remove_triple fun _ => .pure During.stable fun _ _ h => h
    | .error _ => exact .pure During.stable fun _ _ h => h

theorem giveUp_scheduled : RetryTriple cfg calls worker worker (During .noticing m rest)
    (giveUp cfg m) fun _ => During .settled m rest := by
  have hkeep : ∀ (β : Type) (o : Op β), o.cmd = .matrix (failureNotice cfg m) ∨ o.cmd.unnoted →
      Keeps ((bridge cfg calls).watched (retryDiary worker)) ((servesWorker worker).watched Diary)
        (retryContract worker) worker (During .noticing m rest) β o := by
    rintro β ⟨c⟩ hc
    rcases hc with rfl | hc
    · exact fun p x b p' hp hi hD he => notice_logged p x b p' hi hp hD he
    · exact unnoted_keeps (fun _ _ hp hr => hp.calm hr) hc
  have hnotice : Does (fun c => c = .matrix (failureNotice cfg m) ∨ c.unnoted)
      (sendMessage cfg m.roomId deliveryFailure (.queued m.id)) :=
    sendAsGhostJoining_does (.inl rfl) (.inr rfl) (.inr rfl)
  refine .bind (.only During.stable (Prog.Only.mono hkeep hnotice)) fun _ => ?_
  exact .bind remove_triple fun _ => During.triple markFailed_talk.aside.unnoted

theorem unresolved_scheduled : RetryTriple cfg calls worker worker (During .attempting m rest)
    (handleUnresolved cfg m) fun _ => During .settled m rest := by
  rw [handleUnresolved]
  split
  case isTrue h9 => exact .pre giveUp_scheduled fun _ _ h => h.notice h9
  case isFalse h9 =>
    refine .bind (.call During.stable (failure_logged (Nat.lt_of_not_le h9)) fun _ => During.stable)
      fun _ => ?_
    exact .pure During.stable fun _ _ h => h

theorem workOff_scheduled : RetryTriple cfg calls worker worker (Before (m :: rest)) (workOff cfg m)
    fun _ => Before rest := by
  refine .bind attempt_triple fun resolved => ?_
  refine .bind (R := fun _ => During .settled m rest) ?_ fun _ =>
    .call During.stable drop_turns fun _ => Before.stable
  cases resolved with
  | true => exact .pure During.stable fun _ _ h => h
  | false => exact unresolved_scheduled

theorem runRetryLoop_scheduled : RetryTriple cfg calls worker worker (Before [])
    (runRetryLoop cfg) fun _ => Before [] := by
  have hround :
      RetryTriple cfg calls worker worker (Before []) (retryRound cfg) fun _ => Before [] := by
    have hsleep : RetryTriple cfg calls worker worker (Before []) (onTask (.sleep 2000))
        fun _ => Before [] :=
      .call Before.stable
        (unnoted_step rfl (fun _ _ h hr => h.calm hr) fun _ _ _ _ _ _ h _ _ _ => h)
        fun _ => Before.stable
    have hfetched : ∀ r : Except Err (List OutboundMessage),
        Stable (retryContract worker) worker (post Before (fun _ => Before []) r) := by
      intro r
      cases r with
      | ok l => exact Before.stable
      | error _ => exact Before.stable
    refine .bind hsleep fun _ => .bind (.call Before.stable fetch_ready hfetched) fun r => ?_
    cases r with
    | error _ => exact .pure Before.stable fun _ _ h => h
    | ok messages => exact .forEachLeft Before.stable (fun msg rest => workOff_scheduled) messages
  refine .loop (J := fun _ => Before []) (R := fun _ => Before []) (fun _ => ?_) fun _ =>
    .pure Before.stable fun _ _ h => h
  exact .bind hround fun _ => .pure Before.stable fun _ _ h => h

/-! The other calls. -/

abbrev NotCounting (x : Prog Op α) : Prop := Does (fun c => c.counts = false) x

theorem OffRows.notCounting {x : Prog Op α} (h : OffRows x) : NotCounting x :=
  h.mono fun _ => not_counts_of_offRows

theorem OffQueue.notCounting {x : Prog Op α} (h : OffQueue x) : NotCounting x :=
  h.mono fun _ hc => not_counts_of_offRows (Cmd.offQueue.offRows hc)

theorem handleMessageLike_notCounting {ev : MatrixEvent} :
    NotCounting (handleMessageLike cfg ev) := by
  have hredaction : ∀ room redacted, NotCounting (handleRedaction cfg room redacted) := by
    intro room redacted
    refine .bind (.result (.store rfl)) fun r => ?_
    split
    · exact notify_remark.offQueue.notCounting
    · exact .pure
  have hedit : ∀ room target newBody, NotCounting (handleEdit cfg room target newBody) := by
    intro room target newBody
    refine .bind (.result (.store rfl)) fun r => ?_
    split
    · exact notify_remark.offQueue.notCounting
    · exact .pure
  unfold handleMessageLike
  split
  · exact .ok
  · split
    · exact .lift handleReaction_remark.offQueue.notCounting
    · exact .ok
    · exact .lift (hredaction _ _)
    · exact .lift (hedit _ _ _)
    · exact handleMessage_enqueues.mono fun _ => not_counts_of_enqueues
    · exact .ok

theorem handleTransactions_notCounting {txnId : TransactionId} {txn : MatrixTransaction} :
    NotCounting (handleTransactions cfg txnId txn) := by
  have hevent : ∀ ev, NotCounting (handleEvent cfg ev) := by
    intro ev
    unfold handleEvent
    split
    · exact .bestEffort handleRoomMember_offQueue.notCounting
    · exact handleMessageLike_notCounting
  have hprocess : NotCounting (processTransaction cfg txn) :=
    .andThen (.forEach _ fun _ => .bestEffort handleReceipt_offQueue.notCounting) fun _ =>
      .forEach _ fun _ => hevent _
  refine .bind (.result (.store rfl)) fun claimed => ?_
  split
  · exact .task rfl
  · exact .task rfl
  · exact .bind (.result hprocess) fun _ => concludeTransaction_offRows.notCounting

theorem program_notCounting {c : Call} (hc : c ≠ .worker) : NotCounting (c.program cfg) := by
  cases c with
  | poll p => exact .bind poll_offQueue.notCounting fun _ => .pure
  | backfill p => exact runBackfillLoop_offQueue.notCounting
  | newThread p email ghost body =>
    have hnew : OffQueue (processNewThread cfg p email ghost body) :=
      inbound_offQueue (processNewThread_inbound (fun _ _ => trivial) fun _ _ => trivial)
    exact .bind hnew.notCounting fun _ => .pure
  | fileRoom user room =>
    have hfile : OffQueue (ensureRoomInEmailSpace user room) :=
      inbound_offQueue (p := ⟨user, ""⟩) ensureRoomInEmailSpace_inbound
    exact .bind hfile.notCounting fun _ => .pure
  | repairSpace user =>
    have hrepair : OffQueue (repairEmailSpace user) :=
      inbound_offQueue (p := ⟨user, ""⟩) repairEmailSpace_inbound
    exact .bind hrepair.notCounting fun _ => .pure
  | worker => exact absurd rfl hc
  | transaction txnId txn => exact handleTransactions_notCounting
  | detached task => exact .bind detached_offQueue.notCounting fun _ => .pure
  | prune => exact runPruning_offRows.notCounting
  | logout user =>
    exact .bind (.andThen (.lift (.task rfl)) fun _ => .andThen (.store rfl) fun _ => .store rfl)
      fun _ => .pure

theorem retry_upholds (hworker : calls worker = .worker) (hone : OneWorker calls) :
    Upholds ((bridge cfg calls).watched (retryDiary worker)) ((servesWorker worker).watched Diary)
      (retryContract worker) where
  start := by
    intro t p hi hidle _
    by_cases ht : t = worker
    · subst ht
      have hprog : (bridge cfg calls).entry t = runRetryLoop cfg := by
        show (calls t).program cfg = _
        rw [hworker]
        rfl
      have hbefore : Before [] p := ⟨hidle rfl, List.nodup_nil, fun n hn => by cases hn⟩
      have hends : RetryTriple cfg calls t t (Before []) (runRetryLoop cfg)
          fun _ p' => t = t → p'.2.todo = [] := .post runRetryLoop_scheduled fun _ _ _ h _ => h.1
      show Prog.wp _ _ _ t ((bridge cfg calls).entry t) _ p
      rw [hprog]
      exact hends p hi hbefore
    · have hcall : calls t ≠ .worker := fun hc => ht (hone worker t hworker hc)
      have hkeep : ∀ (β : Type) (o : Op β), o.cmd.counts = false →
          Keeps ((bridge cfg calls).watched (retryDiary worker))
            ((servesWorker worker).watched Diary)
            (retryContract worker) t (fun _ => True) β o := by
        rintro β ⟨c⟩ hc p x b p' _ hi _ he
        obtain ⟨hi', hcalm⟩ := calm_exec hi hc (fun h => absurd h ht) he
        exact ⟨hi', fun _ _ _ => hcalm, trivial⟩
      have htriple : RetryTriple cfg calls worker t (fun _ => True) ((calls t).program cfg)
          fun _ _ => True :=
            .only (Stable.const True) (Prog.Only.mono hkeep (program_notCounting hcall))
      exact Prog.wp_mono (fun _ _ _ _ h => absurd h ht) (htriple p hi trivial)
  env := by
    intro ev p p' hi _ h
    obtain ⟨w', hw', rfl⟩ := Option.map_eq_some_iff.mp h
    have hsame : w'.store.outboundQueue = p.1.store.outboundQueue ∧
        w'.store.nextOutboundId = p.1.store.nextOutboundId ∧ p.1.now ≤ w'.now := by
      cases ev with
      | release key stored =>
        change (Env.release key stored).perform p.1 = some w' at hw'
        simp only [Env.perform] at hw'
        split at hw'
        · obtain rfl := Option.some.inj hw'
          exact ⟨rfl, rfl, Nat.le_refl _⟩
        · cases hw'
      | advance secs =>
        obtain rfl := Option.some.inj hw'
        exact ⟨rfl, rfl, Nat.le_add_right _ _⟩
      | _ =>
        obtain rfl := Option.some.inj hw'
        exact ⟨rfl, rfl, Nat.le_refl _⟩
    obtain ⟨hqueue, hnext, hnow⟩ := hsame
    have hsee := Diligent.see hi (clocks_same hqueue hnext) hnow
    have hself : p.2.see w'.store.outboundQueue = p.2 := by
      rw [hqueue]
      exact Diligent.see_self hi
    rw [hself] at hsee
    exact ⟨hsee.1, fun _ _ => hsee.2⟩
  cancel := by
    intro t p hi ht
    exact ⟨⟨hi.known, hi.booked, hi.legal, hi.rows⟩, fun _ _ _ => ⟨rfl, rfl, Nat.le_refl _,
      fun _ _ h => h, fun _ row' h => .inl ⟨row', h, .refl _⟩⟩, fun h => absurd h ht⟩

end

/-! Every run. -/

instance decidableServesStep (worker t : Nat) (β : Type) (o : Op β) (a : Answer) (w : World) :
    Decidable ((servesWorker worker).step t o a w) :=
  inferInstanceAs (Decidable (t = worker → o.cmd.carriedOut a = true))

instance decidableServesCancel (worker t : Nat) (w : World) :
    Decidable ((servesWorker worker).cancel t w) :=
  inferInstanceAs (Decidable (t ≠ worker))

instance decidableServes (worker : Nat) (ev : Event Answer Env) (q : Pool Op World) :
    Decidable ((servesWorker worker).meets ev q) :=
  @Discipline.decidableMeets Op World Answer Env (servesWorker worker)
    (fun _ _ => instDecidableTrue) _ _ (fun _ _ => instDecidableTrue) ev q

/-- What task `worker` does with the rows of the queue in a run from `w`. -/
def diary (cfg : Config) (calls : Nat → Call) (worker : Nat) (w : World)
    (es : List (Event Answer Env)) : Diary :=
  (bridge cfg calls).notes (retryDiary worker) es (Pool.boot w)
    { first := fun id => w.store.outboundQueue.lookup id }

theorem StandsAt.count {row : OutboundRow} {attempts failures notices : List Nat} {s : Phase}
    (h : StandsAt row attempts failures notices s) :
    s.failures = row.retryCount + failures.length := by
  cases s with
  | resting k since => exact h.2.2.1
  | trying k since => exact h.2.2.1
  | givingUp since => exact h.2.1.symm

/-- A queued row carries the failures recorded for it, and unless it is in the worker's hands
every attempt on it has ended with one. -/
structure Accurate (d : Diary) (id : Nat) (row : OutboundRow) : Prop where
  limit : row.retryCount ≤ 9
  seen : ∃ row₀, d.first id = some row₀ ∧ row₀.releaseAt = row.releaseAt ∧
    row.retryCount = row₀.retryCount + (times .failure id d.entries).length
  ended : ¬d.Working id →
    (times .attempt id d.entries).length = (times .failure id d.entries).length ∧
      times .notice id d.entries = []

theorem Diligent.accurate {w : World} {d : Diary} {id : Nat} {row : OutboundRow}
    (h : Diligent (w, d)) (hrow : w.store.outboundQueue.lookup id = some row) :
    Accurate d id row := by
  obtain ⟨hcount, row₀, s, ha, hrelease, hfail, hstand⟩ := h.rows id row hrow
  have hstands := standsAt_of_phaseOf (h.known id row₀ ha.1).2 ha.2
  refine ⟨hcount, ⟨row₀, ha.1, hrelease, hfail.symm.trans hstands.count⟩, fun hw => ?_⟩
  rw [hstand.resolve_left hw] at hstands
  exact ⟨hstands.2.2.2.1, hstands.2.1⟩

/-- In every run with one worker, whatever the other tasks do to the queue, the attempts on a
row follow the schedule and its stored count follows the failures. -/
theorem retries_on_schedule {cfg : Config} {calls : Nat → Call} {worker : Nat}
    (hworker : calls worker = .worker) (hone : OneWorker calls) {w : World}
    (hrows : ∀ id row, w.store.outboundQueue.lookup id = some row →
      id < w.store.nextOutboundId ∧ row.retryCount ≤ 9)
    {es : List (Event Answer Env)} {q : Pool Op World}
    (hrun : (bridge cfg calls).run es (Pool.boot w) = some q)
    (hD : (bridge cfg calls).Admits (servesWorker worker).meets es (Pool.boot w))
    {d : Diary} (hd : diary cfg calls worker w es = d) (id : Nat) :
    (∀ row, d.first id = some row → OnSchedule row (times .attempt id d.entries)
      (times .failure id d.entries) (times .notice id d.entries)) ∧
    ∀ row, q.world.store.outboundQueue.lookup id = some row → Accurate d id row := by
  have hinv : Diligent (w, { first := fun id => w.store.outboundQueue.lookup id }) := by
    refine ⟨hrows, fun e he => (by cases he), fun id row _ => ⟨_, rfl⟩, fun id row hrow => ?_⟩
    exact ⟨(hrows id row hrow).2, row, _, ⟨hrow, rfl⟩, rfl, rfl, .inr rfl⟩
  have hend : Diligent (q.world, diary cfg calls worker w es) :=
    (retry_upholds hworker hone).inv_of_notes hinv (fun _ _ => rfl) hrun hD
  rw [hd] at hend
  refine ⟨fun row hfirst => ?_, fun row hrow => hend.accurate hrow⟩
  obtain ⟨s, hs⟩ := hend.legal id row hfirst
  exact (standsAt_of_phaseOf (hend.known id row hfirst).2 hs).onSchedule

/-- Ten attempts fail, and the notice is posted. -/
theorem retries_on_schedule_ten : ∃ (q : Pool Op World) (row : OutboundRow) (d : Diary),
    (bridge {} oneMessage).run (nineTries ++ lastTry (.id "$n")) (Pool.boot mailRoom) = some q ∧
      diary {} oneMessage 1 mailRoom (nineTries ++ lastTry (.id "$n")) = d ∧
      d.first 1 = some row ∧ (times .attempt 1 d.entries).length = 10 ∧
      OnSchedule row (times .attempt 1 d.entries) (times .failure 1 d.entries)
        (times .notice 1 d.entries) := by
  have hends : ((bridge {} oneMessage).run (nineTries ++ lastTry (.id "$n"))
      (Pool.boot mailRoom)).isSome := by decide +kernel
  have hadmits : (bridge {} oneMessage).Admits (servesWorker 1).meets
      (nineTries ++ lastTry (.id "$n")) (Pool.boot mailRoom) := by decide +kernel
  have hnoted :
      ((diary {} oneMessage 1 mailRoom (nineTries ++ lastTry (.id "$n"))).first 1).isSome ∧
      (times .attempt 1 (diary {} oneMessage 1 mailRoom
        (nineTries ++ lastTry (.id "$n"))).entries).length = 10 := by decide +kernel
  obtain ⟨q, hq⟩ := Option.isSome_iff_exists.mp hends
  obtain ⟨row, hrow⟩ := Option.isSome_iff_exists.mp hnoted.1
  have hempty : ∀ id row, mailRoom.store.outboundQueue.lookup id = some row →
      id < mailRoom.store.nextOutboundId ∧ row.retryCount ≤ 9 := by
    intro id row h
    simp [mailRoom] at h
  have hschedule := retries_on_schedule rfl oneMessage_oneWorker hempty hq hadmits rfl 1
  exact ⟨q, row, _, hq, rfl, hrow, hnoted.2, hschedule.1 row hrow⟩

end JmapBridge
