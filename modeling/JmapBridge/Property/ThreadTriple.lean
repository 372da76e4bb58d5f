import JmapBridge.Model.Transactions
import JmapBridge.Rust.Lines

/-! The thread of a queued message. It is packed into one column when the message is queued
and read back by the worker, which sends a reply where it finds one. -/

namespace JmapBridge

open Effect Rust Rust.Str

theorem length_split (c : Char) (s : Str) : (split c s).length = s.count c + 1 := by
  induction s with
  | nil => rfl
  | cons d s ih =>
    by_cases hd : d = c
    · rw [split, if_pos hd, List.length_cons, ih, hd, List.count_cons_self]
    · cases hs : split c s with
      | nil => exact absurd hs (split_ne_nil c s)
      | cons w ws =>
        rw [hs] at ih
        rw [split_cons_of_ne hd hs, List.count_cons_of_ne hd, ← ih]
        rfl

/-- No part of the triple holds the separator. -/
structure ThreadContext.Packable (c : ThreadContext) : Prop where
  thread : threadQueueSeparator ∉ c.thread.toList
  parent : threadQueueSeparator ∉ c.parent.toList
  root : threadQueueSeparator ∉ c.root.toList

theorem ThreadContext.toList_encode (c : ThreadContext) : c.encode.toList =
    c.thread.toList ++ threadQueueSeparator ::
      (c.parent.toList ++ threadQueueSeparator :: c.root.toList) := by
  simp [ThreadContext.encode, threadQueueSeparator, toString]

theorem ThreadContext.Packable.split {c : ThreadContext} (h : c.Packable) :
    Str.split threadQueueSeparator c.encode.toList =
      [c.thread.toList, c.parent.toList, c.root.toList] := by
  rw [c.toList_encode, split_append, split_append, split_free h.thread, split_free h.parent,
    split_free h.root]
  rfl

theorem parseThreadRoot_isSome (raw : String) : (parseThreadRoot (some raw)).isSome = true ↔
    (Str.split threadQueueSeparator raw.toList).length = 3 := by
  rw [parseThreadRoot, Option.map_some]
  generalize Str.split threadQueueSeparator raw.toList = parts
  constructor
  · intro h
    split at h
    · rename_i heq
      obtain rfl := Option.some.inj heq
      rfl
    · cases h
  · intro h
    obtain ⟨thread, parent, root, rfl⟩ := List.length_eq_three.mp h
    rfl

theorem parseThreadRoot_encode {c : ThreadContext} (h : c.Packable) :
    parseThreadRoot (some c.encode) = some (c.thread, c.parent, c.root) := by
  rw [parseThreadRoot, Option.map_some, h.split]
  simp

/-- What is queued with a thread is sent as a reply in that thread, what is queued without
one as a fresh email. -/
theorem sendQueued_context (cfg : Config) (account : Account) (email : String)
    {msg : OutboundMessage} {context : Option ThreadContext} (hpack : ∀ c ∈ context, c.Packable)
    (hmsg : msg.threadRootId = context.map (·.encode)) :
    sendQueued cfg account email msg =
      match context with
      | some c => submitReply cfg account email msg c.thread c.root
      | none => submitFresh account email msg := by
  rw [sendQueued, hmsg]
  cases context with
  | none => rfl
  | some c => rw [Option.map_some, parseThreadRoot_encode (hpack c rfl)]

/-- The triple survives the column, a column holds a triple when it holds two separators,
and so the worker replies where a reply was queued and nowhere else. -/
theorem threadTriple_survives :
    (∀ c : ThreadContext, c.Packable →
      parseThreadRoot (some c.encode) = some (c.thread, c.parent, c.root)) ∧
    (∀ raw : String, (parseThreadRoot (some raw)).isSome = true ↔
      raw.toList.count threadQueueSeparator = 2) ∧
    (∀ (cfg : Config) (account : Account) (email : String) (msg : OutboundMessage)
      (context : Option ThreadContext), (∀ c ∈ context, c.Packable) →
      msg.threadRootId = context.map (·.encode) →
      sendQueued cfg account email msg =
        match context with
        | some c => submitReply cfg account email msg c.thread c.root
        | none => submitFresh account email msg) := by
  refine ⟨fun _ => parseThreadRoot_encode, fun raw => ?_, ?_⟩
  · rw [parseThreadRoot_isSome, length_split]
    omega
  · intro cfg account email msg context hpack hmsg
    exact sendQueued_context cfg account email hpack hmsg

/-- A thread without a parent email. -/
theorem threadTriple_without_parent :
    parseThreadRoot (some "T1||$root:example.com") = some ("T1", "", "$root:example.com") := by
  have hpack : ThreadContext.Packable ⟨"T1", "", "$root:example.com"⟩ := by
    constructor <;> decide
  exact threadTriple_survives.1 ⟨"T1", "", "$root:example.com"⟩ hpack

end JmapBridge
