import JmapBridge.Model.Batch

/-! Which answers of the server crash `submit`. It takes two responses out by position, and
only a list that is too short for the one it takes next makes it panic. -/

namespace JmapBridge.Batch

open Rust

variable {Reply : Type}

def Outcome.Panics {α : Type} (x : Outcome α) : Prop := ∃ p, x.run = .error p

/-- The response says that the draft was created, and under which id. -/
def CreatesDraft (reader : ReplyReader Reply) (r : Reply) : Prop :=
  ∃ emailId, reader.createdDraft r = .ok (some emailId)

/-- The list ends before the next response `submit` takes: it is empty, or it is one
response that created the draft. -/
def TooShort (reader : ReplyReader Reply) (responses : List Reply) : Prop :=
  responses = [] ∨ ∃ r, responses = [r] ∧ CreatesDraft reader r

/-- The batch is sent, and answered with `responses`. -/
def Answered (reader : ReplyReader Reply) (username : String) (b : EmailBuilder)
    (answers : Answers Reply) (responses : List Reply) : Prop :=
  ∃ mailboxId, (outgoingMailbox reader answers).run = .ok (.ok mailboxId) ∧
    answers.batch (b.draft mailboxId
      ((primaryIdentity reader answers).getD (none, none, username))) = .ok responses

section

variable {α β : Type}

theorem not_panics_returned (x : Except Err α) : ¬ Outcome.Panics (returned x) := by
  rintro ⟨p, hp⟩
  cases hp

theorem not_panics_pure (a : α) : ¬ Outcome.Panics (pure a : Outcome α) := by
  rintro ⟨p, hp⟩
  cases hp

/-- A sequence panics in its first part, or in its second on what the first returned. -/
theorem panics_bind_iff (x : Outcome α) (f : α → Outcome β) :
    Outcome.Panics (x >>= f) ↔ Outcome.Panics x ∨ ∃ a, x.run = .ok (.ok a) ∧
      Outcome.Panics (f a) := by
  rw [Outcome.Panics, Outcome.Panics, ExceptT.run_bind]
  cases x.run with
  | error p => simp [bind, Except.bind]
  | ok r =>
    cases r with
    | error e => simp [bind, Except.bind, pure, Except.pure]
    | ok a => simp [bind, Except.bind, Outcome.Panics]

theorem panics_returned_bind_iff (x : Except Err α) (f : α → Outcome β) :
    Outcome.Panics (returned x >>= f) ↔ ∃ a, x = .ok a ∧ Outcome.Panics (f a) := by
  rw [panics_bind_iff, or_iff_right (not_panics_returned x)]
  constructor
  · rintro ⟨a, ha, hf⟩
    exact ⟨a, Except.ok.inj ha, hf⟩
  · rintro ⟨a, rfl, hf⟩
    exact ⟨a, rfl, hf⟩

end

theorem methodResponseByPos_nil : Outcome.Panics (methodResponseByPos ([] : List Reply) 0) :=
  ⟨_, rfl⟩

theorem methodResponseByPos_cons (r : Reply) (l : List Reply) :
    methodResponseByPos (r :: l) 0 = pure (r, l) := rfl

theorem not_panics_mailboxIdForRole (reader : ReplyReader Reply) (answers : Answers Reply)
    (role : MailboxRole) : ¬ Outcome.Panics (mailboxIdForRole reader answers role) := by
  rw [mailboxIdForRole, panics_returned_bind_iff]
  rintro ⟨responses, -, hp⟩
  cases hpop : popMethodResponse responses with
  | none =>
    rw [hpop] at hp
    exact not_panics_returned _ hp
  | some r =>
    rw [hpop] at hp
    obtain ⟨ids, -, hids⟩ := (panics_returned_bind_iff _ _).mp hp
    exact not_panics_pure _ hids

theorem not_panics_outgoingMailbox (reader : ReplyReader Reply) (answers : Answers Reply) :
    ¬ Outcome.Panics (outgoingMailbox reader answers) := by
  rw [outgoingMailbox, panics_bind_iff]
  rintro (hp | ⟨sent, -, hp⟩)
  · exact not_panics_mailboxIdForRole reader answers .sent hp
  · cases sent with
    | some id => exact not_panics_pure id hp
    | none =>
      rcases (panics_bind_iff _ _).mp hp with hp | ⟨drafts, -, hp⟩
      · exact not_panics_mailboxIdForRole reader answers .drafts hp
      · cases drafts with
        | some id => exact not_panics_pure id hp
        | none => exact not_panics_returned _ hp

theorem panics_unpack_iff (reader : ReplyReader Reply) (responses : List Reply) :
    Outcome.Panics (unpack reader responses) ↔ TooShort reader responses := by
  cases responses with
  | nil =>
    rw [unpack, panics_bind_iff]
    exact iff_of_true (Or.inl methodResponseByPos_nil) (Or.inl rfl)
  | cons first rest =>
    have hshort : TooShort reader (first :: rest) ↔ rest = [] ∧ CreatesDraft reader first := by
      constructor
      · rintro (h | ⟨r, h, hr⟩)
        · cases h
        · obtain ⟨rfl, rfl⟩ := List.cons.inj h
          exact ⟨rfl, hr⟩
      · rintro ⟨rfl, hr⟩
        exact Or.inr ⟨first, rfl, hr⟩
    rw [unpack, methodResponseByPos_cons, pure_bind, panics_returned_bind_iff, hshort]
    constructor
    · rintro ⟨created, hcreated, hp⟩
      cases created with
      | none => exact absurd hp (not_panics_returned _)
      | some emailId =>
        refine ⟨?_, emailId, hcreated⟩
        cases rest with
        | nil => rfl
        | cons next rest =>
          exfalso
          dsimp only at hp
          rw [methodResponseByPos_cons, pure_bind] at hp
          obtain ⟨accepted, -, hp⟩ := (panics_returned_bind_iff _ _).mp hp
          cases accepted with
          | true => exact not_panics_pure _ hp
          | false => exact not_panics_returned _ hp
    · rintro ⟨rfl, emailId, hcreated⟩
      exact ⟨some emailId, hcreated, (panics_bind_iff _ _).mpr (Or.inl methodResponseByPos_nil)⟩

/-- `submit` returns, unless the batch is answered with a list that is too short. -/
theorem submit_returns_iff (reader : ReplyReader Reply) (username : String) (b : EmailBuilder)
    (answers : Answers Reply) :
    (∃ r, (submit reader username b answers).run = .ok r) ↔
      ∀ responses, Answered reader username b answers responses → ¬ TooShort reader responses := by
  have hreturns : (∃ r, (submit reader username b answers).run = .ok r) ↔
      ¬ Outcome.Panics (submit reader username b answers) := by
    rw [Outcome.Panics]
    cases (submit reader username b answers).run with
    | ok r => simp
    | error p => simp
  rw [hreturns, submit, panics_bind_iff, or_iff_right (not_panics_outgoingMailbox reader answers)]
  constructor
  · rintro hnot responses ⟨mailboxId, hmailbox, hbatch⟩ hshort
    refine hnot ⟨mailboxId, hmailbox, (panics_returned_bind_iff _ _).mpr ⟨responses, hbatch, ?_⟩⟩
    exact (panics_unpack_iff reader responses).mpr hshort
  · rintro hall ⟨mailboxId, hmailbox, hp⟩
    obtain ⟨responses, hbatch, hp⟩ := (panics_returned_bind_iff _ _).mp hp
    exact hall responses ⟨mailboxId, hmailbox, hbatch⟩ ((panics_unpack_iff reader responses).mp hp)

/-- The only response there is answers a mailbox query, with one mailbox. -/
def silentReader : ReplyReader Unit where
  queryMailbox _ := .ok ["sent"]
  getIdentity _ := .error .jmap
  createdDraft _ := .error .jmap
  createdSub _ := .error .jmap

/-- A server that answers the mailbox queries and leaves the batch without responses. -/
def silentServer : Answers Unit where
  queryRole _ := .ok [()]
  identity := .ok []
  batch _ := .ok []

def helloBob : EmailBuilder where
  source := ⟨1, "@alice:hs", "!room:hs", "$event", "hi", none, none, none, 0⟩
  toEmail := "bob@example.com"
  subject := "hello"
  body := "hi"

/-- An empty list of responses to the batch is a panic. -/
theorem empty_answer_panics :
    ¬ ∃ r, (submit silentReader "alice" helloBob silentServer).run = .ok r := by
  rintro ⟨r, hr⟩
  cases hr

end JmapBridge.Batch
