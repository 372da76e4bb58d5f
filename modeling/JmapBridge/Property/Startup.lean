import JmapBridge.Effect.Buffered
import JmapBridge.Model.Sessions
import JmapBridge.Property.AtRest

/-! The startup of the client manager over a users table in which some rows may not decrypt.
The table is read as a whole before the first session is started. -/

namespace JmapBridge

open Effect Rust Rust.Str

def startLimit : Nat := 10

/-- `ClientManager::start`: the sessions to start, up to the repair of the spaces. -/
def start (lib : Cipher) (s : CredentialStore) (jitterMillis : UserId → Nat) :
    Except CredentialError (Buffered SessionOp) :=
  (getAllUsers lib s).map fun users =>
    { waiting := users.map fun (user, row) => startUser (jitterMillis user) user row }

/-- A startup that performs `log`: nothing where the table is not read. -/
def Starts (lib : Cipher) (s : CredentialStore) (jitterMillis : UserId → Nat)
    (log : List (Performed SessionOp)) : Prop :=
  match start lib s jitterMillis with
  | .error _ => log = []
  | .ok q => q.Drains startLimit log

def SessionTried (log : List (Performed SessionOp)) (user : UserId) (row : RegisteredUser) : Prop :=
  ∃ d ∈ log, d.op.cmd = .connect user row

/-- Every startup attempts a session for every active user whose row decrypts. -/
def StartsTheReadable (lib : Cipher) (s : CredentialStore) : Prop :=
  ∀ jitterMillis log, Starts lib s jitterMillis log →
    ∀ r ∈ s.users, isActive r = true → ∀ user row, decryptUser lib s r = .ok (user, row) →
      SessionTried log user row

theorem startUser_performs (jitter : Nat) (user : UserId) (row : RegisteredUser) :
    (startUser jitter user row).Performs fun d => d.op.cmd = .connect user row :=
  .later fun _ => .here fun _ => rfl

theorem mapM_cases {ε α β : Type} (f : α → Except ε β) (l : List α) :
    (∃ e, l.mapM f = .error e ∧ ∃ a ∈ l, f a = .error e) ∨
      ∃ bs, l.mapM f = .ok bs ∧ ∀ a ∈ l, ∃ b ∈ bs, f a = .ok b := by
  induction l with
  | nil => exact .inr ⟨[], rfl, by simp⟩
  | cons a l ih =>
    rw [List.mapM_cons]
    cases ha : f a with
    | error e => exact .inl ⟨e, rfl, a, List.mem_cons_self, ha⟩
    | ok b =>
      rcases ih with ⟨e, he, x, hx, hfx⟩ | ⟨bs, hbs, hall⟩
      · rw [he]
        exact .inl ⟨e, rfl, x, List.mem_cons_of_mem a hx, hfx⟩
      · rw [hbs]
        refine .inr ⟨b :: bs, rfl, fun x hx => ?_⟩
        rcases List.mem_cons.mp hx with rfl | hx
        · exact ⟨b, List.mem_cons_self, ha⟩
        · obtain ⟨y, hy, hxy⟩ := hall x hx
          exact ⟨y, List.mem_cons_of_mem b hy, hxy⟩

section

variable {lib : Cipher} {s : CredentialStore}

theorem tried_of_read {users : List (UserId × RegisteredUser)}
    (hread : getAllUsers lib s = .ok users) {jitterMillis : UserId → Nat}
    {log : List (Performed SessionOp)} (hlog : Starts lib s jitterMillis log) {user : UserId}
    {row : RegisteredUser} (hmem : (user, row) ∈ users) : SessionTried log user row := by
  rw [Starts, start, hread] at hlog
  have hlog : Buffered.Drains startLimit
    ⟨users.map fun (user, row) => startUser (jitterMillis user) user row, []⟩ log := hlog
  have hwaiting : startUser (jitterMillis user) user row ∈
      users.map fun (user, row) => startUser (jitterMillis user) user row :=
    List.mem_map.mpr ⟨(user, row), hmem, rfl⟩
  exact hlog.performs (.inl hwaiting) (startUser_performs _ user row)

theorem starts_nothing {e : CredentialError} (hread : getAllUsers lib s = .error e)
    (jitterMillis : UserId → Nat) : Starts lib s jitterMillis [] := by
  rw [Starts, start, hread]
  rfl

/-- The users whose rows decrypt are started exactly when all active rows decrypt or none
does. -/
theorem startsTheReadable_iff (lib : Cipher) (s : CredentialStore) :
    StartsTheReadable lib s ↔
      (∀ r ∈ s.users, isActive r = true → ∃ r', decryptUser lib s r = .ok r') ∨
      (∀ r ∈ s.users, isActive r = true → ∀ r', decryptUser lib s r ≠ .ok r') := by
  have hcases := mapM_cases (decryptUser lib s) (s.users.filter isActive)
  constructor
  · intro hstarts
    rcases hcases with ⟨e, he, -⟩ | ⟨users, -, hall⟩
    · refine .inr fun r hr hactive r' hr' => ?_
      obtain ⟨d, hd, -⟩ :=
        hstarts (fun _ => 0) [] (starts_nothing he _) r hr hactive r'.1 r'.2 hr'
      cases hd
    · refine .inl fun r hr hactive => ?_
      obtain ⟨r', -, hr'⟩ := hall r (List.mem_filter.mpr ⟨hr, hactive⟩)
      exact ⟨r', hr'⟩
  · rintro (hall | hnone) jitterMillis log hlog r hr hactive user row hrow
    · rcases hcases with ⟨e, -, a, ha, hae⟩ | ⟨users, husers, hread⟩
      · obtain ⟨hmem, hact⟩ := List.mem_filter.mp ha
        obtain ⟨r', hr'⟩ := hall a hmem hact
        rw [hae] at hr'
        cases hr'
      · obtain ⟨r', hmem, hr'⟩ := hread r (List.mem_filter.mpr ⟨hr, hactive⟩)
        rw [hrow] at hr'
        rw [← Except.ok.inj hr'] at hmem
        exact tried_of_read husers hlog hmem
    · exact absurd hrow (hnone r hr hactive _)

end

def sealed (text : String) : String :=
  tagCipher.encode (zeroNonce.bytes ++ (bytes text.toList ++ List.replicate 16 0))

theorem decrypt_sealed (text : String) : decrypt tagCipher (sealed text) zeroKey = .ok text := by
  obtain ⟨stored, hstored, -, hopen⟩ :=
    encrypt_decrypt tagCipher_sound zeroKey text zeroNonce
  have hsame : encrypt tagCipher text zeroKey zeroNonce = .ok (sealed text) := rfl
  rw [hsame] at hstored
  rwa [Except.ok.inj hstored]

/-- A table from before the key, to which a user was added after it. -/
def mixedStore : CredentialStore where
  encryptionKey := some zeroKey
  users :=
    [("@bob:example.com", ⟨"bob", "hunter2", "https://mail.example.com"⟩),
      ("@alice:example.com", ⟨sealed "alice", sealed "secret", "https://mail.example.com"⟩)]

theorem plaintext_row_stops_alice : ¬ StartsTheReadable tagCipher mixedStore := by
  intro h
  have hbob : decryptUser tagCipher mixedStore
      ("@bob:example.com", ⟨"bob", "hunter2", "https://mail.example.com"⟩) =
      .error (.context "Failed to decrypt username" (.tooShort 3)) := rfl
  have halice : decryptUser tagCipher mixedStore
      ("@alice:example.com", ⟨sealed "alice", sealed "secret", "https://mail.example.com"⟩) =
      .ok ("@alice:example.com", ⟨"alice", "secret", "https://mail.example.com"⟩) := by
    rw [decryptUser, show mixedStore.encryptionKey = some zeroKey from rfl, openText, openText,
      decrypt_sealed, decrypt_sealed]
    rfl
  have hactive : isActive
      ("@alice:example.com", ⟨sealed "alice", sealed "secret", "https://mail.example.com"⟩) =
      true := by
    decide
  have hread : getAllUsers tagCipher mixedStore =
      .error (.context "Failed to decrypt username" (.tooShort 3)) := by
    rw [getAllUsers, mixedStore, List.filter_cons_of_pos (by decide), List.mapM_cons]
    rw [← mixedStore, hbob]
    rfl
  obtain ⟨d, hd, -⟩ := h (fun _ => 0) [] (starts_nothing hread _) _
    (List.mem_cons_of_mem _ List.mem_cons_self) hactive _ _ halice
  cases hd

end JmapBridge
